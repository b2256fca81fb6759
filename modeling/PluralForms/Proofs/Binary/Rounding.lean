import PluralForms.Binary.Rounding

/-!
# What rounding keeps

Rounding to a binary format depends on the quotient only, not on the two numbers it is written
with; it leaves the numbers of the format alone; and it goes past none of them:

    round_mul_right : round (num * c) (den * c) = round num den
    round_of_step_dvd : step u ∣ u → round u 1 = u
    le_round : step u ∣ u → u ≤ num / den → u ≤ round num den
    round_le_two_pow : num / den < 2 ^ k → round num den ≤ 2 ^ k

The third is proved at the greatest power of two that is not above the quotient. Numbers below that
power are below what is rounded, and those from there on are multiples of the same step.
-/

namespace PluralForms.Binary

/-! ### Quotients -/

theorem roundDiv_mul_right (num den : Nat) {c : Nat} (hc : 0 < c) :
    roundDiv (num * c) (den * c) = roundDiv num den := by
  unfold roundDiv
  dsimp only
  rw [Nat.mul_div_mul_right num den hc, Nat.mul_mod_mul_right, ← Nat.mul_assoc]
  simp only [Nat.mul_lt_mul_right hc]

theorem roundDiv_mul_self (q : Nat) {den : Nat} (hden : 0 < den) : roundDiv (q * den) den = q := by
  unfold roundDiv
  dsimp only
  rw [Nat.mul_div_cancel q hden, Nat.mul_mod_left, if_pos hden]

theorem div_le_roundDiv (num den : Nat) : num / den ≤ roundDiv num den := by
  unfold roundDiv
  dsimp only
  split
  · exact Nat.le_refl _
  · split
    · exact Nat.le_succ _
    · exact Nat.le_add_right _ _

namespace Format

variable {fmt : Format}

theorem step_pos (units : Nat) : 0 < fmt.step units := Nat.two_pow_pos _

/-! ### Rounding -/

theorem round_mul_right (num den : Nat) {c : Nat} (hc : 0 < c) :
    fmt.round (num * c) (den * c) = fmt.round num den := by
  unfold round
  dsimp only
  rw [Nat.mul_div_mul_right num den hc, Nat.mul_right_comm den c, roundDiv_mul_right num _ hc]

theorem round_of_step_dvd {units : Nat} (h : fmt.step units ∣ units) :
    fmt.round units 1 = units := by
  obtain ⟨q, hq⟩ := h
  unfold round
  dsimp only
  rw [Nat.div_one, Nat.one_mul]
  generalize hs : fmt.step units = spacing at hq
  have hpos : 0 < spacing := hs ▸ step_pos units
  rw [hq, Nat.mul_comm spacing q, roundDiv_mul_self q hpos]

/-- Multiples of the step about the quotient are not gone past. -/
theorem le_round_of_dvd {num den units : Nat} (h : fmt.step (num / den) ∣ units)
    (hle : units ≤ num / den) : units ≤ fmt.round num den := by
  obtain ⟨q, rfl⟩ := h
  have hq : q ≤ num / (den * fmt.step (num / den)) := by
    rw [← Nat.div_div_eq_div_mul, Nat.le_div_iff_mul_le (step_pos _), Nat.mul_comm]
    exact hle
  unfold round
  dsimp only
  rw [Nat.mul_comm]
  exact Nat.mul_le_mul_right _ (Nat.le_trans hq (div_le_roundDiv num _))

/-- The step divides the power of two that its magnitude begins with. -/
theorem step_dvd_two_pow_log2 (hp : 0 < fmt.precision) (units : Nat) :
    fmt.step units ∣ 2 ^ units.log2 := by
  unfold step stepExponent
  exact Nat.pow_dvd_pow 2 (by omega)

theorem le_round (hp : 0 < fmt.precision) {num den units : Nat} (h : fmt.step units ∣ units)
    (hle : units ≤ num / den) : units ≤ fmt.round num den := by
  rcases Nat.eq_zero_or_pos units with rfl | hpos
  · exact Nat.zero_le _
  have hunits : units ≠ 0 := Nat.ne_of_gt hpos
  have hquot : num / den ≠ 0 := Nat.ne_of_gt (Nat.lt_of_lt_of_le hpos hle)
  have hlog : 2 ^ (num / den).log2 ≤ num / den := Nat.log2_self_le hquot
  by_cases hsame : units.log2 = (num / den).log2
  · -- the same power of two: the same step
    have hstep : fmt.step (num / den) = fmt.step units := by
      unfold step stepExponent
      rw [hsame]
    exact le_round_of_dvd (hstep ▸ h) hle
  · -- a smaller one: the power itself lies between
    have hless : units.log2 < (num / den).log2 := by
      refine Nat.lt_of_le_of_ne ((Nat.le_log2 hquot).2 ?_) hsame
      exact Nat.le_trans (Nat.log2_self_le hunits) hle
    have hbelow : units ≤ 2 ^ (num / den).log2 :=
      Nat.le_trans (Nat.le_of_lt Nat.lt_log2_self) (Nat.pow_le_pow_right (by decide) hless)
    exact Nat.le_trans hbelow (le_round_of_dvd (step_dvd_two_pow_log2 hp _) hlog)

/-- Powers of two with more bits than are significant are not gone past either. -/
theorem round_le_two_pow (hp : 0 < fmt.precision) {num den k : Nat} (hk : fmt.precision ≤ k)
    (h : num / den < 2 ^ k) : fmt.round num den ≤ 2 ^ k := by
  have hbits : fmt.precision + fmt.stepExponent (num / den) ≤ k := by
    unfold stepExponent
    by_cases hzero : num / den = 0
    · rw [hzero, Nat.log2_zero]
      omega
    · have hlog : (num / den).log2 < k := (Nat.log2_lt hzero).2 h
      omega
  have hfew : num / (den * fmt.step (num / den)) < 2 ^ fmt.precision := by
    rw [← Nat.div_div_eq_div_mul, step, Nat.div_lt_iff_lt_mul (Nat.two_pow_pos _), ← Nat.pow_add]
    refine Nat.lt_of_lt_of_le Nat.lt_log2_self (Nat.pow_le_pow_right (by decide) ?_)
    unfold stepExponent
    omega
  unfold round
  dsimp only
  calc roundDiv num (den * fmt.step (num / den)) * fmt.step (num / den)
      ≤ 2 ^ fmt.precision * fmt.step (num / den) := Nat.mul_le_mul_right _ (roundDiv_le hfew)
    _ = 2 ^ (fmt.precision + fmt.stepExponent (num / den)) := by rw [step, ← Nat.pow_add]
    _ ≤ 2 ^ k := Nat.pow_le_pow_right (by decide) hbits

end Format

end PluralForms.Binary
