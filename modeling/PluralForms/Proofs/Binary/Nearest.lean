import Mathlib.Data.Nat.Dist
import PluralForms.Proofs.Binary.Whole

/-!
# Rounding goes to the nearest number

What it means that a number of a format is the one that a quotient rounds to, said without the way
it is computed: none is nearer to the quotient, and if another one is as near, then it is the one
with an even count of steps. That is what `round` computes,

    roundsTo_round : RoundsTo num den (round num den)

and rounding in double precision is that, infinite from where the format ends:

    isNearest_nearest : IsNearest num den (nearest num den)

* `round_near` - how far off a rounded quotient is at most, half a step.
-/

namespace PluralForms.Binary

/-! ### Quotients -/

/-- A rounded quotient is off by a half at most. -/
theorem roundDiv_near (num : Nat) {den : Nat} (hden : 0 < den) :
    2 * (roundDiv num den * den) ≤ 2 * num + den ∧
      2 * num ≤ 2 * (roundDiv num den * den) + den := by
  have hsplit : num / den * den + num % den = num := Nat.div_add_mod' num den
  have hnext : (num / den + 1) * den = num / den * den + den := Nat.succ_mul _ _
  have hlt : num % den < den := Nat.mod_lt num hden
  unfold roundDiv
  dsimp only
  split
  · omega
  · split
    · rw [hnext]
      omega
    · rcases Nat.mod_two_eq_zero_or_one (num / den) with heven | hodd
      · rw [heven, Nat.add_zero]
        omega
      · rw [hodd, hnext]
        omega

/-- If another whole number is as near, the one that is taken is even. -/
theorem roundDiv_even {num den k : Nat} (hden : 0 < den) (hk : k ≠ roundDiv num den)
    (hnear : 2 * (k * den) ≤ 2 * num + den ∧ 2 * num ≤ 2 * (k * den) + den) :
    roundDiv num den % 2 = 0 := by
  have hsplit : num / den * den + num % den = num := Nat.div_add_mod' num den
  have hnext : (num / den + 1) * den = num / den * den + den := Nat.succ_mul _ _
  have hlt : num % den < den := Nat.mod_lt num hden
  have hlow : num / den ≤ k := by
    by_contra hless
    have hstep : (k + 1) * den ≤ num / den * den := Nat.mul_le_mul_right den (by omega)
    rw [Nat.succ_mul] at hstep
    omega
  have hhigh : k ≤ num / den + 1 := by
    by_contra hmore
    have hstep : (num / den + 1 + 1) * den ≤ k * den := Nat.mul_le_mul_right den (by omega)
    rw [Nat.succ_mul, hnext] at hstep
    omega
  unfold roundDiv at hk ⊢
  dsimp only at hk ⊢
  split at hk
  · -- below the middle only the quotient itself is so near
    obtain rfl : k = num / den + 1 := by omega
    omega
  · split at hk
    · obtain rfl : k = num / den := by omega
      omega
    · next hbelow habove =>
      rw [if_neg hbelow, if_neg habove]
      omega

/-- A whole number less than a half off is the one that is taken. -/
theorem roundDiv_of_near {num den k : Nat} (h : 2 * Nat.dist (k * den) num < den) :
    roundDiv num den = k := by
  obtain ⟨hlow, hhigh⟩ := roundDiv_near num (Nat.zero_lt_of_lt h)
  unfold Nat.dist at h
  rcases Nat.lt_trichotomy k (roundDiv num den) with hlt | heq | hgt
  · have hstep : (k + 1) * den ≤ roundDiv num den * den := Nat.mul_le_mul_right den hlt
    rw [Nat.succ_mul] at hstep
    omega
  · exact heq.symm
  · have hstep : (roundDiv num den + 1) * den ≤ k * den := Nat.mul_le_mul_right den hgt
    rw [Nat.succ_mul] at hstep
    omega

theorem dist_roundDiv_le (num k : Nat) {den : Nat} (hden : 0 < den) :
    Nat.dist (roundDiv num den * den) num ≤ Nat.dist (k * den) num := by
  obtain ⟨hlow, hhigh⟩ := roundDiv_near num hden
  unfold Nat.dist
  rcases Nat.lt_trichotomy k (roundDiv num den) with hlt | rfl | hgt
  · have hstep : (k + 1) * den ≤ roundDiv num den * den := Nat.mul_le_mul_right den hlt
    rw [Nat.succ_mul] at hstep
    omega
  · exact Nat.le_refl _
  · have hstep : (roundDiv num den + 1) * den ≤ k * den := Nat.mul_le_mul_right den hgt
    rw [Nat.succ_mul] at hstep
    omega

/-! ### Numbers of a format -/

namespace Format

variable {fmt : Format}

/-- The count of units that `num / den` is rounded to: no count of the format is nearer, and if
another one is as near, this one is an even number of steps. -/
structure RoundsTo (fmt : Format) (num den units : Nat) : Prop where
  represented : fmt.step units ∣ units
  nearest : ∀ other, fmt.step other ∣ other →
    Nat.dist (units * den) num ≤ Nat.dist (other * den) num
  even : ∀ other, fmt.step other ∣ other → other ≠ units →
    Nat.dist (other * den) num = Nat.dist (units * den) num → units / fmt.step units % 2 = 0

theorem round_mul_den (num den : Nat) :
    fmt.round num den * den =
      roundDiv num (den * fmt.step (num / den)) * (den * fmt.step (num / den)) := by
  unfold round
  rw [Nat.mul_assoc, Nat.mul_comm (fmt.step (num / den)) den]

theorem round_near (num : Nat) {den : Nat} (hden : 0 < den) :
    2 * (fmt.round num den * den) ≤ 2 * num + den * fmt.step (num / den) ∧
      2 * num ≤ 2 * (fmt.round num den * den) + den * fmt.step (num / den) := by
  rw [round_mul_den]
  exact roundDiv_near num (Nat.mul_pos hden (step_pos _))

theorem two_mul_dist_round_le (num : Nat) {den : Nat} (hden : 0 < den) :
    2 * Nat.dist (fmt.round num den * den) num ≤ den * fmt.step (num / den) := by
  obtain ⟨hlow, hhigh⟩ := fmt.round_near num hden
  unfold Nat.dist
  omega

/-! ### The nearest number -/

/-- Among the multiples of the step about the quotient none is nearer. -/
theorem dist_round_le_of_dvd {num den other : Nat} (hden : 0 < den)
    (h : fmt.step (num / den) ∣ other) :
    Nat.dist (fmt.round num den * den) num ≤ Nat.dist (other * den) num := by
  obtain ⟨k, rfl⟩ := h
  rw [round_mul_den, Nat.mul_comm (fmt.step (num / den)) k, Nat.mul_assoc,
    Nat.mul_comm (fmt.step (num / den)) den]
  exact dist_roundDiv_le num k (Nat.mul_pos hden (step_pos _))

/-- The other numbers of the format lie below the power of two that the quotient begins with. -/
theorem lt_two_pow_log2 {units other : Nat} (h : fmt.step other ∣ other)
    (hnot : ¬fmt.step units ∣ other) : other < 2 ^ units.log2 := by
  by_contra hle
  have hother : other ≠ 0 := by
    rintro rfl
    exact hnot (Nat.dvd_zero _)
  have hlog : units.log2 ≤ other.log2 := (Nat.le_log2 hother).2 (Nat.le_of_not_lt hle)
  refine hnot (Nat.dvd_trans ?_ h)
  unfold step stepExponent
  exact Nat.pow_dvd_pow 2 (by omega)

/-- So they are farther away. -/
theorem dist_round_lt_of_not_dvd (hp : 0 < fmt.precision) {num den other : Nat} (hden : 0 < den)
    (h : fmt.step other ∣ other) (hnot : ¬fmt.step (num / den) ∣ other) :
    Nat.dist (fmt.round num den * den) num < Nat.dist (other * den) num := by
  have hquot : num / den ≠ 0 := by
    intro hzero
    refine hnot ?_
    rw [hzero]
    unfold step stepExponent
    rw [show Nat.log2 0 + 1 - fmt.precision = 0 from by rw [Nat.log2_zero]; omega]
    exact Nat.one_dvd other
  have hbelow : (other + 1) * den ≤ 2 ^ (num / den).log2 * den :=
    Nat.mul_le_mul_right den (lt_two_pow_log2 h hnot)
  have habove : 2 ^ (num / den).log2 * den ≤ num :=
    Nat.le_trans (Nat.mul_le_mul_right den (Nat.log2_self_le hquot)) (Nat.div_mul_le_self num den)
  have hpower := dist_round_le_of_dvd hden (fmt.step_dvd_two_pow_log2 hp (num / den))
  rw [Nat.succ_mul] at hbelow
  unfold Nat.dist at hpower ⊢
  omega

/-! ### Even counts -/

/-- A rounded quotient has no more than the format's significant bits. -/
theorem roundDiv_step_le (num den : Nat) :
    roundDiv num (den * fmt.step (num / den)) ≤ 2 ^ fmt.precision := by
  refine roundDiv_le ?_
  rw [← Nat.div_div_eq_div_mul, Nat.div_lt_iff_lt_mul (step_pos _), step, ← Nat.pow_add]
  refine Nat.lt_of_lt_of_le Nat.lt_log2_self (Nat.pow_le_pow_right (by decide) ?_)
  unfold stepExponent
  omega

/-- An even number of steps stays even when the step about the result is a larger one. -/
theorem div_step_even (hp : 1 < fmt.precision) {count e : Nat} (hcount : count ≤ 2 ^ fmt.precision)
    (he : e ≤ fmt.stepExponent (count * 2 ^ e)) (heven : count % 2 = 0) :
    count * 2 ^ e / fmt.step (count * 2 ^ e) % 2 = 0 := by
  unfold step
  rcases Nat.lt_or_eq_of_le he with hlt | heq
  · -- the step has doubled: the count was the greatest one
    have hlog : fmt.precision + e ≤ (count * 2 ^ e).log2 := by
      unfold stepExponent at hlt
      omega
    have hne : count * 2 ^ e ≠ 0 := by
      intro hzero
      rw [hzero, Nat.log2_zero] at hlog
      omega
    have hpower : count * 2 ^ e = 2 ^ (fmt.precision + e) := by
      refine Nat.le_antisymm ?_ ((Nat.le_log2 hne).1 hlog)
      rw [Nat.pow_add]
      exact Nat.mul_le_mul_right _ hcount
    have hexp : fmt.stepExponent (2 ^ (fmt.precision + e)) = e + 1 := by
      unfold stepExponent
      rw [Nat.log2_two_pow]
      omega
    rw [hpower, hexp, Nat.pow_div (by omega) (by decide)]
    rw [show fmt.precision + e - (e + 1) = fmt.precision - 2 + 1 from by omega, Nat.pow_succ]
    exact Nat.mul_mod_left _ 2
  · rw [← heq, Nat.mul_div_cancel _ (Nat.two_pow_pos e)]
    exact heven

theorem stepExponent_le_round (hp : 0 < fmt.precision) (num den : Nat) :
    fmt.stepExponent (num / den) ≤ fmt.stepExponent (fmt.round num den) := by
  rcases Nat.eq_zero_or_pos (num / den) with hzero | hpos
  · rw [hzero]
    unfold stepExponent
    rw [Nat.log2_zero]
    omega
  · have hpower : 2 ^ (num / den).log2 ≤ fmt.round num den :=
      le_round_of_dvd (step_dvd_two_pow_log2 hp _) (Nat.log2_self_le (Nat.ne_of_gt hpos))
    have hround : fmt.round num den ≠ 0 :=
      Nat.ne_of_gt (Nat.lt_of_lt_of_le (Nat.two_pow_pos _) hpower)
    have hlog := (Nat.le_log2 hround).2 hpower
    unfold stepExponent
    omega

theorem roundsTo_round (hp : 1 < fmt.precision) (num : Nat) {den : Nat} (hden : 0 < den) :
    fmt.RoundsTo num den (fmt.round num den) where
  represented := step_round_dvd (by omega) num den
  nearest := by
    intro other hother
    by_cases hdvd : fmt.step (num / den) ∣ other
    · exact dist_round_le_of_dvd hden hdvd
    · exact Nat.le_of_lt (dist_round_lt_of_not_dvd (by omega) hden hother hdvd)
  even := by
    intro other hother hne hdist
    by_cases hdvd : fmt.step (num / den) ∣ other
    · refine div_step_even hp (roundDiv_step_le num den)
        (stepExponent_le_round (by omega) num den) ?_
      obtain ⟨k, rfl⟩ := hdvd
      have hpos : 0 < den * fmt.step (num / den) := Nat.mul_pos hden (step_pos _)
      have hnear := roundDiv_near num hpos
      rw [round_mul_den, Nat.mul_comm (fmt.step (num / den)) k, Nat.mul_assoc,
        Nat.mul_comm (fmt.step (num / den)) den] at hdist
      refine roundDiv_even hpos (k := k) ?_ ?_
      · rintro rfl
        exact hne (Nat.mul_comm _ _)
      · unfold Nat.dist at hdist
        omega
    · exact absurd hdist (Nat.ne_of_gt (dist_round_lt_of_not_dvd (by omega) hden hother hdvd))

end Format

/-! ### Double precision -/

/-- The double-precision number that `num / den` is rounded to. It is infinite if a format without
a greatest number would take a number past the range. -/
inductive Double.IsNearest (num den : Nat) : Double → Prop
  | finite {units exact} : Format.double.RoundsTo (num * one) den units →
      IsNearest num den (.finite false units exact)
  | infinite {units} : Format.double.RoundsTo (num * one) den units →
      2 ^ Format.double.range ≤ units → IsNearest num den (.infinite false)

theorem Double.isNearest_nearest (num : Nat) {den : Nat} (hden : 0 < den) :
    IsNearest num den (nearest num den) := by
  have hround : Format.double.RoundsTo (num * one) den (Format.double.round (num * one) den) :=
    Format.roundsTo_round (by decide) (num * one) hden
  unfold nearest ofUnits
  split
  · exact .finite hround
  · next hrange => exact .infinite hround (Nat.le_of_not_lt hrange)

end PluralForms.Binary
