import PluralForms.Proofs.Binary.Nearest

/-!
# Rounded fractions

A decimal fraction is rounded when it becomes a double-precision number, and a sum is rounded again.
As long as the digits make up a number below `2 ^ 52`, which fifteen digits always do, and the last
of them counts more than the least positive number, what is rounded off is less than half a unit of
the last digit. So the digits can still be told, and what is no whole number stays none:

    two_mul_dist_lt : 2 * Nat.dist (round (num * one) den * den) (num * one) < one
    roundDiv_nearest : roundDiv (round (num * one) den * den) one = num
    isWhole_nearest : ¬den ∣ num → (nearest num den).isWhole = false
    isWhole_add : ¬den ∣ num → (add (ofNat a) (nearest num den)).isWhole = false
-/

namespace PluralForms.Binary

/-- A step is a small part of the numbers about it, unless it is a unit. -/
theorem Format.step_mul_le {fmt : Format} (hp : 0 < fmt.precision) (units : Nat) :
    fmt.step units * 2 ^ (fmt.precision - 1) ≤ max units (2 ^ (fmt.precision - 1)) := by
  unfold step stepExponent
  rw [← Nat.pow_add]
  rcases Nat.lt_or_ge units.log2 fmt.precision with hlt | hge
  · rw [show units.log2 + 1 - fmt.precision + (fmt.precision - 1) = fmt.precision - 1 from by omega]
    exact Nat.le_max_right _ _
  · have hunits : units ≠ 0 := by
      rintro rfl
      rw [Nat.log2_zero] at hge
      omega
    rw [show units.log2 + 1 - fmt.precision + (fmt.precision - 1) = units.log2 from by omega]
    exact Nat.le_trans (Nat.log2_self_le hunits) (Nat.le_max_left _ _)

namespace Double

/-- Digits that make up a number below this survive rounding. -/
def digitsBound : Nat := 2 ^ (52 : Nat)

/-- The last decimal place that counts more than the least positive number. -/
def placesBound : Nat := 323

theorem ten_pow_lt_one {w : Nat} (h : w ≤ placesBound) : 10 ^ w < one :=
  Nat.lt_of_le_of_lt (Nat.pow_le_pow_right (by decide) h)
    (by decide +kernel : 10 ^ placesBound < one)

/-! ### What is rounded off -/

/-- Half a step is little about a small number with digits that all count. -/
theorem den_mul_step_lt {units den : Nat} (hunits : den * units < digitsBound * one)
    (hden : den < one) : den * Format.double.step units < one := by
  have hstep : Format.double.step units * digitsBound ≤ max units digitsBound :=
    Format.step_mul_le (by decide) units
  have hpos : 0 < digitsBound := Nat.two_pow_pos 52
  have hmul : den * (Format.double.step units * digitsBound) < one * digitsBound := by
    refine Nat.lt_of_le_of_lt (Nat.mul_le_mul_left den hstep) ?_
    rcases Nat.le_total units digitsBound with hle | hle
    · rw [Nat.max_eq_right hle]
      exact Nat.mul_lt_mul_of_pos_right hden hpos
    · rw [Nat.max_eq_left hle, Nat.mul_comm one]
      exact hunits
  rw [← Nat.mul_assoc] at hmul
  exact Nat.lt_of_mul_lt_mul_right hmul

theorem two_mul_dist_lt {num den : Nat} (hpos : 0 < den) (hnum : num < digitsBound)
    (hden : den < one) :
    2 * Nat.dist (Format.double.round (num * one) den * den) (num * one) < one := by
  refine Nat.lt_of_le_of_lt (Format.two_mul_dist_round_le _ hpos) (den_mul_step_lt ?_ hden)
  refine Nat.lt_of_le_of_lt (Nat.mul_div_le (num * one) den) ?_
  exact Nat.mul_lt_mul_of_pos_right hnum one_pos

theorem exists_nearest {num den : Nat} (hpos : 0 < den) (hnum : num < digitsBound)
    (hden : den < one) : ∃ exact, nearest num den =
      .finite false (Format.double.round (num * one) den) exact := by
  refine ofUnits_of_lt false (Nat.lt_trans ?_ wholeBound_mul_one_lt)
  have hnear := two_mul_dist_lt hpos hnum hden
  have hbound : (num + 1 + 1) * one ≤ wholeBound * one := by
    have hless : digitsBound < wholeBound := by decide
    exact Nat.mul_le_mul_right one (by omega)
  have hmul : Format.double.round (num * one) den ≤ Format.double.round (num * one) den * den :=
    Nat.le_mul_of_pos_right _ hpos
  have hone : 0 < one := one_pos
  rw [Nat.succ_mul, Nat.succ_mul] at hbound
  unfold Nat.dist at hnear
  omega

/-- The digits are those of the rounded number, cut at the last place. -/
theorem roundDiv_nearest {num den : Nat} (hpos : 0 < den) (hnum : num < digitsBound)
    (hden : den < one) : roundDiv (Format.double.round (num * one) den * den) one = num := by
  apply roundDiv_of_near
  rw [Nat.dist_comm]
  exact two_mul_dist_lt hpos hnum hden

/-! ### Whole numbers -/

theorem exists_of_isWhole_ofUnits {negative : Bool} {num den : Nat}
    (h : (ofUnits negative num den).isWhole = true) :
    ∃ k, Format.double.round num den = k * one := by
  rcases ofUnits_eq_or negative num den with hinf | ⟨exact, hfin⟩
  · rw [hinf] at h
    exact absurd h Bool.false_ne_true
  · rw [hfin] at h
    have hmod : Format.double.round num den % one = 0 := by simpa [isWhole] using h
    exact ⟨_, (Nat.div_mul_cancel (Nat.dvd_of_mod_eq_zero hmod)).symm⟩

/-- A whole number and another quotient are at least a unit of the last digit apart. -/
theorem one_le_dist {num den k : Nat} (h : ¬den ∣ num) :
    one ≤ Nat.dist (k * one * den) (num * one) := by
  have hne : k * den ≠ num := by
    rintro rfl
    exact h (Nat.dvd_mul_left den k)
  rw [Nat.mul_right_comm]
  unfold Nat.dist
  rcases Nat.lt_or_gt_of_ne hne with hlt | hgt
  · have hstep : (k * den + 1) * one ≤ num * one := Nat.mul_le_mul_right one hlt
    rw [Nat.succ_mul] at hstep
    omega
  · have hstep : (num + 1) * one ≤ k * den * one := Nat.mul_le_mul_right one hgt
    rw [Nat.succ_mul] at hstep
    omega

variable {num den : Nat}

theorem isWhole_nearest (h : ¬den ∣ num) (hnum : num < digitsBound) (hden : den < one)
    (hpos : 0 < den) : (nearest num den).isWhole = false := by
  by_contra hwhole
  obtain ⟨k, hk⟩ := exists_of_isWhole_ofUnits (Bool.eq_true_of_not_eq_false hwhole)
  have hnear := two_mul_dist_lt hpos hnum hden
  have hfar := one_le_dist (k := k) h
  rw [hk] at hnear
  omega

/-- A fraction is rounded to one at most, and to one only if digits are lost. -/
theorem fraction_nearest (hlt : num < den) (hnum : num < digitsBound) (hden : den < one) :
    fraction (nearest num den) = nearest num den := by
  have hpos : 0 < den := Nat.zero_lt_of_lt hlt
  have hbelow : Format.double.round (num * one) den < one := by
    have hnear := two_mul_dist_lt hpos hnum hden
    have hstep : (num + 1) * one ≤ den * one := Nat.mul_le_mul_right one hlt
    rw [Nat.succ_mul] at hstep
    by_contra hge
    have hmul : one * den ≤ Format.double.round (num * one) den * den :=
      Nat.mul_le_mul_right den (Nat.le_of_not_lt hge)
    rw [Nat.mul_comm one den] at hmul
    unfold Nat.dist at hnear
    omega
  obtain ⟨exact, hfin⟩ := exists_nearest hpos hnum hden
  rw [hfin]
  show ofUnits false (_ % one) 1 = _
  rw [Nat.mod_eq_of_lt hbelow]
  exact ofUnits_of_represents false exact

/-- A rounded sum is off by less than a unit of the last digit, for it is rounded twice. -/
theorem two_mul_dist_add_lt {a : Nat} (hpos : 0 < den) (hsum : a * den + num < digitsBound)
    (hden : den < one) :
    2 * Nat.dist (Format.double.round (a * one + Format.double.round (num * one) den) 1 * den)
      ((a * den + num) * one) < one + one := by
  have hnum : num < digitsBound := Nat.lt_of_le_of_lt (Nat.le_add_left num _) hsum
  -- the quotient is rounded first
  have hfirst := two_mul_dist_lt hpos hnum hden
  generalize Format.double.round (num * one) den = q at hfirst ⊢
  have hsmall : den * (a * one + q) < digitsBound * one := by
    have hbound : (a * den + num + 1) * one ≤ digitsBound * one := Nat.mul_le_mul_right one hsum
    rw [Nat.succ_mul, Nat.add_mul, Nat.mul_right_comm] at hbound
    rw [Nat.mul_comm den, Nat.add_mul]
    unfold Nat.dist at hfirst
    omega
  -- then the sum is
  have hsecond : 2 * Nat.dist (Format.double.round (a * one + q) 1 * den)
      ((a * one + q) * den) < one := by
    have hround := Format.double.two_mul_dist_round_le (a * one + q) Nat.one_pos
    rw [Nat.mul_one, Nat.div_one, Nat.one_mul] at hround
    rw [Nat.dist_mul_right, ← Nat.mul_assoc, Nat.mul_comm _ den]
    exact Nat.lt_of_le_of_lt (Nat.mul_le_mul_left den hround) (den_mul_step_lt hsmall hden)
  rw [Nat.add_mul, Nat.mul_right_comm] at hsecond
  rw [Nat.add_mul]
  unfold Nat.dist at hfirst hsecond ⊢
  omega

theorem isWhole_add {a : Nat} (h : ¬den ∣ num) (hsum : a * den + num < digitsBound)
    (hden : den < one) (hpos : 0 < den) : (add (ofNat a) (nearest num den)).isWhole = false := by
  have ha : a ≤ wholeBound := by
    have hle : a ≤ a * den := Nat.le_mul_of_pos_right a hpos
    have hbound : digitsBound ≤ wholeBound := by decide
    omega
  have hndvd : ¬den ∣ a * den + num := by
    intro hdvd
    exact h ((Nat.dvd_add_right (Nat.dvd_mul_left den a)).1 hdvd)
  rw [ofNat_eq ha]
  rcases ofUnits_eq_or false (num * one) den with hinf | ⟨exact, hfin⟩
  · rw [show nearest num den = .infinite false from hinf]
    rfl
  · rw [show nearest num den = _ from hfin, add_finite]
    by_contra hwhole
    obtain ⟨k, hk⟩ := exists_of_isWhole_ofUnits (Bool.eq_true_of_not_eq_false hwhole)
    have hnear := two_mul_dist_add_lt hpos hsum hden
    have hfar := one_le_dist (k := k) hndvd
    rw [hk] at hnear
    omega

end Double

end PluralForms.Binary
