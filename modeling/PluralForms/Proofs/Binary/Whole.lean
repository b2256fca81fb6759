import PluralForms.Binary.Double
import PluralForms.Proofs.Binary.Rounding

/-!
# Whole numbers in double precision

Up to `2 ^ 53` every whole number is a double-precision number. Past that some are not, but they
are rounded to numbers that are no smaller than `2 ^ 53`, or to infinity. So a comparison with a
whole number below `2 ^ 53` comes out as it does for the numbers themselves, however large the
other one is:

    le_ofNat_left : n < wholeBound → le (ofNat n) (ofNat k) = decide (n ≤ k)
    le_ofNat_right : n < wholeBound → le (ofNat k) (ofNat n) = decide (k ≤ n)

* `nearest_mul_right` - a quotient that comes out even is the whole number;
* `add_zero` - adding nothing changes nothing, even to a number that has been rounded.
-/

namespace PluralForms.Binary.Double

/-- Whole numbers are exact up to here. -/
def wholeBound : Nat := 2 ^ (53 : Nat)

theorem one_pos : 0 < one := by
  unfold one
  generalize 1074 = e
  exact Nat.two_pow_pos e

theorem wholeBound_mul_one_lt : wholeBound * one < 2 ^ Format.double.range := by
  have hrange : 53 + 1074 < Format.double.range := by decide
  unfold wholeBound one
  generalize 1074 = e at hrange ⊢
  rw [← Nat.pow_add]
  exact Nat.pow_lt_pow_right (by decide) hrange

/-! ### Exact numbers -/

theorem step_dvd_mul_one {k : Nat} (h : k ≤ wholeBound) :
    Format.double.step (k * one) ∣ k * one := by
  have hk : k ≤ 2 ^ Format.double.precision := h
  unfold one
  generalize 1074 = e
  exact Format.step_dvd_mul_pow (by decide) hk

theorem represents_mul_one {k : Nat} (h : k ≤ wholeBound) :
    Format.double.Represents (k * one) :=
  ⟨step_dvd_mul_one h, Nat.lt_of_le_of_lt (Nat.mul_le_mul_right one h) wholeBound_mul_one_lt⟩

theorem ofUnits_of_lt (negative : Bool) {num den : Nat}
    (h : Format.double.round num den < 2 ^ Format.double.range) :
    ∃ exact, ofUnits negative num den =
      .finite negative (Format.double.round num den) exact :=
  ⟨⟨Format.step_round_dvd (by decide) num den, h⟩, dif_pos h⟩

/-- What is rounded is infinite, or the nearest count of units. -/
theorem ofUnits_eq_or (negative : Bool) (num den : Nat) :
    ofUnits negative num den = .infinite negative ∨
      ∃ exact, ofUnits negative num den =
        .finite negative (Format.double.round num den) exact := by
  rcases Nat.lt_or_ge (Format.double.round num den) (2 ^ Format.double.range) with hlt | hge
  · exact Or.inr (ofUnits_of_lt negative hlt)
  · exact Or.inl (dif_neg (Nat.not_lt_of_le hge))

theorem ofUnits_mul_right (negative : Bool) (num den : Nat) {c : Nat} (hc : 0 < c) :
    ofUnits negative (num * c) (den * c) = ofUnits negative num den := by
  unfold ofUnits
  simp only [Format.round_mul_right num den hc]

theorem ofUnits_of_represents (negative : Bool) {units : Nat}
    (h : Format.double.Represents units) : ofUnits negative units 1 = .finite negative units h := by
  have hround : Format.double.round units 1 = units := Format.round_of_step_dvd h.1
  have hrange : Format.double.round units 1 < 2 ^ Format.double.range := hround.symm ▸ h.2
  unfold ofUnits
  rw [dif_pos hrange]
  congr

theorem ofNat_eq {k : Nat} (h : k ≤ wholeBound) :
    ofNat k = .finite false (k * one) (represents_mul_one h) :=
  ofUnits_of_represents false (represents_mul_one h)

/-- A natural number is rounded to infinity, or to the nearest count of units. -/
theorem ofNat_cases (k : Nat) :
    ofNat k = .infinite false ∨
      ∃ exact, ofNat k = .finite false (Format.double.round (k * one) 1) exact :=
  ofUnits_eq_or false (k * one) 1

/-- Past the bound numbers may be rounded, but not back below it. -/
theorem ofNat_eq_or {k : Nat} (h : wholeBound ≤ k) :
    ofNat k = .infinite false ∨
      ∃ units exact, ofNat k = .finite false units exact ∧ wholeBound * one ≤ units := by
  rcases ofNat_cases k with hinf | ⟨exact, hfin⟩
  · exact Or.inl hinf
  · refine Or.inr ⟨_, exact, hfin, Format.le_round (by decide) ?_ ?_⟩
    · exact step_dvd_mul_one (Nat.le_refl wholeBound)
    · rw [Nat.div_one]
      exact Nat.mul_le_mul_right one h

/-! ### Comparison -/

theorem le_finite_iff {u v : Nat} {hu : Format.double.Represents u}
    {hv : Format.double.Represents v} :
    le (.finite false u hu) (.finite false v hv) = true ↔ u ≤ v := by
  unfold le signed
  simp

theorem le_ofNat_left {n k : Nat} (hn : n < wholeBound) :
    le (ofNat n) (ofNat k) = decide (n ≤ k) := by
  rw [ofNat_eq (Nat.le_of_lt hn), Bool.eq_iff_iff, decide_eq_true_iff]
  rcases Nat.lt_or_ge k wholeBound with hk | hk
  · rw [ofNat_eq (Nat.le_of_lt hk), le_finite_iff, Nat.mul_le_mul_right_iff one_pos]
  · have hle : n ≤ k := Nat.le_trans (Nat.le_of_lt hn) hk
    rcases ofNat_eq_or hk with hinf | ⟨units, exact, hfin, hunits⟩
    · rw [hinf]
      exact ⟨fun _ => hle, fun _ => rfl⟩
    · rw [hfin, le_finite_iff]
      refine ⟨fun _ => hle, fun _ => Nat.le_trans ?_ hunits⟩
      exact Nat.mul_le_mul_right one (Nat.le_of_lt hn)

theorem le_ofNat_right {n k : Nat} (hn : n < wholeBound) :
    le (ofNat k) (ofNat n) = decide (k ≤ n) := by
  rw [ofNat_eq (Nat.le_of_lt hn), Bool.eq_iff_iff, decide_eq_true_iff]
  rcases Nat.lt_or_ge k wholeBound with hk | hk
  · rw [ofNat_eq (Nat.le_of_lt hk), le_finite_iff, Nat.mul_le_mul_right_iff one_pos]
  · have hlt : ¬k ≤ n := Nat.not_le_of_lt (Nat.lt_of_lt_of_le hn hk)
    rcases ofNat_eq_or hk with hinf | ⟨units, exact, hfin, hunits⟩
    · rw [hinf]
      exact ⟨fun h => absurd h Bool.false_ne_true, fun h => absurd h hlt⟩
    · rw [hfin, le_finite_iff]
      refine ⟨fun h => ?_, fun h => absurd h hlt⟩
      have hone : n * one < wholeBound * one := Nat.mul_lt_mul_of_pos_right hn one_pos
      exact absurd (Nat.lt_of_le_of_lt (Nat.le_trans hunits h) hone) (Nat.lt_irrefl _)

theorem isWhole_ofNat {k : Nat} (h : k ≤ wholeBound) : (ofNat k).isWhole = true := by
  rw [ofNat_eq h]
  show (k * one % one == 0) = true
  rw [Nat.mul_mod_left]
  rfl

/-! ### Quotients and sums -/

theorem nearest_mul_right (k : Nat) {c : Nat} (hc : 0 < c) : nearest (k * c) c = ofNat k := by
  have hcancel := ofUnits_mul_right false (k * one) 1 hc
  rw [Nat.one_mul, Nat.mul_right_comm] at hcancel
  exact hcancel

/-- What is not negative is added as it is. -/
theorem add_finite {u v : Nat} (hu : Format.double.Represents u) (hv : Format.double.Represents v) :
    add (.finite false u hu) (.finite false v hv) = ofUnits false (u + v) 1 := by
  have hsum : signed false u + signed false v = ((u + v : Nat) : Int) := by
    simp [signed]
  have hsign : (if ((u + v : Nat) : Int) = 0 then false && false
      else decide (((u + v : Nat) : Int) < 0)) = false := by
    split
    · rfl
    · exact decide_eq_false (Int.not_lt.2 (Int.natCast_nonneg _))
  unfold add
  dsimp only
  rw [hsum, hsign, Int.natAbs_natCast]

theorem add_zero (k : Nat) : add (ofNat k) zero = ofNat k := by
  unfold zero
  rw [ofNat_eq (Nat.zero_le wholeBound)]
  rcases ofNat_cases k with hinf | ⟨exact, hfin⟩
  · rw [hinf]
    rfl
  · rw [hfin, add_finite, Nat.zero_mul, Nat.add_zero]
    exact ofUnits_of_represents false exact

end PluralForms.Binary.Double
