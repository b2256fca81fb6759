import PluralForms.Proofs.Binary.Nearest

/-!
# The order of double-precision numbers

Rounding keeps the order. It may make two numbers one, but it never moves one past the other:

    round_mono : num ≤ num' → round num den ≤ round num' den
    le_ofNat : a ≤ b → le (ofNat a) (ofNat b)

This follows from what the nearest number is and not from how it is computed: if two quotients were
rounded across each other, then each would be nearer to the result of the other one.

* `le_trans` - the comparison is transitive, also where it meets what is not a number;
* `exists_eq_ofNat` - a whole number that is not negative is a natural number, rounded.
-/

namespace PluralForms.Binary

theorem Format.round_mono {fmt : Format} (hp : 1 < fmt.precision) {num num' den : Nat}
    (hden : 0 < den) (h : num ≤ num') : fmt.round num den ≤ fmt.round num' den := by
  by_contra hcross
  have hlow := fmt.roundsTo_round hp num hden
  have hhigh := fmt.roundsTo_round hp num' hden
  have hnear := hlow.nearest _ hhigh.represented
  have hnear' := hhigh.nearest _ hlow.represented
  have hmul : fmt.round num' den * den < fmt.round num den * den :=
    Nat.mul_lt_mul_of_pos_right (Nat.lt_of_not_le hcross) hden
  -- the middle between the two is not above `num` and not below `num'`
  have hsame : num = num' := by
    unfold Nat.dist at hnear hnear'
    omega
  exact hcross (hsame ▸ Nat.le_refl _)

namespace Double

/-! ### The comparison -/

theorem le_trans {x y z : Double} (hxy : le x y = true) (hyz : le y z = true) :
    le x z = true := by
  cases x <;> cases y <;> cases z <;> grind [le]

theorem eq_iff {x y : Double} : eq x y = true ↔ le x y = true ∧ le y x = true := by
  simp [eq]

theorem le_infinite {x : Double} (h : x ≠ .nan) : le x (.infinite false) = true := by
  cases x with
  | nan => exact absurd rfl h
  | infinite negative => simp [le]
  | finite => rfl

/-! ### Natural numbers -/

theorem ofNat_ne_nan (k : Nat) : ofNat k ≠ .nan := by
  rcases ofNat_cases k with h | ⟨_, h⟩ <;> rw [h] <;> nofun

theorem le_ofNat {a b : Nat} (h : a ≤ b) : le (ofNat a) (ofNat b) = true := by
  have hround : Format.double.round (a * one) 1 ≤ Format.double.round (b * one) 1 :=
    Format.round_mono (by decide) Nat.one_pos (Nat.mul_le_mul_right one h)
  rcases ofNat_cases b with hb | ⟨exact, hb⟩
  · rw [hb]
    exact le_infinite (ofNat_ne_nan a)
  · obtain ⟨_, ha⟩ := ofUnits_of_lt false (Nat.lt_of_le_of_lt hround exact.2)
    rw [hb, show ofNat a = _ from ha, le_finite_iff]
    exact hround

/-- What is not below a natural number has no sign, unless it is the negative zero. -/
theorem units_eq_zero {n units : Nat} {exact : Format.double.Represents units}
    (h : le (ofNat n) (.finite true units exact) = true) : units = 0 := by
  rcases ofNat_cases n with hn | ⟨exact', hn⟩
  · rw [hn] at h
    exact absurd h Bool.false_ne_true
  · rw [hn] at h
    have hle : signed false _ ≤ signed true units := of_decide_eq_true h
    simp only [signed, Bool.false_eq_true, if_true, if_false] at hle
    omega

/-- A whole number that is not below a natural number is a natural number itself. -/
theorem exists_eq_ofNat {x : Double} (hwhole : x.isWhole = true) {n : Nat}
    (hle : le (ofNat n) x = true) : ∃ k, eq x (ofNat k) = true := by
  cases x with
  | nan => simp [isWhole] at hwhole
  | infinite negative => simp [isWhole] at hwhole
  | finite negative units exact =>
    have hunits : units / one * one = units :=
      Nat.div_mul_cancel (Nat.dvd_of_mod_eq_zero (by simpa [isWhole] using hwhole))
    have hnat : ofNat (units / one) = .finite false units exact := by
      show ofUnits false (units / one * one) 1 = _
      rw [hunits]
      exact ofUnits_of_represents false exact
    refine ⟨units / one, ?_⟩
    rw [hnat]
    cases negative with
    | false => simp [eq, le]
    | true =>
      obtain rfl : units = 0 := units_eq_zero hle
      simp [eq, le, signed]

end Double

end PluralForms.Binary
