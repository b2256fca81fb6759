import PluralForms.Operands

/-!
# Folding

A folded number keeps its low eighteen digits, and it is known from the mark `10 ^ 18` to have been
larger. So folding forgets nothing of small numbers, makes no number zero and keeps every remainder
by a divisor of `10 ^ 18`. It also goes along with writing zeros behind a number, which may as well
be done after folding as before:

    padFraction_fold : padFraction (fold k) extra = fold (k * 10 ^ extra)
-/

namespace PluralForms

theorem fold_of_lt {k : Nat} (h : k < foldBase) : fold k = k := if_pos h

theorem fold_of_le {k : Nat} (h : foldBase ≤ k) : fold k = foldBase + k % foldBase :=
  if_neg (Nat.not_lt_of_le h)

theorem foldBase_le_fold {k : Nat} (h : foldBase ≤ k) : foldBase ≤ fold k := by
  rw [fold_of_le h]
  exact Nat.le_add_right _ _

/-- What is small was not folded. -/
theorem eq_of_fold_lt {k : Nat} (h : fold k < foldBase) : fold k = k := by
  rcases Nat.lt_or_ge k foldBase with hk | hk
  · exact fold_of_lt hk
  · exact absurd h (Nat.not_lt_of_le (foldBase_le_fold hk))

theorem fold_mod {m : Nat} (hm : m ∣ foldBase) (k : Nat) : fold k % m = k % m := by
  unfold fold
  split
  · rfl
  · obtain ⟨q, hq⟩ := hm
    rw [hq, Nat.mul_add_mod, Nat.mod_mul_right_mod]

theorem foldBase_pos : 0 < foldBase := by decide

theorem fold_lt (k : Nat) : fold k < 2 * foldBase := by
  rcases Nat.lt_or_ge k foldBase with hk | hk
  · rw [fold_of_lt hk]
    omega
  · rw [fold_of_le hk]
    have hmod : k % foldBase < foldBase := Nat.mod_lt k foldBase_pos
    omega

@[simp] theorem fold_eq_zero_iff {k : Nat} : fold k = 0 ↔ k = 0 := by
  rcases Nat.lt_or_ge k foldBase with hk | hk
  · rw [fold_of_lt hk]
  · have hfold := foldBase_le_fold hk
    have hpos := foldBase_pos
    omega

/-- Zeros that are written behind a folded number are folded with it. -/
theorem padFraction_fold (k extra : Nat) :
    Operands.padFraction (fold k) extra = fold (k * 10 ^ extra) := by
  have hpow : 0 < 10 ^ extra := Nat.pow_pos (by decide)
  have hlow : fold k % foldBase = k % foldBase := fold_mod (Nat.dvd_refl foldBase) k
  unfold Operands.padFraction
  rw [hlow]
  split
  · -- no digits to write zeros behind
    next hzero =>
    rw [fold_eq_zero_iff.1 hzero, Nat.zero_mul, fold_of_lt foldBase_pos]
  · next hnonzero =>
    have hk : 0 < k := Nat.pos_of_ne_zero fun h => hnonzero (fold_eq_zero_iff.2 h)
    split
    · -- all eighteen digits that are kept are zeros
      next hmany =>
      have hdvd : foldBase ∣ k * 10 ^ extra := Nat.dvd_mul_left_of_dvd (Nat.pow_dvd_pow 10 hmany) k
      rw [fold_of_le (Nat.le_of_dvd (Nat.mul_pos hk hpow) hdvd), Nat.mod_eq_zero_of_dvd hdvd,
        Nat.add_zero]
    · dsimp only
      rcases Nat.lt_or_ge k foldBase with hsmall | hlarge
      · rw [fold_of_lt hsmall, Nat.mod_eq_of_lt hsmall]
        simp only [hsmall, true_and]
        rfl
      · have hfold : ¬fold k < foldBase := Nat.not_lt_of_le (foldBase_le_fold hlarge)
        have hreach : foldBase ≤ k * 10 ^ extra :=
          Nat.le_trans hlarge (Nat.le_mul_of_pos_right k hpow)
        rw [fold_of_le hreach, if_neg fun h => hfold h.1, Nat.mod_mul_mod]

end PluralForms
