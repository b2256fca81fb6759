import PluralForms.Proofs.Binary.Fractions
import PluralForms.Proofs.Binary.TenPowers
import PluralForms.Proofs.Operands.Folding
import PluralForms.Proofs.Operands.Written

/-!
# The fraction of a number

A number is its integer part `i` and its fraction, the digits `t` behind the point without the
zeros at the end. The library keeps the whole of it in `n`, rounded, and computes the fraction anew
when the integer part is reduced by a modulus: by a division, or from `n` where `t` may be folded.
If the number is *short*, so that its digits survive rounding, all ways lead to the same fraction,
and what a relation compares is not whole:

    fractionValue_eq : x.folded.fractionValue = nearest x.t (10 ^ x.w)
    exists_reduced_n : x.t ≠ 0 → the value of n, with a modulus or without, has a fraction
-/

namespace PluralForms

open Binary

namespace Exact

variable {x : Exact}

/-! ### The exact fraction -/

theorem f_eq (x : Exact) : x.f = x.t * 10 ^ (x.places - x.w) := by
  have ht : x.t = x.f / 10 ^ (x.places - x.w) := stripZeros_value x.places x.f
  have hdvd : 10 ^ (x.places - x.w) ∣ x.f := x.isLeast_w.1.2
  rw [ht, Nat.div_mul_cancel hdvd]

theorem w_le_places (x : Exact) : x.w ≤ x.places := x.isLeast_w.1.1

theorem ten_pow_places (x : Exact) : 10 ^ x.places = 10 ^ x.w * 10 ^ (x.places - x.w) := by
  rw [← Nat.pow_add, Nat.add_sub_cancel' x.w_le_places]

theorem t_lt (x : Exact) : x.t < 10 ^ x.w := by
  have hf : x.f < 10 ^ x.places := Nat.mod_lt _ (Nat.pow_pos (by decide))
  rw [x.f_eq, x.ten_pow_places] at hf
  exact Nat.lt_of_mul_lt_mul_right hf

/-- A number is its integer part and its fraction without the zeros at the end. -/
theorem scaled_eq (x : Exact) :
    x.scaled = (x.i * 10 ^ x.w + x.t) * 10 ^ (x.places - x.w) := by
  have hsplit : x.i * 10 ^ x.places + x.f = x.scaled := Nat.div_add_mod' x.scaled (10 ^ x.places)
  rw [← hsplit, x.f_eq, x.ten_pow_places, Nat.add_mul, Nat.mul_assoc]

theorem not_dvd_t (ht : x.t ≠ 0) : ¬10 ^ x.w ∣ x.t :=
  Nat.not_dvd_of_pos_of_lt (Nat.pos_of_ne_zero ht) x.t_lt

/-! ### The rounded fraction -/

theorem n_eq_nearest (x : Exact) :
    x.folded.n = Double.nearest (x.i * 10 ^ x.w + x.t) (10 ^ x.w) := by
  rw [x.n_folded, x.ten_pow_places, x.scaled_eq]
  unfold Double.nearest
  rw [Nat.mul_right_comm]
  exact Double.ofUnits_mul_right false _ _ (Nat.pow_pos (by decide))

/-- The digits make up a number that survives rounding, and the last of them counts. -/
structure Short (x : Exact) : Prop where
  digits : x.i * 10 ^ x.w + x.t < Double.digitsBound
  places : x.w ≤ Double.placesBound

theorem short_of_folded (hdigits : x.folded.i * 10 ^ x.w + x.folded.t < Double.digitsBound)
    (hplaces : x.w ≤ Double.placesBound) : x.Short := by
  have hle : x.folded.i ≤ x.folded.i * 10 ^ x.w :=
    Nat.le_mul_of_pos_right _ (Nat.pow_pos (by decide))
  have hbound : Double.digitsBound < foldBase := by decide
  have hi : x.folded.i = x.i := eq_of_fold_lt (show x.folded.i < foldBase by omega)
  have ht : x.folded.t = x.t := eq_of_fold_lt (show x.folded.t < foldBase by omega)
  rw [hi, ht] at hdigits
  exact ⟨hdigits, hplaces⟩

namespace Short

theorem den_lt (h : x.Short) : 10 ^ x.w < Double.one := Double.ten_pow_lt_one h.places

theorem t_lt (h : x.Short) : x.t < Double.digitsBound :=
  Nat.lt_of_le_of_lt (Nat.le_add_left _ _) h.digits

/-- Past eighteen places there are no digits left for an integer part. -/
theorem i_eq_zero (h : x.Short) (hw : 18 < x.w) : x.i = 0 := by
  by_contra hi
  have hpow : 10 ^ 19 ≤ 10 ^ x.w := Nat.pow_le_pow_right (by decide) hw
  have hle : 10 ^ x.w ≤ x.i * 10 ^ x.w := Nat.le_mul_of_pos_left _ (Nat.pos_of_ne_zero hi)
  have hbound : Double.digitsBound < 10 ^ 19 := by decide
  have hdigits := h.digits
  omega

/-- However it is computed, the fraction is the rounded one. -/
theorem fractionValue_eq (h : x.Short) (ht : x.t ≠ 0) :
    x.folded.fractionValue = Double.nearest x.t (10 ^ x.w) := by
  have hw : x.w ≠ 0 := by
    intro hw
    have hlt := x.t_lt
    rw [hw, Nat.pow_zero] at hlt
    exact ht (Nat.lt_one_iff.1 hlt)
  have hfold : fold x.t = x.t := if_pos (Nat.lt_trans h.t_lt (by decide))
  show (if x.w = 0 then Double.zero else if 18 < x.w then x.folded.n.fraction
    else Double.div (Double.ofNat (fold x.t)) (Double.ofNat (10 ^ x.w))) = _
  rw [if_neg hw]
  split
  · -- `n` is all fraction
    next hlong =>
    rw [x.n_eq_nearest, h.i_eq_zero hlong, Nat.zero_mul, Nat.zero_add]
    exact Double.fraction_nearest x.t_lt h.t_lt h.den_lt
  · -- both numbers of the division are exact
    next hshort =>
    have hbound : Double.digitsBound ≤ Double.wholeBound := by decide
    rw [hfold]
    refine Double.div_ten_pow (Nat.le_trans (Nat.le_of_lt h.t_lt) hbound) ?_
    exact Nat.le_trans (Nat.le_of_not_lt hshort) (by decide)

/-- What a relation compares keeps the fraction. -/
theorem exists_reduced_n (h : x.Short) (ht : x.t ≠ 0) {m : Option Nat} (hm : m ≠ some 0) :
    ∃ value, x.folded.reduced .n m = some value ∧ value.isWhole = false := by
  have hpos : 0 < 10 ^ x.w := Nat.pow_pos (by decide)
  match m with
  | none =>
    refine ⟨x.folded.n, rfl, ?_⟩
    rw [x.n_eq_nearest]
    refine Double.isWhole_nearest ?_ h.digits h.den_lt hpos
    intro hdvd
    exact not_dvd_t ht ((Nat.dvd_add_right (Nat.dvd_mul_left _ _)).1 hdvd)
  | some 0 => exact absurd rfl hm
  | some (m + 1) =>
    have hi : x.i * 10 ^ x.w ≤ x.i * 10 ^ x.w + x.t := Nat.le_add_right _ _
    have hfold : fold x.i = x.i := by
      refine if_pos (Nat.lt_of_le_of_lt (Nat.le_mul_of_pos_right x.i hpos) ?_)
      exact Nat.lt_of_le_of_lt hi (Nat.lt_trans h.digits (by decide))
    refine ⟨Double.add (Double.ofNat (fold x.i % (m + 1))) x.folded.fractionValue, rfl, ?_⟩
    rw [hfold, h.fractionValue_eq ht]
    refine Double.isWhole_add (not_dvd_t ht) ?_ h.den_lt hpos
    refine Nat.lt_of_le_of_lt (Nat.add_le_add_right ?_ _) h.digits
    exact Nat.mul_le_mul_right _ (Nat.mod_le _ _)

end Short

end Exact

end PluralForms
