import PluralForms.Proofs.Operands.Folding
import PluralForms.Proofs.Operands.Written

/-!
# Zeros written behind a number

`withFractionDigits` works on operands, where large numbers are folded and `n` is rounded already.
Nothing is lost by that. The result has the operands of the exact number after the zeros are written
behind it, which changes its visible digits `v` and `f` and no other operand:

    withFractionDigits_folded :
      x.folded.withFractionDigits digits = (x.appendZeros (digits - x.places)).folded
-/

namespace PluralForms

open Binary

/-- Zeros behind a fraction are left out again. -/
theorem stripZeros_mul_ten_pow (places value zeros : Nat) :
    stripZeros (places + zeros) (value * 10 ^ zeros) = stripZeros places value := by
  induction zeros with
  | zero => rw [Nat.add_zero, Nat.pow_zero, Nat.mul_one]
  | succ zeros ih =>
    have hlast : value * 10 ^ (zeros + 1) % 10 = 0 := by
      rw [Nat.pow_succ, ← Nat.mul_assoc]
      exact Nat.mul_mod_left _ 10
    have hrest : value * 10 ^ (zeros + 1) / 10 = value * 10 ^ zeros := by
      rw [Nat.pow_succ, ← Nat.mul_assoc]
      exact Nat.mul_div_cancel _ (by decide)
    rw [← Nat.add_assoc, stripZeros, if_pos hlast, hrest]
    exact ih

namespace Exact

/-- The same number with so many more zeros behind it. -/
def appendZeros (x : Exact) (zeros : Nat) : Exact :=
  ⟨x.scaled * 10 ^ zeros, x.places + zeros, x.compact⟩

variable (x : Exact) (zeros : Nat)

@[simp] theorem appendZeros_zero : x.appendZeros 0 = x := by
  unfold appendZeros
  rw [Nat.pow_zero, Nat.mul_one, Nat.add_zero]

theorem v_appendZeros : (x.appendZeros zeros).v = x.v + zeros := rfl

theorem i_appendZeros : (x.appendZeros zeros).i = x.i := by
  show x.scaled * 10 ^ zeros / 10 ^ (x.places + zeros) = x.scaled / 10 ^ x.places
  rw [Nat.pow_add]
  exact Nat.mul_div_mul_right _ _ (Nat.pow_pos (by decide))

theorem f_appendZeros : (x.appendZeros zeros).f = x.f * 10 ^ zeros := by
  show x.scaled * 10 ^ zeros % 10 ^ (x.places + zeros) = x.scaled % 10 ^ x.places * 10 ^ zeros
  rw [Nat.pow_add, Nat.mul_mod_mul_right]

theorem w_appendZeros : (x.appendZeros zeros).w = x.w := by
  unfold w
  rw [f_appendZeros]
  exact congrArg Prod.fst (stripZeros_mul_ten_pow x.places x.f zeros)

theorem t_appendZeros : (x.appendZeros zeros).t = x.t := by
  unfold t
  rw [f_appendZeros]
  exact congrArg Prod.snd (stripZeros_mul_ten_pow x.places x.f zeros)

theorem n_appendZeros : (x.appendZeros zeros).folded.n = x.folded.n := by
  rw [n_folded, n_folded]
  show Double.nearest (x.scaled * 10 ^ zeros) (10 ^ (x.places + zeros)) = _
  unfold Double.nearest
  rw [Nat.pow_add, Nat.mul_right_comm]
  exact Double.ofUnits_mul_right false _ _ (Nat.pow_pos (by decide))

/-- Only the visible digits change. -/
theorem folded_appendZeros :
    (x.appendZeros zeros).folded =
      { x.folded with f := fold (x.f * 10 ^ zeros), v := x.v + zeros } := by
  have hn := x.n_appendZeros zeros
  unfold folded at hn ⊢
  dsimp only at hn ⊢
  rw [hn, i_appendZeros, f_appendZeros, w_appendZeros, t_appendZeros, v_appendZeros]
  rfl

theorem withFractionDigits_folded (digits : Nat) :
    x.folded.withFractionDigits digits = (x.appendZeros (digits - x.places)).folded := by
  show (if digits ≤ x.places then x.folded
    else { x.folded with
      f := Operands.padFraction (fold x.f) (digits - x.places), v := digits }) = _
  split
  · next hle => rw [Nat.sub_eq_zero_of_le hle, appendZeros_zero]
  · next hlt =>
    have hplaces : x.v + (digits - x.places) = digits :=
      Nat.add_sub_cancel' (Nat.le_of_not_le hlt)
    rw [folded_appendZeros, padFraction_fold, hplaces]

end Exact

end PluralForms
