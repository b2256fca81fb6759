import PluralForms.Proofs.Operands.Floats
import PluralForms.Proofs.Operands.Fraction
import PluralForms.Proofs.Operands.Padding

/-!
# How operands hang together

A value of the type `Operands` may be anything, but not the operands of a number. They are obtained
from an integer, from a text or from a floating-point value, and by writing zeros behind a number
that has operands already. Each of these ways gives the folded operands of an exact number:

    exists_exact : Obtained o → ∃ x : Exact, o = x.folded

So what relates the operands of a number to each other is proved of exact numbers, where the
visible fraction digits `f` are `t` with zeros behind it, and then of what folding leaves of them.
-/

namespace PluralForms

open Binary

/-! ### The last digit -/

/-- The last digit that is left is no zero. -/
theorem stripZeros_last {places value : Nat} (h : 0 < (stripZeros places value).1) :
    (stripZeros places value).2 % 10 ≠ 0 := by
  induction places generalizing value with
  | zero => exact absurd h (Nat.lt_irrefl 0)
  | succ places ih =>
    unfold stripZeros at h ⊢
    split
    · next hzero =>
      rw [if_pos hzero] at h
      exact ih h
    · next hdigit => exact hdigit

namespace Exact

theorem t_mod_ten {x : Exact} (h : 0 < x.w) : x.t % 10 ≠ 0 := stripZeros_last h

theorem w_eq_zero_iff (x : Exact) : x.w = 0 ↔ x.t = 0 := by
  constructor
  · intro hw
    have hlt := x.t_lt
    rw [hw, Nat.pow_zero] at hlt
    exact Nat.lt_one_iff.1 hlt
  · intro ht
    by_contra hw
    apply t_mod_ten (Nat.pos_of_ne_zero hw)
    rw [ht, Nat.zero_mod]

theorem t_eq_zero_iff (x : Exact) : x.t = 0 ↔ x.f = 0 := by
  have hpow : 10 ^ (x.places - x.w) ≠ 0 := Nat.ne_of_gt (Nat.pow_pos (by decide))
  rw [x.f_eq, Nat.mul_eq_zero, or_iff_left hpow]

end Exact

namespace Operands

/-! ### Where operands come from -/

/-- The operands of a number: of an integer, of a text that is a numeral, of a double- or
single-precision value, or of one of these with zeros written behind it, any number of times. -/
inductive Obtained : Operands → Prop
  | ofInt (k : Int) : Obtained (ofInt k)
  | ofText {text o} : ofText text = .ok o → Obtained o
  | ofDouble {x o} : ofDouble x = .ok o → Obtained o
  | ofSingleBits {bits o} : ofSingleBits bits = .ok o → Obtained o
  | withFractionDigits {o} (digits : Nat) : Obtained o → Obtained (o.withFractionDigits digits)

theorem ofNat_eq_folded (k : Nat) : ofNat k = (Exact.mk k 0 0).folded := by
  have hi : (Exact.mk k 0 0).i = k := by
    show k / 10 ^ 0 = k
    rw [Nat.pow_zero, Nat.div_one]
  have hf : (Exact.mk k 0 0).f = 0 := by
    show k % 10 ^ 0 = 0
    rw [Nat.pow_zero, Nat.mod_one]
  unfold ofNat Exact.folded Exact.w Exact.t
  rw [hi, hf]
  rfl

theorem exists_exact_of_text {text : String} {o : Operands} (h : ofText text = .ok o) :
    ∃ x : Exact, o = x.folded := by
  obtain ⟨x, -, ho⟩ := exists_exact_of_ofText h
  exact ⟨x, ho⟩

theorem exists_exact {o : Operands} (h : Obtained o) : ∃ x : Exact, o = x.folded := by
  induction h with
  | ofInt k => exact ⟨_, ofNat_eq_folded k.natAbs⟩
  | ofText htext => exact exists_exact_of_text htext
  | ofDouble hdouble =>
    unfold ofDouble at hdouble
    split at hdouble
    · exact exists_exact_of_text hdouble
    · exact absurd hdouble (by simp)
  | ofSingleBits hsingle =>
    unfold ofSingleBits at hsingle
    dsimp only at hsingle
    split at hsingle
    · exact absurd hsingle (by simp)
    · exact exists_exact_of_text hsingle
  | withFractionDigits digits _ ih =>
    obtain ⟨x, rfl⟩ := ih
    exact ⟨_, x.withFractionDigits_folded digits⟩

/-! ### What holds of them -/

/-- How the operands of a number hang together, those included that are folded or rounded. -/
structure Coherent (o : Operands) : Prop where
  w_le_v : o.w ≤ o.v
  w_eq_zero_iff : o.w = 0 ↔ o.t = 0
  t_eq_zero_iff : o.t = 0 ↔ o.f = 0
  t_mod_ten : 0 < o.w → o.t % 10 ≠ 0
  i_lt : o.i < 2 * 10 ^ 18
  f_lt : o.f < 2 * 10 ^ 18
  t_lt : o.t < 2 * 10 ^ 18
  t_lt_ten_pow : o.w ≤ 18 → o.t < 10 ^ o.w
  /-- The visible digits are `t` and zeros, as far as `t` tells its digits. -/
  f_eq : o.t < 10 ^ 18 → o.f = fold (o.t * 10 ^ (o.v - o.w))
  n_ne_nan : o.n ≠ .nan
  n_not_negative : o.n.isNegative = false

/-- A quotient of natural numbers is rounded to a number, which has no sign. -/
theorem nearest_unsigned (num den : Nat) :
    Double.nearest num den ≠ .nan ∧ (Double.nearest num den).isNegative = false := by
  unfold Double.nearest
  rcases Double.ofUnits_eq_or false (num * Double.one) den with heq | ⟨exact, heq⟩
  all_goals
    rw [heq]
    exact ⟨nofun, rfl⟩

theorem coherent_folded (x : Exact) : x.folded.Coherent where
  w_le_v := x.w_le_places
  w_eq_zero_iff := x.w_eq_zero_iff.trans fold_eq_zero_iff.symm
  t_eq_zero_iff := fold_eq_zero_iff.trans (x.t_eq_zero_iff.trans fold_eq_zero_iff.symm)
  t_mod_ten := by
    intro hw
    show fold x.t % 10 ≠ 0
    rw [fold_mod (by decide)]
    exact Exact.t_mod_ten hw
  i_lt := fold_lt x.i
  f_lt := fold_lt x.f
  t_lt := fold_lt x.t
  t_lt_ten_pow := by
    intro hw
    have hbound : x.t < foldBase :=
      Nat.lt_of_lt_of_le x.t_lt (Nat.pow_le_pow_right (by decide) hw)
    show fold x.t < 10 ^ x.w
    rw [fold_of_lt hbound]
    exact x.t_lt
  f_eq := by
    intro ht
    show fold x.f = fold (fold x.t * 10 ^ (x.places - x.w))
    rw [eq_of_fold_lt ht, ← x.f_eq]
  n_ne_nan := by
    rw [x.n_folded]
    exact (nearest_unsigned _ _).1
  n_not_negative := by
    rw [x.n_folded]
    exact (nearest_unsigned _ _).2

/-- All operands of a number are coherent, and every finite value of either precision has
operands. -/
theorem obtained_coherent :
    (∀ o, Obtained o → o.Coherent) ∧
    (∀ x : Double, x.isFinite = true → ∃ o, Operands.ofDouble x = .ok o) ∧
    (∀ bits, (bits >>> 23) % 0x100 ≠ 0xFF → ∃ o, Operands.ofSingleBits bits = .ok o) := by
  refine ⟨fun o h => ?_, fun x => exists_ofDouble, fun bits => exists_ofSingleBits⟩
  obtain ⟨x, rfl⟩ := exists_exact h
  exact coherent_folded x

theorem obtained_coherent_padded :
    ∃ o, Operands.ofDouble (.nearest 3 2) = .ok o ∧
      ((o.withFractionDigits 2).withFractionDigits 30).Coherent := by
  obtain ⟨hcoherent, hdouble, -⟩ := obtained_coherent
  obtain ⟨o, ho⟩ := hdouble (.nearest 3 2) (by decide +kernel)
  exact ⟨o, ho, hcoherent _ (.withFractionDigits 30 (.withFractionDigits 2 (.ofDouble ho)))⟩

end Operands

end PluralForms
