import PluralForms.Binary.Layout
import PluralForms.Proofs.Numeral.Plain

/-!
# Decimal fractions, written out

A decimal fraction with a given number of places has one text in which the point has that many
digits behind it and no zero stands in front without need. Setting the point between the digits of
the multiple of the last place gives this text, after zeros are put in front of too few digits:

    fixed_eq : (finite false units _).fixed places =
      String.ofList (decimalText (roundDiv (units * 10 ^ places) one) places)

It is a plain numeral, so it is known what its operands are.
-/

namespace PluralForms

open Binary

namespace Numeral

/-- The last `places` digits of a number, zeros in front if it has fewer. -/
def lastDigits : Nat → Nat → List Char
  | 0, _ => []
  | places + 1, n => lastDigits places (n / 10) ++ [Nat.digitChar (n % 10)]

/-- The text of `n / 10 ^ places` with exactly so many digits behind the point; without any there is
no point. -/
def decimalText (n places : Nat) : List Char :=
  Nat.toDigits 10 (n / 10 ^ places) ++
    if places = 0 then [] else '.' :: lastDigits places n

variable (places n : Nat)

theorem length_lastDigits : (lastDigits places n).length = places := by
  induction places generalizing n with
  | zero => rfl
  | succ places ih =>
    rw [lastDigits, List.length_append, ih, List.length_singleton]

theorem isDigits_lastDigits : IsDigits (lastDigits places n) := by
  induction places generalizing n with
  | zero => exact isDigits_nil
  | succ places ih =>
    refine isDigits_append.2 ⟨ih (n / 10), ?_⟩
    intro c hc
    have hlast : n % 10 < 10 := Nat.mod_lt n (by decide)
    rw [List.mem_singleton.1 hc, Nat.isDigit_digitChar, decide_eq_true hlast]

/-- A number with zeros in front is its digits before the point and those behind it. -/
theorem zeros_append_toDigits :
    List.replicate (places + 1 - (Nat.toDigits 10 n).length) '0' ++ Nat.toDigits 10 n =
      Nat.toDigits 10 (n / 10 ^ places) ++ lastDigits places n := by
  induction places generalizing n with
  | zero =>
    have hpos : 0 < (Nat.toDigits 10 n).length := Nat.length_toDigits_pos
    rw [Nat.sub_eq_zero_of_le hpos, Nat.pow_zero, Nat.div_one, lastDigits, List.append_nil]
    rfl
  | succ places ih =>
    have hdiv : n / 10 ^ (places + 1) = n / 10 / 10 ^ places := by
      rw [Nat.pow_succ', Nat.div_div_eq_div_mul]
    rw [hdiv, lastDigits, ← List.append_assoc, ← ih]
    -- the last digit is taken off; it may be the only one
    by_cases hn : n < 10
    · rw [Nat.toDigits_of_lt_base hn, Nat.div_eq_of_lt hn, Nat.mod_eq_of_lt hn,
        Nat.toDigits_zero]
      show List.replicate (places + 1) '0' ++ [n.digitChar] =
        List.replicate places '0' ++ ['0'] ++ [n.digitChar]
      rw [List.replicate_succ']
    · rw [Nat.toDigits_of_base_le (by decide) (Nat.le_of_not_lt hn), List.length_append,
        List.length_singleton, Nat.add_sub_add_right, List.append_assoc]

/-- The text of a decimal fraction is a plain numeral that writes it. -/
theorem writesPlain_decimalText : WritesPlain (decimalText n places) n places := by
  have hvalue : digitsValue (Nat.toDigits 10 (n / 10 ^ places) ++ lastDigits places n) = n := by
    rw [← zeros_append_toDigits, digitsValue_zeros_append, digitsValue_toDigits]
  have hfraction : WritesFraction (if places = 0 then [] else '.' :: lastDigits places n)
      (lastDigits places n) := by
    cases places with
    | zero => exact .none
    | succ places =>
      refine .some ?_ (isDigits_lastDigits _ n)
      simp [lastDigits]
  have hplain := WritesPlain.mk Nat.toDigits_ne_nil (isDigits_toDigits (n / 10 ^ places)) hfraction
  rwa [hvalue, length_lastDigits] at hplain

end Numeral

/-! ### Fixed places -/

/-- A number is written as the nearest multiple of the last place. -/
theorem Binary.Double.fixed_eq (places : Nat) {units : Nat}
    (exact : Format.double.Represents units) :
    (Double.finite false units exact).fixed places =
      String.ofList (Numeral.decimalText (roundDiv (units * 10 ^ places) Double.one) places) := by
  unfold Double.fixed withSign Numeral.decimalText
  dsimp only
  rw [if_neg Bool.false_ne_true, Numeral.zeros_append_toDigits, List.length_append,
    Numeral.length_lastDigits, Nat.add_sub_cancel, List.take_left, List.drop_left]
  by_cases hplaces : places = 0
  · rw [if_pos hplaces, if_pos hplaces, List.append_nil]
  · rw [if_neg hplaces, if_neg hplaces]

end PluralForms
