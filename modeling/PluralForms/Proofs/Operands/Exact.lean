import Mathlib.Data.List.Induction
import PluralForms.Number
import PluralForms.Proofs.Binary.Whole
import PluralForms.Proofs.Digits

/-!
# Exact operands

A numeral writes down a number and how many of its fraction digits are visible. This is the number
`scaled / 10 ^ places`, and each operand is a whole number that is computed from it by division,
without regard to any width. The operands of the library are read off the digits after the point
is moved among them, and they have to fit a word:

    ofNumeral_eq_folded : Operands.ofNumeral numeral = numeral.exact.folded

for a numeral made of digits, so what they differ by from the exact ones is the folding of large
numbers and the rounding of `n`, and nothing else.
-/

namespace PluralForms

open Binary

/-! ### Exact numbers -/

/-- A fraction of so many digits without the zeros it ends in: how many digits are left, and what
they make up. -/
def stripZeros : Nat → Nat → Nat × Nat
  | 0, value => (0, value)
  | places + 1, value =>
    if value % 10 = 0 then stripZeros places (value / 10) else (places + 1, value)

/-- The number `scaled / 10 ^ places` with so many visible fraction digits, and a compact
exponent. -/
structure Exact where
  scaled : Nat
  places : Nat
  compact : Nat
  deriving DecidableEq, Repr

namespace Exact

variable (x : Exact)

def i : Nat := x.scaled / 10 ^ x.places

def v : Nat := x.places

def f : Nat := x.scaled % 10 ^ x.places

def w : Nat := (stripZeros x.places x.f).1

def t : Nat := (stripZeros x.places x.f).2

def c : Nat := x.compact

/-- The exact value of an operand, if it is a whole number. -/
def whole? : Operand → Option Nat
  | .n => if x.w = 0 then some x.i else none
  | .i => some x.i
  | .v => some x.v
  | .w => some x.w
  | .f => some x.f
  | .t => some x.t
  | .c => some x.c
  | .e => some x.c

/-- The operands of the library: `n` rounded, and what may be large folded. -/
def folded : Operands where
  n := Double.nearest x.scaled (10 ^ x.places)
  i := fold x.i
  v := x.v
  w := x.w
  f := fold x.f
  t := fold x.t
  c := x.c

end Exact

/-- What a numeral writes: its digits as one number, with the point moved by the exponent and zeros
in the places that the digits do not reach. -/
def Numeral.exact (numeral : Numeral) : Exact :=
  let digits := digitsValue (numeral.decimal.whole ++ numeral.decimal.fraction)
  let exponent := numeral.exponent.getD 0
  let places := numeral.decimal.fraction.length
  ⟨digits * 10 ^ (exponent - places).toNat, (places - exponent).toNat, exponent.toNat⟩

/-- The exact number of a text. -/
def Exact.ofText (text : String) : Option Exact :=
  (Numeral.read (Text.trim text.toList)).map Numeral.exact

/-! ### Trailing zeros -/

theorem stripZeros_le_places (places value : Nat) : (stripZeros places value).1 ≤ places := by
  induction places generalizing value with
  | zero => exact Nat.le_refl 0
  | succ places ih =>
    unfold stripZeros
    split
    · exact Nat.le_succ_of_le (ih (value / 10))
    · exact Nat.le_refl _

/-- So many digits are enough when only zeros stand behind them; `stripZeros` leaves the fewest. -/
theorem stripZeros_le_iff {places value k : Nat} (hk : k ≤ places) :
    (stripZeros places value).1 ≤ k ↔ 10 ^ (places - k) ∣ value := by
  induction places generalizing value with
  | zero =>
    obtain rfl : k = 0 := Nat.le_zero.1 hk
    exact ⟨fun _ => Nat.one_dvd value, fun _ => Nat.le_refl 0⟩
  | succ places ih =>
    rcases Nat.lt_or_eq_of_le hk with hlt | rfl
    · have hk' : k ≤ places := Nat.le_of_lt_succ hlt
      rw [Nat.succ_sub hk', Nat.pow_succ]
      unfold stripZeros
      split
      · next hzero =>
        obtain ⟨q, rfl⟩ := Nat.dvd_of_mod_eq_zero hzero
        rw [ih hk', Nat.mul_div_cancel_left q (by decide), Nat.mul_comm 10 q,
          Nat.mul_dvd_mul_iff_right (by decide)]
      · next hdigit =>
        refine ⟨fun h => absurd h (Nat.not_le_of_lt hlt), fun h => ?_⟩
        exact absurd (Nat.mod_eq_zero_of_dvd (Nat.dvd_trans (Nat.dvd_mul_left 10 _) h)) hdigit
    · rw [Nat.sub_self, Nat.pow_zero]
      exact ⟨fun _ => Nat.one_dvd value, fun _ => stripZeros_le_places _ value⟩

/-- Of a list of digits, those that are left without the zeros at its end. -/
theorem stripZeros_digits {ds : List Char} (h : IsDigits ds) :
    stripZeros ds.length (digitsValue ds) =
      ((Decimal.significant ⟨[], ds⟩).length, digitsValue (Decimal.significant ⟨[], ds⟩)) := by
  induction ds using List.reverseRec with
  | nil => rfl
  | append_singleton ds d ih =>
    obtain ⟨hds, hd⟩ := isDigits_append.1 h
    obtain ⟨hlt, hzero⟩ := digitsValue_digit (hd d List.mem_cons_self)
    have hvalue : digitsValue (ds ++ [d]) = digitsValue ds * 10 + digitsValue [d] :=
      digitsValue_append ds [d]
    rw [hvalue, List.length_append, List.length_singleton]
    unfold stripZeros
    by_cases hd0 : d = '0'
    · have hd0' : digitsValue [d] = 0 := hzero.2 hd0
      have hsignificant : Decimal.significant ⟨[], ds ++ [d]⟩ = Decimal.significant ⟨[], ds⟩ := by
        simp [Decimal.significant, hd0]
      rw [hd0', Nat.add_zero, if_pos (Nat.mul_mod_left _ 10), Nat.mul_div_cancel _ (by decide),
        ih hds, hsignificant]
    · have hsignificant : Decimal.significant ⟨[], ds ++ [d]⟩ = ds ++ [d] := by
        simp [Decimal.significant, hd0]
      have hne : digitsValue [d] ≠ 0 := fun h0 => hd0 (hzero.1 h0)
      rw [if_neg (by omega), hsignificant, hvalue, List.length_append, List.length_singleton]

/-! ### Moving the point -/

theorem digitsValue_zeros_append (k : Nat) (ds : List Char) :
    digitsValue (List.replicate k '0' ++ ds) = digitsValue ds := by
  rw [digitsValue_append, digitsValue_replicate_zero, Nat.zero_mul, Nat.zero_add]

/-- Where the point stands after it is moved, and what the digits around it make up: as many zeros
are put behind the digits as the exponent reaches past them. -/
theorem shift_spec (d : Decimal) (exponent : Int) (hwhole : IsDigits d.whole)
    (hfraction : IsDigits d.fraction) :
    IsDigits (d.shift exponent).whole ∧ IsDigits (d.shift exponent).fraction ∧
      (d.shift exponent).fraction.length = ((d.fraction.length : Int) - exponent).toNat ∧
      digitsValue ((d.shift exponent).whole ++ (d.shift exponent).fraction) =
        digitsValue (d.whole ++ d.fraction) *
          10 ^ (exponent - (d.fraction.length : Int)).toNat := by
  have hdigits : IsDigits (d.whole ++ d.fraction) := isDigits_append.2 ⟨hwhole, hfraction⟩
  have hlength : (d.whole ++ d.fraction).length = d.whole.length + d.fraction.length :=
    List.length_append
  unfold Decimal.shift
  dsimp only
  generalize d.whole ++ d.fraction = digits at hdigits hlength ⊢
  split
  · -- all digits stand behind the point
    next hpoint =>
    have hzero : (exponent - (d.fraction.length : Int)).toNat = 0 := by omega
    refine ⟨isDigits_replicate_zero 1, isDigits_append.2 ⟨isDigits_replicate_zero _, hdigits⟩,
      ?_, ?_⟩
    · rw [List.length_append, List.length_replicate, hlength]
      omega
    · rw [hzero, Nat.pow_zero, Nat.mul_one]
      exact (digitsValue_zeros_append 1 _).trans (digitsValue_zeros_append _ digits)
  · next hpoint =>
    split
    · -- all digits stand before the point
      next hreach =>
      have hplaces : ((d.fraction.length : Int) - exponent).toNat = 0 := by omega
      have hzeros : ((d.whole.length : Int) + exponent).toNat - digits.length =
          (exponent - (d.fraction.length : Int)).toNat := by omega
      refine ⟨isDigits_append.2 ⟨hdigits, isDigits_replicate_zero _⟩,
        fun _ hc => absurd hc List.not_mem_nil, hplaces.symm, ?_⟩
      rw [List.append_nil, digitsValue_append, digitsValue_replicate_zero, Nat.add_zero,
        List.length_replicate, hzeros]
    · next hreach =>
      have hzero : (exponent - (d.fraction.length : Int)).toNat = 0 := by omega
      refine ⟨fun c hc => hdigits c (List.mem_of_mem_take hc),
        fun c hc => hdigits c (List.mem_of_mem_drop hc), ?_, ?_⟩
      · rw [List.length_drop]
        omega
      · rw [List.take_append_drop, hzero, Nat.pow_zero, Nat.mul_one]

/-! ### The operands of the library -/

/-- The point cuts the digits into quotient and remainder. -/
theorem ofDecimal_eq_folded (d : Decimal) (hfraction : IsDigits d.fraction) (c : Nat) :
    Operands.ofDecimal d c =
      (Exact.mk (digitsValue (d.whole ++ d.fraction)) d.fraction.length c).folded := by
  have hlt : digitsValue d.fraction < 10 ^ d.fraction.length := digitsValue_lt hfraction
  have hscaled : digitsValue (d.whole ++ d.fraction) =
      digitsValue d.fraction + 10 ^ d.fraction.length * digitsValue d.whole := by
    rw [digitsValue_append, Nat.add_comm, Nat.mul_comm]
  have hi : (Exact.mk (digitsValue (d.whole ++ d.fraction)) d.fraction.length c).i =
      digitsValue d.whole := by
    unfold Exact.i
    dsimp only
    rw [hscaled, Nat.add_mul_div_left _ _ (Nat.pow_pos (by decide)), Nat.div_eq_of_lt hlt,
      Nat.zero_add]
  have hf : (Exact.mk (digitsValue (d.whole ++ d.fraction)) d.fraction.length c).f =
      digitsValue d.fraction := by
    unfold Exact.f
    dsimp only
    rw [hscaled, Nat.add_mul_mod_self_left, Nat.mod_eq_of_lt hlt]
  have hsignificant : d.significant = Decimal.significant ⟨[], d.fraction⟩ := rfl
  unfold Operands.ofDecimal Exact.folded Exact.w Exact.t
  rw [hi, hf, stripZeros_digits hfraction, hsignificant]
  rfl

theorem ofNumeral_eq_folded {numeral : Numeral} (hwhole : IsDigits numeral.decimal.whole)
    (hfraction : IsDigits numeral.decimal.fraction) :
    Operands.ofNumeral numeral = numeral.exact.folded := by
  obtain ⟨-, hshifted, hlength, hvalue⟩ :=
    shift_spec numeral.decimal (numeral.exponent.getD 0) hwhole hfraction
  unfold Operands.ofNumeral Numeral.exact
  dsimp only
  rw [ofDecimal_eq_folded _ hshifted, hlength, hvalue]

/-- The operands of a text are those of the exact number it writes. -/
theorem exists_exact_of_ofText {text : String} {o : Operands} (h : Operands.ofText text = .ok o) :
    ∃ x, Exact.ofText text = some x ∧ o = x.folded := by
  unfold Operands.ofText at h
  unfold Exact.ofText
  cases hread : Numeral.read (Text.trim text.toList) with
  | none =>
    rw [hread] at h
    simp at h
  | some numeral =>
    obtain ⟨hwhole, hfraction⟩ := Numeral.isDigits_of_read hread
    rw [hread] at h
    dsimp only at h
    refine ⟨numeral.exact, rfl, ?_⟩
    rw [← ofNumeral_eq_folded hwhole hfraction]
    split at h
    · simp at h
    · split at h
      · simp at h
      · exact (Except.ok.inj h).symm

namespace Exact

/-- A number without fraction digits but zeros is whole, and no larger for the zeros. -/
theorem scaled_of_w {x : Exact} (h : x.w = 0) : x.scaled = x.i * 10 ^ x.places := by
  have hpos : 0 < 10 ^ x.places := Nat.pow_pos (by decide)
  have hdvd : 10 ^ (x.places - 0) ∣ x.f := (stripZeros_le_iff (Nat.zero_le _)).1 (Nat.le_of_eq h)
  have hf : x.f = 0 := Nat.eq_zero_of_dvd_of_lt hdvd (Nat.mod_lt _ hpos)
  exact (Nat.div_mul_cancel (Nat.dvd_of_mod_eq_zero hf)).symm

/-- A whole number is rounded as itself. -/
theorem folded_n {x : Exact} (h : x.w = 0) : x.folded.n = Double.ofNat x.i := by
  unfold folded
  dsimp only
  rw [scaled_of_w h, Double.nearest_mul_right _ (Nat.pow_pos (by decide))]

end Exact

end PluralForms
