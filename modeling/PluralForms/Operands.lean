import PluralForms.Json.Value
import PluralForms.Numeral

/-!
# Plural operands

Rules do not look at a number itself but at its *operands*: the absolute value `n`, the integer
part `i`, the fraction digits with trailing zeros (`v` many, making up `f`) and without (`w` many,
making up `t`), and the compact exponent `c`. They are read off the written digits, so `1.50` keeps
its last zero and `1.5c3` is the whole number 1500.

Whole numbers past eighteen digits are *folded*: their low eighteen digits are kept and `10 ^ 18` is
added. That leaves every remainder by a power of ten as it is, and a folded number never equals
a small one.

* `Operands.ofDecimal` - the operands of a written number;
* `Operands.withFractionDigits` - the operands after trailing zeros are written;
* `Operands.reduced` - the value that a relation compares.
-/

namespace PluralForms

open Binary

/-! ### Operand symbols -/

/-- An operand, named as in rules; `e` is an older name of `c`. -/
inductive Operand
  | n
  | i
  | v
  | w
  | f
  | t
  | c
  | e
  deriving DecidableEq, Repr

namespace Operand

/-- Every operand, in the order of their definition. -/
def all : List Operand := [n, i, v, w, f, t, c, e]

def symbol : Operand → Char
  | n => 'n'
  | i => 'i'
  | v => 'v'
  | w => 'w'
  | f => 'f'
  | t => 't'
  | c => 'c'
  | e => 'e'

/-- The operand with this symbol. -/
def ofSymbol? (symbol : Char) : Option Operand := all.find? (·.symbol == symbol)

/-- The place of an operand among all. -/
def index (operand : Operand) : Nat := all.idxOf operand

/-- The symbol as a capital letter, which names the operand in data. -/
def tag (operand : Operand) : String := String.singleton operand.symbol.toUpper

theorem ofSymbol?_symbol (operand : Operand) : ofSymbol? operand.symbol = some operand := by
  cases operand <;> decide

end Operand

/-! ### Folding -/

/-- Numbers from here on are folded. -/
def foldBase : Nat := 10 ^ (18 : Nat)

/-- The number itself below `10 ^ 18`; above, its low eighteen digits and `10 ^ 18`. -/
def fold (k : Nat) : Nat := if k < foldBase then k else foldBase + k % foldBase

/-! ### Operands of a number -/

/-- The operands of one number. -/
structure Operands where
  /-- The absolute value. -/
  n : Double
  /-- The integer digits, as a number. -/
  i : Nat
  /-- How many fraction digits are visible. -/
  v : Nat
  /-- How many are left without the trailing zeros. -/
  w : Nat
  /-- The visible fraction digits, as a number. -/
  f : Nat
  /-- The fraction digits without the trailing zeros, as a number. -/
  t : Nat
  /-- The compact exponent; zero when there is none. -/
  c : Nat
  deriving DecidableEq

namespace Operands

/-- The operands of a written number with compact exponent `c`. -/
def ofDecimal (d : Decimal) (c : Nat) : Operands where
  n := Double.nearest (digitsValue (d.whole ++ d.fraction)) (10 ^ d.fraction.length)
  i := fold (digitsValue d.whole)
  v := d.fraction.length
  w := d.significant.length
  f := fold (digitsValue d.fraction)
  t := fold (digitsValue d.significant)
  c := c

/-- The operands of a numeral. An exponent moves the point; a positive one is also the compact
exponent. -/
def ofNumeral (numeral : Numeral) : Operands :=
  let exponent := numeral.exponent.getD 0
  ofDecimal (numeral.decimal.shift exponent) exponent.toNat

/-- The operands of a whole number. -/
def ofNat (k : Nat) : Operands where
  n := Double.ofNat k
  i := fold k
  v := 0
  w := 0
  f := 0
  t := 0
  c := 0

/-! ### Trailing zeros -/

/-- A folded fraction after `extra` zeros are written behind it. -/
def padFraction (fraction extra : Nat) : Nat :=
  if fraction = 0 then 0
  else if 18 ≤ extra then foldBase
  else
    let shifted := fraction % foldBase * 10 ^ extra
    if fraction < foldBase ∧ shifted < foldBase then shifted else foldBase + shifted % foldBase

/-- The operands with at least `digits` visible fraction digits: zeros are written until there are
so many. -/
def withFractionDigits (o : Operands) (digits : Nat) : Operands :=
  if digits ≤ o.v then o else { o with f := padFraction o.f (digits - o.v), v := digits }

/-! ### Values -/

/-- The operand as a whole number; of `n`, its integer part. -/
def integer (o : Operands) : Operand → Nat
  | .n => o.i
  | .i => o.i
  | .v => o.v
  | .w => o.w
  | .f => o.f
  | .t => o.t
  | .c => o.c
  | .e => o.c

/-- The value of an operand. -/
def value (o : Operands) : Operand → Double
  | .n => o.n
  | operand => Double.ofNat (o.integer operand)

/-- The part of `n` behind the point: `t / 10 ^ w` while `t` is not folded, else what `n` keeps of
it. -/
def fractionValue (o : Operands) : Double :=
  if o.w = 0 then Double.zero
  else if 18 < o.w then o.n.fraction
  else Double.div (Double.ofNat o.t) (Double.ofNat (10 ^ o.w))

/-- The value of an operand after an optional modulus. `n` keeps its fraction, the other operands
are whole numbers. There is no value modulo zero. -/
def reduced (o : Operands) (operand : Operand) : Option Nat → Option Double
  | none => some (o.value operand)
  | some 0 => none
  | some m =>
    match operand with
    | .n => some (Double.add (Double.ofNat (o.i % m)) o.fractionValue)
    | operand => some (Double.ofNat (o.integer operand % m))

theorem reduced_zero (o : Operands) (operand : Operand) : o.reduced operand (some 0) = none := by
  cases operand <;> rfl

theorem reduced_n (o : Operands) {m : Nat} (hm : 0 < m) :
    o.reduced .n (some m) = some (Double.add (Double.ofNat (o.i % m)) o.fractionValue) := by
  rw [reduced]
  exact Nat.ne_of_gt hm

theorem reduced_of_ne {operand : Operand} (h : operand ≠ .n) (o : Operands) {m : Nat}
    (hm : 0 < m) :
    o.reduced operand (some m) = some (Double.ofNat (o.integer operand % m)) := by
  rw [reduced]
  · exact Nat.ne_of_gt hm
  · exact h

theorem reduced_eq_none_iff {o : Operands} {operand : Operand} {modulus : Option Nat} :
    o.reduced operand modulus = none ↔ modulus = some 0 := by
  match modulus with
  | none => simp [reduced]
  | some 0 => simp [reduced_zero]
  | some (m + 1) =>
    by_cases h : operand = .n
    · simp [h, reduced_n o (Nat.succ_pos m)]
    · simp [reduced_of_ne h o (Nat.succ_pos m)]

/-- The value of the operand with this symbol. -/
def valueOfSymbol (o : Operands) (symbol : Char) : Option Double :=
  (Operand.ofSymbol? symbol).map o.value

def json (o : Operands) : Json :=
  .object [("n", .real o.n), ("i", .natural o.i), ("v", .natural o.v), ("w", .natural o.w),
    ("f", .natural o.f), ("t", .natural o.t), ("c", .natural o.c)]

end Operands

end PluralForms
