import PluralForms.Power
import PluralForms.Text.Blank

/-!
# Numerals

A numeral is a decimal number as it is written: digits, perhaps a point and more digits, perhaps an
exponent of ten behind `c`, `e` or `E`. A minus sign in front is accepted and means nothing, since
plural rules look at the absolute value only. How the number is written matters: `1` and `1.0` are
different numerals.

* `Numeral.read` - the numeral of a text, or nothing if the text is none;
* `Decimal.shift` - the written number with its point moved by the exponent.
-/

namespace PluralForms

/-- The greatest number of a word of 64 bits. -/
def maxWord : Nat := 2 ^ (64 : Nat) - 1

/-- The number that a list of decimal digits stands for. -/
def digitsValue (digits : List Char) : Nat := Nat.ofDigitChars 10 digits 0

/-- A written decimal number: the digits before its point and those behind. -/
structure Decimal where
  whole : List Char
  fraction : List Char
  deriving DecidableEq, Repr

namespace Decimal

/-- The number with its point moved `exponent` places to the right, or to the left if `exponent` is
negative. Zeros fill the places that the digits do not reach. -/
def shift (d : Decimal) (exponent : Int) : Decimal :=
  let digits := d.whole ++ d.fraction
  let point := (d.whole.length : Int) + exponent
  if point ≤ 0 then ⟨['0'], List.replicate point.natAbs '0' ++ digits⟩
  else
    let point := point.toNat
    if digits.length ≤ point then ⟨digits ++ List.replicate (point - digits.length) '0', []⟩
    else ⟨digits.take point, digits.drop point⟩

/-- The fraction digits without the zeros they end in. -/
def significant (d : Decimal) : List Char := (d.fraction.reverse.dropWhile (· == '0')).reverse

end Decimal

/-- A numeral: its digits, and its exponent if one is written. -/
structure Numeral where
  decimal : Decimal
  exponent : Option Int
  deriving DecidableEq, Repr

namespace Numeral

/-- The digits that `cs` begins with, and what follows them; there is at least one digit. -/
def digits1 (cs : List Char) : Option (List Char × List Char) :=
  match cs.takeWhile Char.isDigit with
  | [] => none
  | first :: others => some (first :: others, cs.dropWhile Char.isDigit)

/-- Reads an optional sign and digits up to the end. -/
def readSigned : List Char → Option Int
  | '-' :: cs => if cs ≠ [] ∧ cs.all Char.isDigit then some (-(digitsValue cs : Int)) else none
  | '+' :: cs => if cs ≠ [] ∧ cs.all Char.isDigit then some (digitsValue cs) else none
  | cs => if cs ≠ [] ∧ cs.all Char.isDigit then some (digitsValue cs) else none

/-- Is `c` one of the letters that an exponent stands behind? -/
def isExponentMark (c : Char) : Bool := c == 'c' || c == 'e' || c == 'E'

/-- Reads what follows the digits: nothing, or an exponent. -/
def readExponent (decimal : Decimal) : List Char → Option Numeral
  | [] => some ⟨decimal, none⟩
  | mark :: cs =>
    if isExponentMark mark then (readSigned cs).map fun e => ⟨decimal, some e⟩ else none

/-- Reads a numeral without its minus sign. -/
def readUnsigned (cs : List Char) : Option Numeral :=
  (digits1 cs).bind fun (whole, rest) =>
    match rest with
    | '.' :: rest => (digits1 rest).bind fun (fraction, rest) => readExponent ⟨whole, fraction⟩ rest
    | rest => readExponent ⟨whole, []⟩ rest

/-- The numeral that makes up the whole of `cs`. -/
def read (cs : List Char) : Option Numeral :=
  match cs with
  | '-' :: cs => readUnsigned cs
  | cs => readUnsigned cs

end Numeral

end PluralForms
