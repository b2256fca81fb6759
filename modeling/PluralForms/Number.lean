import PluralForms.Operands

/-!
# Numbers given for classification

A number is given as a numeral, as an integer, or as a floating-point value, which counts as its
shortest decimal. Not every text is a numeral, and not every numeral and value has operands; the
three ways to fail are the constructors of `NumberError`.
-/

namespace PluralForms

open Binary

/-- Why a number has no operands. -/
inductive NumberError
  /-- The text is no numeral, or its exponent does not fit 64 bits. -/
  | malformed (input : String)
  /-- The value is infinite or not a number. -/
  | nonFinite (value : Double)
  /-- The exponent moves the point too far. -/
  | exponentOutOfRange (input : String) (exponent : Int)
  deriving DecidableEq

/-- Exponents may reach from minus this to this. -/
def exponentBound : Nat := 1000

def NumberError.message : NumberError → String
  | .malformed input =>
    "'" ++ input ++ "' is not a plain, compact or exponential decimal numeral"
  | .nonFinite value => "cannot take plural operands of non-finite value " ++ value.plain
  | .exponentOutOfRange input exponent =>
    "exponent " ++ toString exponent ++ " in '" ++ input ++ "' exceeds the supported range of ±"
      ++ toString exponentBound

/-- Does the integer fit a signed word of 64 bits? -/
def fitsSignedWord (z : Int) : Bool := -(2 ^ (63 : Nat)) ≤ z && z < 2 ^ (63 : Nat)

namespace Operands

/-- The operands of a numeral, blanks around it ignored. Errors show the text as it was given. -/
def ofText (input : String) : Except NumberError Operands :=
  match Numeral.read (Text.trim input.toList) with
  | none => .error (.malformed input)
  | some numeral =>
    let exponent := numeral.exponent.getD 0
    if !fitsSignedWord exponent then .error (.malformed input)
    else if exponentBound < exponent.natAbs then .error (.exponentOutOfRange input exponent)
    else .ok (ofNumeral numeral)

/-- The operands of an integer are those of its absolute value. -/
def ofInt (k : Int) : Operands := ofNat k.natAbs

/-- The operands of a double-precision value. -/
def ofDouble (x : Double) : Except NumberError Operands :=
  if x.isFinite then ofText x.abs.plain else .error (.nonFinite x)

/-- The operands of the single-precision value in a word of 32 bits. -/
def ofSingleBits (bits : Nat) : Except NumberError Operands :=
  let negative := (bits >>> 31) % 2 == 1
  let exponent := (bits >>> 23) % 0x100
  let fraction := bits % (1 <<< 23)
  if exponent = 0xFF then
    .error (.nonFinite (if fraction = 0 then .infinite negative else .nan))
  else
    let units := Format.single.unitsOfFields exponent fraction
    ofText (String.ofList (Format.single.shortest .greater units).positional)

end Operands

end PluralForms
