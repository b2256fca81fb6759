import PluralForms.Binary.Double
import PluralForms.Binary.Shortest

/-!
# How numbers are written

Three layouts of a double-precision number:

* `Double.plain` - shortest digits, never with an exponent, a whole number without a point;
* `Double.json` - shortest digits, a point always, an exponent outside of `10 ^ (-5)` to `10 ^ 16`,
  and `null` for what is not finite;
* `Double.fixed` - a given number of decimal places, rounded from the exact value.
-/

namespace PluralForms.Binary

/-- Digits set around the point, without an exponent. -/
def ShortDecimal.positional (x : ShortDecimal) : List Char :=
  if 0 ≤ x.exponent then x.digits ++ List.replicate x.exponent.toNat '0'
  else
    let places := (-x.exponent).toNat
    if places < x.digits.length then
      x.digits.take (x.digits.length - places) ++ '.' :: x.digits.drop (x.digits.length - places)
    else '0' :: '.' :: (List.replicate (places - x.digits.length) '0' ++ x.digits)

/-- The exponent of the first digit. -/
def ShortDecimal.leading (x : ShortDecimal) : Int := x.exponent + x.digits.length - 1

/-- One digit, the others behind a point, and the exponent with its sign. -/
def ShortDecimal.scientific (x : ShortDecimal) : List Char :=
  let mantissa := match x.digits with
    | first :: second :: rest => first :: '.' :: second :: rest
    | digits => digits
  let sign := if x.leading < 0 then '-' else '+'
  mantissa ++ 'e' :: sign :: Nat.toDigits 10 x.leading.natAbs

/-- The digits of a JSON number: positional with a point while the first digit counts from
`10 ^ (-5)` to `10 ^ 15`, scientific elsewhere. -/
def ShortDecimal.jsonText (x : ShortDecimal) : List Char :=
  if -5 ≤ x.leading ∧ x.leading < 16 then
    if 0 ≤ x.exponent then x.positional ++ ['.', '0'] else x.positional
  else x.scientific

/-- A minus sign in front of what is negative. -/
def withSign (negative : Bool) (text : List Char) : List Char :=
  if negative then '-' :: text else text

namespace Double

/-- The shortest decimal in positional notation; of two equally near ones the greater. -/
def plain (x : Double) : String :=
  String.ofList <| match x with
    | .nan => "NaN".toList
    | .infinite negative => withSign negative "inf".toList
    | .finite negative units _ =>
      withSign negative (Format.double.shortest .greater units).positional

/-- The shortest decimal as a JSON number; of two equally near ones that with the even digit. -/
def json : Double → String
  | .finite negative units _ =>
    String.ofList (withSign negative (Format.double.shortest .even units).jsonText)
  | _ => "null"

/-- `places` decimal places of the exact value, a half going to the even neighbour. -/
def fixed (places : Nat) (x : Double) : String :=
  String.ofList <| match x with
    | .nan => "NaN".toList
    | .infinite negative => withSign negative "inf".toList
    | .finite negative units _ =>
      let scaled := roundDiv (units * 10 ^ places) one
      let digits := Nat.toDigits 10 scaled
      let padded := List.replicate (places + 1 - digits.length) '0' ++ digits
      let whole := padded.take (padded.length - places)
      withSign negative <|
        if places = 0 then whole else whole ++ '.' :: padded.drop (padded.length - places)

end Double

end PluralForms.Binary
