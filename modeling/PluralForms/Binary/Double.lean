import PluralForms.Binary.Rounding

/-!
# Double-precision numbers

`Double` is the set of values of the double-precision format: one value that is not a number, two
infinities, and the finite numbers, each a sign and a count of units of `2 ^ (-1074)`. Every
operation computes the exact result first and rounds it once.

* `nearest` - the number nearest to a quotient of natural numbers, infinite past the range;
* `le` and `eq` - the comparisons of the format: nothing compares with what is not a number, and
  the two zeros are equal;
* `isWhole` - finite and without a fraction.
-/

namespace PluralForms.Binary

/-- A double-precision number. -/
inductive Double
  | nan
  | infinite (negative : Bool)
  | finite (negative : Bool) (units : Nat) (exact : Format.double.Represents units)
  deriving DecidableEq

namespace Double

/-- One, in units. -/
def one : Nat := 2 ^ (1074 : Nat)

/-- The number nearest to `num / den` units, with a sign. -/
def ofUnits (negative : Bool) (num den : Nat) : Double :=
  if h : Format.double.round num den < 2 ^ Format.double.range then
    .finite negative (Format.double.round num den)
      ⟨Format.step_round_dvd (by decide) num den, h⟩
  else .infinite negative

/-- The number nearest to `num / den`. -/
def nearest (num den : Nat) : Double := ofUnits false (num * one) den

/-- The number nearest to `n`. -/
def ofNat (n : Nat) : Double := nearest n 1

def zero : Double := ofNat 0

/-- The number that a word of 64 bits stands for: a sign bit, eleven bits of exponent and
fifty-two bits of fraction. -/
def ofBits (bits : Nat) : Double :=
  let negative := (bits >>> 63) % 2 == 1
  let exponent := (bits >>> 52) % 0x800
  let fraction := bits % (1 <<< 52)
  if exponent = 0x7FF then if fraction = 0 then .infinite negative else .nan
  else ofUnits negative (Format.double.unitsOfFields exponent fraction) 1

def isNegative : Double → Bool
  | .nan => false
  | .infinite negative => negative
  | .finite negative _ _ => negative

def isFinite : Double → Bool
  | .finite .. => true
  | _ => false

/-- The number without its sign. -/
def abs : Double → Double
  | .nan => .nan
  | .infinite _ => .infinite false
  | .finite _ units exact => .finite false units exact

/-! ### Comparison -/

/-- A count of units with its sign. -/
def signed (negative : Bool) (units : Nat) : Int := if negative then -units else units

/-- Not greater, in the order of the numbers. -/
def le : Double → Double → Bool
  | .nan, _ => false
  | _, .nan => false
  | .infinite x, .infinite y => x || !y
  | .infinite x, .finite .. => x
  | .finite .., .infinite y => !y
  | .finite x u _, .finite y v _ => decide (signed x u ≤ signed y v)

/-- Equal as numbers. -/
def eq (x y : Double) : Bool := le x y && le y x

/-- Is the number finite and without a fraction? -/
def isWhole : Double → Bool
  | .finite _ units _ => units % one == 0
  | _ => false

/-! ### Arithmetic -/

/-- The part behind the point; an infinite number has none. -/
def fraction : Double → Double
  | .finite negative units _ => ofUnits negative (units % one) 1
  | _ => .nan

/-- The sum. A sum of zero is positive unless both zeros are negative. -/
def add : Double → Double → Double
  | .nan, _ => .nan
  | _, .nan => .nan
  | .infinite x, .infinite y => if x = y then .infinite x else .nan
  | .infinite x, .finite .. => .infinite x
  | .finite .., .infinite y => .infinite y
  | .finite x u _, .finite y v _ =>
    let sum := signed x u + signed y v
    ofUnits (if sum = 0 then x && y else decide (sum < 0)) sum.natAbs 1

/-- The product. -/
def mul : Double → Double → Double
  | .nan, _ => .nan
  | _, .nan => .nan
  | .infinite x, .infinite y => .infinite (x != y)
  | .infinite x, .finite y v _ => if v = 0 then .nan else .infinite (x != y)
  | .finite x u _, .infinite y => if u = 0 then .nan else .infinite (x != y)
  | .finite x u _, .finite y v _ => ofUnits (x != y) (u * v) one

/-- The quotient. -/
def div : Double → Double → Double
  | .nan, _ => .nan
  | _, .nan => .nan
  | .infinite _, .infinite _ => .nan
  | .infinite x, .finite y _ _ => .infinite (x != y)
  | .finite x _ _, .infinite y => ofUnits (x != y) 0 1
  | .finite x u _, .finite y v _ =>
    if v = 0 then if u = 0 then .nan else .infinite (x != y)
    else ofUnits (x != y) (u * one) v

/-- `acc * base ^ d`, by squaring: the lowest bit of `d` decides about the factor `base`. -/
def powBySquaring (base acc : Double) (d : Nat) : Double :=
  let acc := if d % 2 = 1 then mul acc base else acc
  if d / 2 = 0 then acc else powBySquaring (mul base base) acc (d / 2)
termination_by d
decreasing_by omega

/-- A power with a natural exponent, rounded after each multiplication. -/
def pow (base : Double) (d : Nat) : Double := powBySquaring base (ofNat 1) d

end Double

end PluralForms.Binary
