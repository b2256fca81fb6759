import PluralForms.Binary.Rounding

/-!
# The shortest decimal that reads back

A number of a binary format is written with the fewest decimal digits that still round to it, and,
among the decimals with so few digits, with the nearest. All decimals that round to the number fill
an interval around it; the search goes through ever finer decimal grids and stops at the first one
with a point in that interval. If any point of a grid lies in the interval, then one of the two
points next to the number does, so only those are tried.
-/

namespace PluralForms.Binary

/-- Which of two equally near decimals is written. -/
inductive Tie
  | greater
  | even
  deriving DecidableEq, Repr

/-- The decimal exponent of the first digit of `num / den`, a positive quotient. -/
def leadingExponent (num den : Nat) : Int :=
  if den ≤ num then ((Nat.toDigits 10 (num / den)).length : Int) - 1
  else -((Nat.toDigits 10 ((den - 1) / num)).length : Int)

/-- The decimals that round to a number, as numerators over `den`; the ends belong to them or not
together. -/
structure Neighbourhood where
  low : Nat
  value : Nat
  high : Nat
  den : Nat
  closed : Bool

/-- The numbers between the midpoints to the two neighbours, in quarters of a unit. Below a power
of two the numbers lie twice as close. A midpoint rounds to the number whose count of steps is
even. -/
def Format.neighbourhood (fmt : Format) (units : Nat) : Neighbourhood :=
  let step := fmt.step units
  let gapBelow := if units = 2 ^ units.log2 ∧ 1 < step then step else 2 * step
  ⟨4 * units - gapBelow, 4 * units, 4 * units + 2 * step, 2 ^ (fmt.scale + 2),
    units / step % 2 == 0⟩

/-- Does `point / den` belong to the neighbourhood, whose ends are `low / den` and `high / den`? -/
def within (closed : Bool) (low point high : Nat) : Bool :=
  if closed then low ≤ point && point ≤ high else low < point && point < high

/-- The multiple of `10 ^ exponent` in the neighbourhood that is nearest to its number. -/
def Neighbourhood.nearestMultiple (near : Neighbourhood) (tie : Tie) (exponent : Int) :
    Option Nat :=
  let scaleUp := 10 ^ (-exponent).toNat
  let unit := near.den * 10 ^ exponent.toNat
  let value := near.value * scaleUp
  let reads (k : Nat) := within near.closed (near.low * scaleUp) (k * unit) (near.high * scaleUp)
  let below := value / unit
  let middle := (2 * below + 1) * unit
  match reads below, reads (below + 1) with
  | false, false => none
  | true, false => some below
  | false, true => some (below + 1)
  | true, true =>
    if 2 * value < middle then some below
    else if middle < 2 * value then some (below + 1)
    else match tie with
      | .greater => some (below + 1)
      | .even => some (below + below % 2)

/-- ShortDecimal digits, the last of which counts `10 ^ exponent`. -/
structure ShortDecimal where
  digits : List Char
  exponent : Int
  deriving DecidableEq, Repr

/-- `k * 10 ^ exponent` without the zeros that `k` ends in. -/
def ShortDecimal.ofNat (k : Nat) (exponent : Int) : ShortDecimal :=
  let digits := Nat.toDigits 10 k
  let zeros := (digits.reverse.takeWhile (· == '0')).length
  ⟨digits.take (digits.length - zeros), exponent + zeros⟩

/-- The shortest decimal that rounds to `units`. Seventeen digits suffice in double precision. -/
def Format.shortest (fmt : Format) (tie : Tie) (units : Nat) : ShortDecimal :=
  if units = 0 then ⟨['0'], 0⟩
  else
    let near := fmt.neighbourhood units
    let first := leadingExponent near.value near.den
    let found := (List.range 17).findSome? fun (count : Nat) =>
      (near.nearestMultiple tie (first - count)).map fun k => (k, first - count)
    match found with
    | some (k, exponent) => ShortDecimal.ofNat k exponent
    | none => ⟨['0'], 0⟩

end PluralForms.Binary
