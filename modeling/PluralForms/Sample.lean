import PluralForms.Event
import PluralForms.Number

/-!
# Samples

A rule lists numbers that it claims, separated by commas: numerals (`5`, `1.0`), ranges
(`0.0~1.5`), compact numerals (`1c6`) and an ellipsis for "and so on". A range runs through the
numbers with the more fraction digits of its two ends, each a step in the last digit.

* `expandSamples` - the samples of a list, in order, and what there is to tell about the tokens
  that could not be taken as they are.
-/

namespace PluralForms

open Binary

/-- A number that a rule claims. -/
inductive Sample
  /-- A value, and how many fraction digits it is written with. -/
  | number (value : Double) (places : Nat)
  /-- A compact numeral, as it is written. -/
  | compact (token : String)
  deriving DecidableEq

namespace Sample

def render : Sample → String
  | number value places => value.fixed places
  | compact token => token

/-- The operands of the sample as it is written. -/
def operands (s : Sample) : Except NumberError Operands := Operands.ofText s.render

/-- A whole number. -/
def integer (n : Nat) : Sample := number (Double.ofNat n) 0

/-- `scaled / 10 ^ places`, for fewer than `2 ^ 31` places. The power is one of double-precision
numbers with an exponent of 32 bits, and from there on the exponent would wrap around. -/
def ofScaled (scaled places : Nat) : Sample :=
  number (Double.div (Double.ofNat scaled) (Double.pow (Double.ofNat 10) places)) places

def json : Sample → Json
  | number value places =>
    .tagged "Number" (.object [("value", .real value), ("fraction_digits", .natural places)])
  | compact token => .tagged "Compact" (.string token)

end Sample

/-! ### Tokens -/

/-- The parts of a token before and behind its point; without a point, nothing is behind it. -/
def pointParts (token : List Char) : List Char × List Char :=
  (Text.cutAt '.' token).getD (token, [])

/-- How many fraction digits a token is written with. -/
def fractionWidth (token : List Char) : Nat := (pointParts token).2.length

/-- A token as a multiple of `10 ^ (-places)`. Only digits around one point are a number here, and
the multiple has to fit a word of 64 bits. -/
def scaledValue (token : List Char) (places : Nat) : Option Nat :=
  let (whole, fraction) := pointParts token
  if whole ≠ [] ∧ whole.all Char.isDigit ∧ fraction.all Char.isDigit
      ∧ fraction.length ≤ places then
    let scaled := digitsValue (whole ++ fraction) * 10 ^ (places - fraction.length)
    if scaled ≤ maxWord then some scaled else none
  else none

/-- Samples, and what there is to tell about them. -/
structure Expansion where
  samples : List Sample
  events : List Event

/-- A token that is no sample. -/
def Expansion.malformed (token : List Char) : Expansion :=
  ⟨[], [.malformedSample (String.ofList token)]⟩

/-- The samples from `first` to `last`, of which no more than `maxRangeSamples` are taken. -/
def rangeSamples (first last places : Nat) : List Sample :=
  (List.range (min (last - first + 1) maxRangeSamples)).map fun k =>
    Sample.ofScaled (first + k) places

/-- The samples of the range between two tokens; `none` if one of them is no number. -/
def expandRange (start stop : List Char) (places : Nat) : Option Expansion :=
  let places := max places (max (fractionWidth start) (fractionWidth stop))
  match scaledValue start places, scaledValue stop places with
  | some first, some last =>
    let startText := String.ofList start
    let stopText := String.ofList stop
    if last < first then some ⟨[], [.emptySampleRange startText stopText]⟩
    else if maxRangeSamples ≤ last - first then
      some ⟨rangeSamples first last places, [.truncatedSampleRange startText stopText]⟩
    else some ⟨rangeSamples first last places, []⟩
  | _, _ => none

/-- The sample of a numeral; `none` if the token is no number. -/
def expandNumeral (token : List Char) (places : Nat) : Option Expansion :=
  let places := max places (fractionWidth token)
  (scaledValue token places).map fun scaled => ⟨[Sample.ofScaled scaled places], []⟩

/-- Does the token stand for "and so on"? -/
def isEllipsis (token : List Char) : Bool := token = ['…'] || token = ['.', '.', '.']

/-- The samples of one token, each with at least `places` fraction digits. A token with an exponent
mark is kept as it is. -/
def expandToken (places : Nat) (token : List Char) : Expansion :=
  if isEllipsis token then ⟨[], []⟩
  else if token.any (fun c => c == 'c' || c == 'e') then
    ⟨[.compact (String.ofList token)], []⟩
  else
    let expanded := match Text.cutAt '~' token with
      | some (start, stop) => expandRange (Text.trim start) (Text.trim stop) places
      | none => expandNumeral token places
    expanded.getD (Expansion.malformed token)

/-! ### Lists -/

/-- The tokens of a list that are not blank. -/
def sampleTokens (cs : List Char) : List (List Char) :=
  ((Text.splitOn [','] cs).map Text.trim).filter (· ≠ [])

/-- The samples of a list, each with at least `places` fraction digits. -/
def expandSamples (text : String) (places : Nat) : Expansion :=
  let expansions := (sampleTokens text.toList).map (expandToken places)
  ⟨expansions.flatMap (·.samples), expansions.flatMap (·.events)⟩

end PluralForms
