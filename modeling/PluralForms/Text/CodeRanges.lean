/-!
# Sets of characters

A property of characters that no rule describes is a table: the ranges of code points that have it,
in ascending order.
-/

namespace PluralForms.Text

/-- Ranges of code points, each by its first and its last one. -/
abbrev CodeRanges : Type := List (Nat × Nat)

/-- Does a character lie in one of the ranges? -/
def CodeRanges.has (ranges : CodeRanges) (c : Char) : Bool :=
  ranges.any fun (first, last) => first ≤ c.toNat && c.toNat ≤ last

end PluralForms.Text
