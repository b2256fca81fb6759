import PluralForms.Table.Basic

/-!
# Suggestions

For an identifier that a table does not know, the keys that are closest to it are suggested: at
most three, within a small number of edits, the closest first and equally close ones in the order
of the table.

* `editDistance` - the least number of characters to insert, delete or replace.
-/

namespace PluralForms

/-- The distances of one more character of the source. `left` is the distance just found, and
`diagonal` the one above it in the row before. -/
def nextDistances (c : Char) (left diagonal : Nat) : List Char → List Nat → List Nat
  | t :: target, above :: row =>
    let here := min (min (left + 1) (above + 1)) (diagonal + if c = t then 0 else 1)
    here :: nextDistances c here above target row
  | _, _ => []

/-- From the distances to the beginnings of `target`, those for a source with one more character. -/
def nextRow (target : List Char) (row : List Nat) (c : Char) : List Nat :=
  match row with
  | [] => []
  | first :: rest => (first + 1) :: nextDistances c (first + 1) first target rest

/-- How many characters have to be inserted, deleted or replaced to make `target` of `source`. -/
def editDistance (source target : List Char) : Nat :=
  ((source.foldl (nextRow target) (List.range (target.length + 1))).getLast?).getD 0

/-- The most edits that a suggestion may be away: one for an identifier of up to three bytes, two
for a longer one. -/
def maxDistance (identifier : String) : Nat := if identifier.utf8ByteSize ≤ 3 then 1 else 2

/-- The keys within reach of an identifier, with their distances. The identifier itself is none. -/
def Table.within (t : Table) (identifier : String) : List (Nat × String) :=
  t.keys.filterMap fun key =>
    let distance := editDistance identifier.toList key.toList
    if 0 < distance ∧ distance ≤ maxDistance identifier then some (distance, key) else none

/-- The closest keys, at most three. -/
def Table.suggest (t : Table) (identifier : String) : List String :=
  (((t.within identifier).mergeSort fun a b => a.1 ≤ b.1).take 3).map (·.2)

end PluralForms
