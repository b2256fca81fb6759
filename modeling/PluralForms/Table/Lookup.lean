import PluralForms.Table.Basic

/-!
# Looking up a language

A language is asked for by identifiers, the best one first. An identifier is made up of subtags,
separated by `-` or `_`; when a table has no rules for it, the last subtag is dropped and the rest
is tried.

* `fallbackChain` - every key that is tried, in order, each once;
* `Table.lookup` - the first of them that the table has.
-/

namespace PluralForms

/-- A hyphen in place of an underscore. -/
def normalizeSeparator (c : Char) : Char := if c = '_' then '-' else c

/-- The subtags of an identifier that are not empty. -/
def subtags (identifier : String) : List (List Char) :=
  (Text.splitOn ['-'] ((Text.trim identifier.toList).map normalizeSeparator)).filter (· ≠ [])

/-- Subtags with hyphens between them. -/
def joinSubtags (tags : List (List Char)) : String := String.ofList (['-'].intercalate tags)

/-- All beginnings of a list but the empty one, the longest first. -/
def beginnings {α : Type} : List α → List (List α)
  | [] => []
  | a :: as => (beginnings as).map (a :: ·) ++ [[a]]

/-- The keys that an identifier stands for. -/
def keysOf (identifier : String) : List String := (beginnings (subtags identifier)).map joinSubtags

/-- The keys that are tried for a list of identifiers. -/
def fallbackChain (identifiers : List String) : List String :=
  (identifiers.flatMap keysOf).eraseDups

/-- The first key of the chain that the table has, and its rules. -/
def Table.lookup (t : Table) (identifiers : List String) : Option (String × RuleSet) :=
  (fallbackChain identifiers).findSome? fun key => (t.get? key).map fun set => (key, set)

end PluralForms
