import PluralForms.Event

/-!
# Conditions

A condition joins clauses: groups of clauses are joined by `or`, and the clauses of a group by
`and`, which binds tighter. The empty condition always holds. A clause that cannot be read is kept
as it is and holds of no number, so a broken clause can only make its own group fail.

* `Condition.holds` - the verdict on a number;
* `Condition.read` - the condition of a text; it never fails;
* `Condition.render` - the canonical text, which reads back.
-/

namespace PluralForms

/-- A clause of a condition. -/
inductive Clause
  | relation (r : Relation)
  /-- The text of a clause that has no relation, and why it has none. -/
  | broken (text : String) (error : ClauseError)
  deriving DecidableEq, Repr

/-- Clauses that must hold together. -/
structure Group where
  clauses : List Clause
  deriving DecidableEq, Repr

/-- When a rule applies. -/
inductive Condition
  | always
  | anyOf (groups : List Group)
  deriving DecidableEq, Repr

/-- The clauses of a condition, in order. -/
def Condition.clauses : Condition → List Clause
  | .always => []
  | .anyOf groups => groups.flatMap (·.clauses)

/-! ### Meaning -/

/-- The value that the clause compares. -/
def Clause.value (o : Operands) : Clause → Option Binary.Double
  | .relation r => r.value o
  | .broken .. => none

def Clause.holds (o : Operands) : Clause → Bool
  | .relation r => r.holds o
  | .broken .. => false

def Group.holds (g : Group) (o : Operands) : Bool := g.clauses.all (·.holds o)

def Condition.holds (o : Operands) : Condition → Bool
  | .always => true
  | .anyOf groups => groups.any (·.holds o)

/-! ### Text -/

def Clause.render : Clause → String
  | .relation r => r.render
  | .broken text _ => text

def Group.render (g : Group) : String := " and ".intercalate (g.clauses.map Clause.render)

def Condition.render : Condition → String
  | .always => ""
  | .anyOf groups => " or ".intercalate (groups.map Group.render)

/-! ### Reading -/

/-- The clause with this text. -/
def Clause.read (cs : List Char) : Clause :=
  match Relation.readChars cs with
  | .ok r => .relation r
  | .error e => .broken (String.ofList (Text.trim cs)) e

/-- What there is to tell about a clause that can never hold. -/
def Clause.events (cs : List Char) : List Event :=
  let text := String.ofList (Text.trim cs)
  match Relation.readChars cs with
  | .ok r => if r.operand?.isNone then [.unknownOperand text r.symbol] else []
  | .error e => [.brokenClause text e]

namespace Condition

/-- The clauses of a condition's text, group by group; there are none in a blank text. -/
def clauseTexts (cs : List Char) : List (List (List Char)) :=
  match Text.trim cs with
  | [] => []
  | cs => (Text.splitOn " or ".toList cs).map (Text.splitOn " and ".toList)

def readChars (cs : List Char) : Condition :=
  match clauseTexts cs with
  | [] => .always
  | groups => .anyOf (groups.map fun clauses => ⟨clauses.map Clause.read⟩)

/-- The condition of a text. -/
def read (text : String) : Condition := readChars text.toList

/-- What there is to tell about the clauses of a condition's text, in order. -/
def eventsOfChars (cs : List Char) : List Event :=
  (clauseTexts cs).flatMap fun clauses => clauses.flatMap Clause.events

/-- What there is to tell about the clauses of a condition's text, in order. -/
def events (text : String) : List Event := eventsOfChars text.toList

end Condition

/-! ### JSON -/

def Clause.json : Clause → Json
  | .relation r => .tagged "Relation" r.json
  | .broken text error =>
    .tagged "Invalid" (.object [("clause", .string text), ("message", .string error.message)])

def Group.json (g : Group) : Json := .tagged "conditions" (.array (g.clauses.map Clause.json))

def Condition.json : Condition → Json
  | .always => .string "Always"
  | .anyOf groups => .tagged "AnyOf" (.array (groups.map Group.json))

end PluralForms
