import PluralForms.RuleSet

/-!
# Classifying numbers

A classifier is what a rule set compiles to: its rules without those of `other`, read, in declared
order. A number belongs to the category of the first rule that holds of it, and to `other` if none
does; so a rule declared for `other` is never consulted.

* `Classifier.classify` - the category of a number;
* `Classifier.explain` - the category again, and how every rule fared on the way.
-/

namespace PluralForms

open Binary

/-- The rules that are tried, in order. -/
structure Classifier where
  rules : List (Category × Rule)
  deriving DecidableEq, Repr

namespace RuleSet

/-- The rules that are tried: all but those of `other`. -/
def consulted (set : RuleSet) : List (Category × String) :=
  set.rules.filter (·.1 ≠ .other)

/-- Read the rules that are tried. -/
def compile (set : RuleSet) : Classifier :=
  ⟨set.consulted.map fun (category, text) => (category, Rule.read text)⟩

/-- What there is to tell while the rules are compiled. -/
def compileEvents (set : RuleSet) : List Event :=
  set.consulted.flatMap (fun (_, text) => Rule.events text) ++ [.compiled set.consulted.length]

end RuleSet

namespace Classifier

/-- The categories that are told apart, `other` last. -/
def categories (c : Classifier) : List Category := c.rules.map (·.1) ++ [.other]

/-- The category of a number. -/
def classify (c : Classifier) (o : Operands) : Category :=
  ((c.rules.find? fun (_, rule) => rule.condition.holds o).map (·.1)).getD .other

end Classifier

/-! ### Explanations -/

/-- How a clause fared: its text, the value it compared and its verdict. -/
structure ClauseTrace where
  clause : String
  value : Option Double
  holds : Bool

/-- How a group of clauses fared. -/
structure GroupTrace where
  holds : Bool
  clauses : List ClauseTrace

/-- How a rule fared. -/
structure RuleTrace where
  category : Category
  condition : String
  holds : Bool
  groups : List GroupTrace

/-- Why a number belongs to its category. -/
structure Explanation where
  category : Category
  operands : Operands
  rules : List RuleTrace

def Clause.trace (o : Operands) (clause : Clause) : ClauseTrace :=
  ⟨clause.render, clause.value o, clause.holds o⟩

def Group.trace (o : Operands) (group : Group) : GroupTrace :=
  let clauses := group.clauses.map (Clause.trace o)
  ⟨clauses.all (·.holds), clauses⟩

/-- The traces of the groups; the empty condition has none. -/
def Condition.trace (o : Operands) : Condition → List GroupTrace
  | .always => []
  | .anyOf groups => groups.map (Group.trace o)

/-- The category of a number and the traces of all rules. -/
def Classifier.explain (c : Classifier) (o : Operands) : Explanation where
  category := c.classify o
  operands := o
  rules := c.rules.map fun (category, rule) =>
    ⟨category, rule.condition.render, rule.condition.holds o, rule.condition.trace o⟩

/-! ### JSON -/

def ClauseTrace.json (t : ClauseTrace) : Json :=
  .object [("clause", .string t.clause), ("value", .ofOption .real t.value),
    ("matched", .bool t.holds)]

def GroupTrace.json (t : GroupTrace) : Json :=
  .object [("matched", .bool t.holds), ("conditions", .array (t.clauses.map ClauseTrace.json))]

def RuleTrace.json (t : RuleTrace) : Json :=
  .object [("category", .string t.category.name), ("condition", .string t.condition),
    ("matched", .bool t.holds), ("groups", .array (t.groups.map GroupTrace.json))]

def Explanation.json (e : Explanation) : Json :=
  .object [("category", .string e.category.name), ("operands", e.operands.json),
    ("rules", .array (e.rules.map RuleTrace.json))]

end PluralForms
