import PluralForms.Category
import PluralForms.Rule

/-!
# Rule sets

The rules of one language: categories and the texts of their rules, in the order in which they are
tried. What is wrong with the rules is reported as warnings, which name the language.

* `RuleSet.validate` - a warning for each clause that can never hold, in order.
-/

namespace PluralForms

/-- The rules of a language, as they are declared. -/
structure RuleSet where
  rules : List (Category × String)
  deriving DecidableEq, Repr

/-- A problem of a rule table that does not keep it from being used. -/
inductive Warning
  /-- A clause cannot be read. -/
  | brokenClause (language : String) (category : Category) (clause message : String)
  /-- A relation reads a symbol that names no operand. -/
  | unknownOperand (language : String) (category : Category) (symbol : Char)
  /-- A rule label names no category. -/
  | unknownRuleKey (language key : String)
  deriving DecidableEq, Repr

namespace Warning

/-- The language that the warning is about. -/
def language : Warning → String
  | brokenClause language .. => language
  | unknownOperand language .. => language
  | unknownRuleKey language _ => language

/-- The category whose rule is at fault, if it is a rule. -/
def category? : Warning → Option Category
  | brokenClause _ category .. => some category
  | unknownOperand _ category _ => some category
  | unknownRuleKey .. => none

def message : Warning → String
  | brokenClause language category clause message =>
    language ++ "/" ++ category.name ++ ": cannot parse '" ++ clause ++ "' (" ++ message
      ++ "); it never matches"
  | unknownOperand language category symbol =>
    language ++ "/" ++ category.name ++ ": unknown operand '" ++ String.singleton symbol
      ++ "'; conditions on it never match"
  | unknownRuleKey language key => language ++ ": ignoring unknown rule key '" ++ key ++ "'"

def json : Warning → Json
  | brokenClause language category clause message =>
    .tagged "UnparseableCondition" (.object [("language", .string language),
      ("category", .string category.name), ("clause", .string clause),
      ("message", .string message)])
  | unknownOperand language category symbol =>
    .tagged "UnknownOperand" (.object [("language", .string language),
      ("category", .string category.name), ("symbol", .string (String.singleton symbol))])
  | unknownRuleKey language key =>
    .tagged "UnknownCategoryKey" (.object [("language", .string language), ("key", .string key)])

end Warning

namespace RuleSet

/-- The text of the first rule declared for a category. -/
def get? (set : RuleSet) (category : Category) : Option String :=
  (set.rules.find? (·.1 == category)).map (·.2)

def size (set : RuleSet) : Nat := set.rules.length

def isEmpty (set : RuleSet) : Bool := set.rules.isEmpty

def json (set : RuleSet) : Json :=
  .tagged "rules" (.array (set.rules.map fun (category, text) =>
    .array [.string category.name, .string text]))

/-! ### Validation -/

/-- The warning about a clause that can never hold. -/
def clauseWarning (language : String) (category : Category) : Clause → Option Warning
  | .broken text error => some (.brokenClause language category text error.message)
  | .relation r =>
    if r.operand?.isNone then some (.unknownOperand language category r.symbol) else none

/-- The warnings about the rules of a language, in the order of their clauses. -/
def validate (set : RuleSet) (language : String) : List Warning :=
  set.rules.flatMap fun (category, text) =>
    (Rule.read text).condition.clauses.filterMap (clauseWarning language category)

end RuleSet

end PluralForms
