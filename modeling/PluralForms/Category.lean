/-!
# Plural categories

The six categories that a language may distinguish. They are ordered as they are listed, from
`zero` to `other`; `other` is the category of every number that no rule claims.

* `ofName?_name`, `ofRuleKey?_ruleKey` - names and rule labels read back as the category they name.
-/

namespace PluralForms

/-- A plural category. -/
inductive Category
  | zero
  | one
  | two
  | few
  | many
  | other
  deriving DecidableEq, Repr

namespace Category

/-- Every category, in order. -/
def all : List Category := [zero, one, two, few, many, other]

def name : Category → String
  | zero => "zero"
  | one => "one"
  | two => "two"
  | few => "few"
  | many => "many"
  | other => "other"

/-- The place of a category among all. -/
def index : Category → Nat
  | zero => 0
  | one => 1
  | two => 2
  | few => 3
  | many => 4
  | other => 5

/-- Categories are ordered by their place. -/
def le (a b : Category) : Bool := a.index ≤ b.index

/-- The category with exactly this name. -/
def ofName? (text : String) : Option Category := all.find? (·.name == text)

/-- What is said of a text that names no category. -/
def unknownMessage (text : String) : String := "unknown plural category '" ++ text ++ "'"

/-- What every rule label begins with. -/
def ruleKeyStem : String := "pluralRule-count-"

/-- The label of the category's rule in a rule file. -/
def ruleKey (category : Category) : String := ruleKeyStem ++ category.name

/-- The category that a rule label is for. -/
def ofRuleKey? (key : String) : Option Category := all.find? (·.ruleKey == key)

theorem ofName?_name (category : Category) : ofName? category.name = some category := by
  cases category <;> decide

theorem mem_all (category : Category) : category ∈ all := by
  cases category <;> decide

end Category

end PluralForms
