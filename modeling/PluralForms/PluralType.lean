/-!
# Plural types

Rules come in two families: cardinal rules for quantities ("1 day", "5 days") and ordinal rules for
positions ("1st", "2nd"). A rule file holds each family in a section of its own.
-/

namespace PluralForms

/-- A family of plural rules. -/
inductive PluralType
  | cardinal
  | ordinal
  deriving DecidableEq, Repr

namespace PluralType

def name : PluralType → String
  | cardinal => "cardinal"
  | ordinal => "ordinal"

/-- The name of the family's section in a rule file. -/
def sectionName : PluralType → String
  | cardinal => "plurals-type-cardinal"
  | ordinal => "plurals-type-ordinal"

/-- The family with exactly this name. -/
def ofName? (text : String) : Option PluralType := [cardinal, ordinal].find? (·.name == text)

end PluralType

end PluralForms
