import PluralForms.RuleSet
import PluralForms.Sample
import PluralForms.Text.Grid

/-!
# Sample sheets

The rules of a language as a grid: a row for each category with its condition and the samples that
it lists, whole numbers and decimals apart. Long lists are cut.
-/

namespace PluralForms

/-- A row of the sheet. -/
structure SampleRow where
  category : Category
  /-- The canonical text of the condition. -/
  condition : String
  integers : List String
  decimals : List String
  deriving DecidableEq, Repr

namespace SampleRow

/-- The most samples that are shown of a list. -/
def maxShown : Nat := 12

/-- A list of samples as it is shown. -/
def shorten (samples : List String) : String :=
  ", ".intercalate (samples.take maxShown) ++ if maxShown < samples.length then ", …" else ""

def cells (row : SampleRow) : List String :=
  [row.category.name, row.condition, shorten row.integers, shorten row.decimals]

/-- The samples of a section, as they are written. -/
def samplesOf (text : Option String) : List String :=
  (text.map fun text => (expandSamples text 0).samples.map Sample.render).getD []

/-- The row of a rule. -/
def ofRule (category : Category) (rule : Rule) : SampleRow :=
  ⟨category, rule.condition.render, samplesOf rule.integerSamples, samplesOf rule.decimalSamples⟩

/-- The grid of some rows. -/
def grid (rows : List SampleRow) : Text.Grid :=
  ⟨["Category", "Rule", "Integers", "Decimals"], rows.map cells⟩

end SampleRow

namespace RuleSet

/-- A row for each rule, and an empty one for `other` if it has none. -/
def sampleRows (set : RuleSet) : List SampleRow :=
  set.rules.map (fun (category, text) => .ofRule category (Rule.read text))
    ++ if (set.get? .other).isNone then [⟨.other, "", [], []⟩] else []

/-- What there is to tell while the samples are listed. -/
def sampleEvents (set : RuleSet) : List Event :=
  set.rules.flatMap fun (_, text) =>
    Rule.events text
      ++ (Rule.read text).sampleTexts.flatMap fun samples => (expandSamples samples 0).events

end RuleSet

end PluralForms
