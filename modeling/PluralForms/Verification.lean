import PluralForms.Classifier
import PluralForms.Sample

/-!
# Verification

A rule set is checked against itself: each sample that a rule lists has to be classified into the
category of that rule, `other` included. The samples that are not are the mismatches.
-/

namespace PluralForms

/-- A sample that is not classified into the category that lists it. -/
structure Mismatch where
  expected : Category
  /-- The category it belongs to; none if the sample is no number. -/
  actual : Option Category
  sample : Sample
  deriving DecidableEq

/-- A member of an object for each part of a mismatch. -/
def Mismatch.members (m : Mismatch) : List (String × Json) :=
  [("expected", .string m.expected.name),
    ("actual", .ofOption (fun c => .string c.name) m.actual), ("sample", m.sample.json)]

def Mismatch.json (m : Mismatch) : Json := .object m.members

namespace RuleSet

/-- The samples that each rule lists, whole numbers first. -/
def samplesOf (text : String) : List Expansion :=
  (Rule.read text).sampleTexts.map (expandSamples · 0)

/-- The mismatch of a sample listed for `expected`, if it is one. -/
def mismatch? (classifier : Classifier) (expected : Category) (sample : Sample) :
    Option Mismatch :=
  let actual := sample.operands.toOption.map classifier.classify
  if actual = some expected then none else some ⟨expected, actual, sample⟩

/-- The mismatches of a rule set, rule by rule. -/
def verify (set : RuleSet) : List Mismatch :=
  let classifier := set.compile
  set.rules.flatMap fun (expected, text) =>
    (samplesOf text).flatMap fun expansion =>
      expansion.samples.filterMap (mismatch? classifier expected)

/-- What there is to tell while a rule set is verified. -/
def verifyEvents (set : RuleSet) : List Event :=
  set.compileEvents
    ++ set.rules.flatMap fun (_, text) => (samplesOf text).flatMap (·.events)

end RuleSet

end PluralForms
