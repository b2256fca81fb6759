import PluralForms.Condition

/-!
# Rules

A rule is a condition followed by sections of samples, each behind an `@`:
`i = 1 and v = 0 @integer 1`. Two sections are known, `integer` and `decimal`; a later one replaces
an earlier one of the same kind, and other sections are passed over.

* `Rule.read` - the rule of a text; it never fails;
* `Rule.render` - the canonical text, which reads back.
-/

namespace PluralForms

/-- A rule: its condition, and the text of its sample sections. -/
structure Rule where
  condition : Condition
  integerSamples : Option String
  decimalSamples : Option String
  deriving DecidableEq, Repr

/-- A section of a rule. -/
inductive Section
  | integer (samples : String)
  | decimal (samples : String)
  | unknown (text : String)
  deriving DecidableEq, Repr

/-- The section with this text, which begins behind the `@`. -/
def Section.read (cs : List Char) : Section :=
  match Text.dropLead "integer".toList cs, Text.dropLead "decimal".toList cs with
  | some samples, _ => .integer (String.ofList (Text.trim samples))
  | none, some samples => .decimal (String.ofList (Text.trim samples))
  | none, none => .unknown (String.ofList cs)

namespace Rule

/-- The text before the first `@`. -/
def conditionText (cs : List Char) : List Char := cs.takeWhile (· != '@')

/-- The sections of a rule that are not blank, in order. -/
def sections (cs : List Char) : List Section :=
  (((Text.splitOn ['@'] (cs.dropWhile (· != '@'))).map Text.trim).filter (· ≠ [])).map Section.read

/-- Take a section into a rule. -/
def withSection (rule : Rule) : Section → Rule
  | .integer samples => { rule with integerSamples := some samples }
  | .decimal samples => { rule with decimalSamples := some samples }
  | .unknown _ => rule

def readChars (cs : List Char) : Rule :=
  (sections cs).foldl withSection ⟨Condition.readChars (conditionText cs), none, none⟩

/-- The rule of a text. -/
def read (text : String) : Rule := readChars text.toList

/-- The unknown sections, as events. -/
def sectionEvents (cs : List Char) : List Event :=
  (sections cs).filterMap fun
    | .unknown text => some (.unknownSection text)
    | _ => none

/-- What there is to tell about a rule's text: its unknown sections, then its clauses. -/
def events (text : String) : List Event :=
  sectionEvents text.toList ++ Condition.eventsOfChars (conditionText text.toList)

/-- The sample sections that are there, integers first. -/
def sampleTexts (rule : Rule) : List String :=
  rule.integerSamples.toList ++ rule.decimalSamples.toList

/-- The canonical text: the condition unless it is empty, then the samples. -/
def render (rule : Rule) : String :=
  let condition := match rule.condition with
    | .always => []
    | condition => [condition.render]
  " ".intercalate (condition ++ rule.integerSamples.toList.map ("@integer " ++ ·)
    ++ rule.decimalSamples.toList.map ("@decimal " ++ ·))

def json (rule : Rule) : Json :=
  .object [("predicate", rule.condition.json),
    ("integer_samples", .ofOption .string rule.integerSamples),
    ("decimal_samples", .ofOption .string rule.decimalSamples)]

end Rule

end PluralForms
