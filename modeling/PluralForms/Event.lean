import PluralForms.PluralType
import PluralForms.Relation.Reader

/-!
# Events

What is worth telling about while rules are read, samples expanded, tables loaded and rules
compiled. An event is data; it has a level, a message and named fields, and whoever runs the
library decides what becomes of it.
-/

namespace PluralForms

/-- How much an event matters. -/
inductive Level
  | trace
  | debug
  | warn
  deriving DecidableEq, Repr

def Level.name : Level → String
  | trace => "TRACE"
  | debug => "DEBUG"
  | warn => "WARN"

/-- The most samples that one range may have. -/
def maxRangeSamples : Nat := 10000

/-- Something that happened. -/
inductive Event
  /-- A section of a rule is neither of the two sample sections. -/
  | unknownSection (text : String)
  /-- A relation reads a symbol that names no operand. -/
  | unknownOperand (clause : String) (symbol : Char)
  /-- A clause has no relation. -/
  | brokenClause (clause : String) (error : ClauseError)
  /-- A sample is no number. -/
  | malformedSample (token : String)
  /-- A range of samples ends below its start. -/
  | emptySampleRange (first last : String)
  /-- A range of samples is too long and was cut. -/
  | truncatedSampleRange (first last : String)
  /-- Rules were compiled, so many. -/
  | compiled (rules : Nat)
  /-- The rules of a language are about to be compiled. -/
  | compiling (language : String)
  /-- A table was loaded. -/
  | loaded (origin : String) (type : PluralType) (languages : Nat)
  /-- The caches of a store were emptied. -/
  | cachesCleared
  deriving DecidableEq, Repr

namespace Event

def level : Event → Level
  | compiled _ | compiling _ => .trace
  | loaded .. | cachesCleared => .debug
  | _ => .warn

def message : Event → String
  | unknownSection _ => "ignoring unknown plural sample section"
  | unknownOperand .. => "plural condition references an unknown operand and will never match"
  | brokenClause .. => "unparseable plural condition will never match"
  | malformedSample _ => "skipping malformed plural sample"
  | emptySampleRange .. => "plural sample range is empty"
  | truncatedSampleRange .. => "truncating oversized plural sample range"
  | compiled _ => "compiled plural rules"
  | compiling _ => "compiling plural rules"
  | loaded .. => "loaded plural rule table"
  | cachesCleared => "plural rule caches cleared"

/-- The named values that go with the message. -/
def fields : Event → List (String × String)
  | unknownSection text => [("section", text)]
  | unknownOperand clause symbol => [("clause", clause), ("symbol", String.singleton symbol)]
  | brokenClause clause error => [("clause", clause), ("error", error.message)]
  | malformedSample token => [("token", token)]
  | emptySampleRange first last => [("start", first), ("end", last)]
  | truncatedSampleRange first last =>
    [("start", first), ("end", last), ("limit", toString maxRangeSamples)]
  | compiled rules => [("rules", toString rules)]
  | compiling language => [("language", language)]
  | loaded origin type languages =>
    [("origin", origin), ("rule_type", type.name), ("languages", toString languages)]
  | cachesCleared => []

end Event

end PluralForms
