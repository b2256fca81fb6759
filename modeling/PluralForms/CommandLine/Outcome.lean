import PluralForms.Check
import PluralForms.Classification
import PluralForms.CommandLine.Reader
import PluralForms.Failure
import PluralForms.SampleSheet

/-!
# Outcomes

What a command line comes to: an exit code, the text that is written, and what there is to complain
about. A command that fails writes nothing.

* `Invocation.run` - carries out a command, given the files;
* `outcome` - the same for the words of a command line.
-/

namespace PluralForms.CommandLine

open Text

/-- The outcome of a command line. -/
structure Outcome where
  exitCode : Nat
  output : String
  complaints : List String
  events : List Event
  deriving DecidableEq, Repr

namespace Outcome

/-- Nothing to complain about: lines are written. -/
def ofLines (lines : List String) (events : List Event) : Outcome :=
  ⟨0, String.join (lines.map (· ++ "\n")), [], events⟩

/-- A failure writes nothing. -/
def ofFailure (f : Failure) : Outcome := ⟨f.exitCode, "", [f.report], []⟩

def ofExcept : Except Failure Outcome → Outcome
  | .ok outcome => outcome
  | .error f => ofFailure f

end Outcome

/-! ### The commands -/

/-- Classify numbers in a language: as JSON, or a line for each number and its explanation. -/
def classify (s : Store) (language : String) (fractionDigits : Option Nat) (explain json : Bool)
    (numbers : List String) : Except Failure Outcome := do
  let step ← s.requireRules language
  let results ← (step.answer.classifier.classifyAll fractionDigits explain numbers).mapError
    Failure.badNumber
  let lines := if json then [(Json.array (results.map Classification.json)).pretty]
    else results.flatMap Classification.lines
  return .ofLines lines step.events

/-- The keys that are to be checked: those of the languages given, each once, or all. -/
def keysToCheck (t : Table) (languages : List String) : Except Failure (List String) := do
  let found ← languages.mapM t.require
  return if languages = [] then t.keys else (found.map (·.1)).eraseDups

/-- Check languages: as JSON, or a line with the numbers of findings. -/
def check (t : Table) (languages : List String) (json : Bool) : Except Failure Outcome := do
  let keys ← keysToCheck t languages
  let findings := t.check keys
  let style := if findings.isClean then Style.green else Style.red
  let line := if json then findings.json.pretty else style.apply findings.summary
  let complaints := if json then [] else (findings.diagnostics t).map Diagnostic.report
  return ⟨if findings.isClean then 0 else 65, line ++ "\n", complaints, t.checkEvents keys⟩

/-- Show the rules of a language as a grid. -/
def samples (t : Table) (language : String) : Except Failure Outcome := do
  let (key, set) ← t.require language
  let title := key ++ " (" ++ t.type.name ++ ")"
  return .ofLines (title :: (SampleRow.grid set.sampleRows).lines) set.sampleEvents

/-! ### Carrying out -/

/-- Carry out a command with a store. -/
def Command.run (s : Store) : Command → Except Failure Outcome
  | .classify language fractionDigits explain json numbers =>
    CommandLine.classify s language fractionDigits explain json numbers
  | .check languages json => CommandLine.check s.table languages json
  | .samples language => CommandLine.samples s.table language

/-- Load the rules and carry out the command. -/
def Invocation.run (i : Invocation) (files : Files) : Outcome :=
  .ofExcept do
    let store ← openStore files i.rules i.type
    let outcome ← i.command.run store
    let loaded := store.table.loadEvents ((i.rules).getD "")
    return { outcome with events := loaded ++ outcome.events }

/-- The name of the program and its version. -/
def versionText : String := "cldr-plurals 0.1.0\n"

/-- How the program is used. -/
def usageText : String :=
  "Usage: cldr-plurals [--rules <path>] [--ordinal] [--color <when>] [-v] <command>\n\n"
    ++ "Commands:\n"
    ++ "  classify --lang <language> [--fraction-digits <count>] [--explain] [--json] <number>...\n"
    ++ "  check [--lang <language>]... [--json]\n"
    ++ "  samples --lang <language>\n"

/-- The outcome when no command is carried out. -/
def Stop.outcome : Stop → Outcome
  | .help => ⟨0, usageText, [], []⟩
  | .version => ⟨0, versionText, [], []⟩
  | .misuse e => ⟨2, "", ["error: " ++ e.message ++ "\n" ++ usageText], []⟩

/-- The outcome of a command line. -/
def outcome (environment : Option String) (words : List String) (files : Files) : Outcome :=
  match read environment words with
  | .error stop => stop.outcome
  | .ok invocation => invocation.run files

end PluralForms.CommandLine
