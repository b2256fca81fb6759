import PluralForms.CommandLine.Outcome
import PluralForms.Folder

/-!
# The program

Reads the file that the command line names, and writes what the command comes to: its text to the
standard output, complaints to the standard error.
-/

namespace PluralForms

/-- Why a file could not be read. -/
def ReadError.ofSystem : IO.Error → ReadError
  | .noFileOrDirectory .. => .notFound
  | .inappropriateType _ 20 _ => .notDirectory
  | .inappropriateType .. => .isDirectory
  | e => .other (toString e)

/-- The text of a file. -/
def readText (path : String) : IO (Except ReadError String) := do
  try
    return Folder.textOfBytes (← IO.FS.readBinFile path)
  catch e =>
    return .error (.ofSystem e)

/-- The file that a command line names, as all the files there are. -/
def filesFor (environment : Option String) (words : List String) : IO Files := do
  match CommandLine.read environment words with
  | .ok ⟨some path, _, _, _⟩ =>
    let text ← readText path
    return fun _ => text
  | _ => return fun _ => .error .notFound

/-- Is an event told to someone who asked for all, or did not? -/
def Event.isTold (e : Event) (verbose : Bool) : Bool :=
  match e.level with
  | .warn => true
  | .debug => verbose
  | .trace => false

/-- An event on one line. -/
def Event.line (e : Event) : String :=
  " ".intercalate ([e.level.name, e.message] ++ e.fields.map fun (name, value) =>
    name ++ "=" ++ value)

end PluralForms

open PluralForms in
def main (words : List String) : IO UInt32 := do
  let environment ← IO.getEnv "CLDR_PLURALS_RULES"
  let outcome := CommandLine.outcome environment words (← filesFor environment words)
  let verbose := match CommandLine.read environment words with
    | .ok invocation => invocation.verbose
    | .error _ => false
  for event in outcome.events do
    if event.isTold verbose then IO.eprintln event.line
  for complaint in outcome.complaints do
    IO.eprintln complaint
  IO.print outcome.output
  return UInt32.ofNat outcome.exitCode
