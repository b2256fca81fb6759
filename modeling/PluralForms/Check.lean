import PluralForms.Diagnostic
import PluralForms.Table.Basic

/-!
# Checking a table

A check of some languages of a table finds two kinds of trouble: warnings about rules that are not
as they should be, and samples that are not classified as they are listed.

* `Table.check` - the findings about a list of keys;
* `Findings.isClean` - nothing was found;
* `Findings.summary`, `Findings.json`, `Findings.diagnostics` - three ways to tell of them.
-/

namespace PluralForms

/-- What a check has found. -/
structure Findings where
  /-- The keys that were checked. -/
  languages : List String
  warnings : List Warning
  /-- The mismatches, each with its language. -/
  mismatches : List (String × Mismatch)

namespace Table

/-- The mismatches of one key. -/
def mismatches (t : Table) (language : String) : List (String × Mismatch) :=
  match t.get? language with
  | none => []
  | some set => set.verify.map fun mismatch => (language, mismatch)

/-- The findings about some keys: the warnings in the order of the table, the mismatches in the
order of the keys. -/
def check (t : Table) (languages : List String) : Findings where
  languages := languages
  warnings := t.validate.filter fun warning => languages.contains warning.language
  mismatches := languages.flatMap t.mismatches

/-- The text that is declared for a category of a language. -/
def declared? (t : Table) (language : String) (category : Category) : Option String :=
  (t.get? language).bind (·.get? category)

/-- What there is to tell while the samples of some keys are tried. -/
def checkEvents (t : Table) (languages : List String) : List Event :=
  languages.flatMap fun language => ((t.get? language).map (·.verifyEvents)).getD []

end Table

namespace Findings

/-- Was nothing found? -/
def isClean (f : Findings) : Bool := f.warnings.isEmpty && f.mismatches.isEmpty

/-- The numbers of the findings. -/
def summary (f : Findings) : String :=
  "checked " ++ toString f.languages.length ++ " language(s): " ++ toString f.warnings.length
    ++ " warning(s), " ++ toString f.mismatches.length ++ " sample mismatch(es)"

def json (f : Findings) : Json :=
  .object [("languages", .natural f.languages.length),
    ("warnings", .array (f.warnings.map Warning.json)),
    ("mismatches", .array (f.mismatches.map fun (language, mismatch) =>
      .object (("language", .string language) :: mismatch.members)))]

/-- A diagnostic for each finding, with the text that the table declares. -/
def diagnostics (f : Findings) (t : Table) : List Diagnostic :=
  f.warnings.map (fun warning =>
    .ofWarning warning (warning.category?.bind (t.declared? warning.language)))
  ++ f.mismatches.map fun (language, mismatch) =>
    .ofMismatch language mismatch ((t.declared? language mismatch.expected).getD "")

end Findings

end PluralForms
