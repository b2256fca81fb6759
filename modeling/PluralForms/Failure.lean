import PluralForms.Number
import PluralForms.Store
import PluralForms.Table.Suggestion

/-!
# Failures

What keeps a command from its work: no rule file is named, the file cannot be loaded, the language
has no rules, or a number is none. Each failure has an exit code; the codes are those that programs
agree on for wrong usage (64), wrong data (65) and missing input (66).

* `openStore`, `Table.require`, `Store.requireRules` - the steps that commands have in common.
-/

namespace PluralForms

/-- Why a command cannot do its work. -/
inductive Failure
  | noRules
  | notLoaded (error : LoadError)
  /-- A language without rules, and the keys that may have been meant. -/
  | unknownLanguage (language : String) (type : PluralType) (suggestions : List String)
  | badNumber (error : NumberError)
  deriving DecidableEq

namespace Failure

/-- How the failure is classed; numbers are not. -/
def code? : Failure → Option String
  | noRules => some "cldr_plurals::no_rules"
  | notLoaded _ => some "cldr_plurals::load"
  | unknownLanguage .. => some "cldr_plurals::unknown_language"
  | badNumber _ => none

def message : Failure → String
  | noRules => "no plural rule file given"
  | notLoaded error => error.message
  | unknownLanguage language type _ =>
    "no " ++ type.name ++ " plural rules for '" ++ language ++ "'"
  | badNumber error => error.message

/-- What can be done about it. -/
def help? : Failure → Option String
  | noRules => some "pass --rules <path> or set CLDR_PLURALS_RULES"
  | unknownLanguage _ _ (first :: others) =>
    some ("did you mean: " ++ ", ".intercalate (first :: others) ++ "?")
  | _ => none

def exitCode : Failure → Nat
  | noRules => 64
  | notLoaded (.unreadable ..) => 66
  | notLoaded _ => 65
  | unknownLanguage .. => 65
  | badNumber _ => 65

/-- The failure as lines of text. -/
def report (f : Failure) : String :=
  (f.code?).getD "error" ++ ": " ++ f.message ++ ((f.help?).map ("\n  help: " ++ ·)).getD ""

end Failure

/-! ### Steps that commands have in common -/

/-- The store of the named file. -/
def openStore (files : Files) (path : Option String) (type : PluralType) :
    Except Failure Store :=
  match path with
  | none => .error .noRules
  | some path => (Store.load files path type).mapError .notLoaded

/-- The failure to find rules for a language. -/
def Table.unknown (t : Table) (language : String) : Failure :=
  .unknownLanguage language t.type (t.suggest language)

/-- The key that a language stands for, and its rules. -/
def Table.require (t : Table) (language : String) : Except Failure (String × RuleSet) :=
  match t.lookup [language] with
  | some found => .ok found
  | none => .error (t.unknown language)

/-- The compiled rules of a language. -/
def Store.requireRules (s : Store) (language : String) : Except Failure (Step Store Compiled) :=
  let step := s.rulesFor [language]
  match step.answer with
  | some compiled => .ok ⟨compiled, step.state, step.events⟩
  | none => .error (s.table.unknown language)

end PluralForms
