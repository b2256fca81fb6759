import PluralForms.PluralType

/-!
# Commands

What the program can be asked to do, and the words by which it is asked. There are three commands:
`classify` names the category of numbers, `check` looks for faults in rules, and `samples` shows the
rules of a language. Some options belong to the program and may stand before or behind the
command's name, the others belong to a command and stand behind it.
-/

namespace PluralForms.CommandLine

/-- A command with all that it was told. -/
inductive Command
  | classify (language : String) (fractionDigits : Option Nat) (explain json : Bool)
    (numbers : List String)
  | check (languages : List String) (json : Bool)
  | samples (language : String)
  deriving DecidableEq, Repr

/-- A command line that can be carried out. -/
structure Invocation where
  /-- The file with the rules, if one is named. -/
  rules : Option String
  type : PluralType
  verbose : Bool
  command : Command
  deriving DecidableEq, Repr

/-! ### The words of a command line -/

/-- Where a word stands: before the name of a command, or behind it. -/
inductive Scope
  | program
  | classify
  | check
  | samples
  deriving DecidableEq, Repr

/-- An option that is on or off. -/
inductive Switch
  | ordinal
  | verbose
  | explain
  | json
  deriving DecidableEq, Repr

/-- An option that takes a value. -/
inductive Setting
  | rules
  | color
  | lang
  | fractionDigits
  deriving DecidableEq, Repr

/-- What an option stands for. -/
inductive Meaning
  | switch (s : Switch)
  | setting (s : Setting)
  | help
  | version
  deriving DecidableEq, Repr

def Switch.name : Switch → String
  | ordinal => "ordinal"
  | verbose => "verbose"
  | explain => "explain"
  | json => "json"

def Setting.name : Setting → String
  | rules => "rules"
  | color => "color"
  | lang => "lang"
  | fractionDigits => "fraction-digits"

namespace Scope

/-- The scope behind the name of a command. -/
def ofName? : String → Option Scope
  | "classify" => some classify
  | "check" => some check
  | "samples" => some samples
  | _ => none

/-- The switches that may stand here. -/
def switches : Scope → List Switch
  | program => [.ordinal, .verbose]
  | classify => [.ordinal, .verbose, .explain, .json]
  | check => [.ordinal, .verbose, .json]
  | samples => [.ordinal, .verbose]

/-- The settings that may stand here. -/
def settings : Scope → List Setting
  | program => [.rules, .color]
  | classify => [.rules, .color, .lang, .fractionDigits]
  | check => [.rules, .color, .lang]
  | samples => [.rules, .color, .lang]

/-- May a setting be given more than once? -/
def repeatable (scope : Scope) (s : Setting) : Bool := scope = check && s = .lang

/-- Are words numbers here that name no option? -/
def takesNumbers (scope : Scope) : Bool := scope = classify

/-- The meaning of a long option, whose name stands behind two hyphens. -/
def long? (scope : Scope) (name : String) : Option Meaning :=
  if name = "help" then some .help
  else if name = "version" then if scope = program then some .version else none
  else
    ((scope.switches.find? (·.name == name)).map Meaning.switch).or
      ((scope.settings.find? (·.name == name)).map Meaning.setting)

/-- The meaning of a short option, a letter behind one hyphen. -/
def short? (scope : Scope) (letter : Char) : Option Meaning :=
  if letter = 'h' then some .help
  else if letter = 'v' then some (.switch .verbose)
  else if letter = 'V' ∧ scope = program then some .version
  else none

end Scope

/-! ### Misuse -/

/-- Why a command line cannot be carried out. -/
inductive UsageError
  | unexpected (word : String)
  | noValue (s : Setting)
  | badValue (s : Setting) (value : String)
  | needlessValue (name value : String)
  | repeated (name : String)
  | missing (what : String)
  deriving DecidableEq, Repr

def UsageError.message : UsageError → String
  | unexpected word => "unexpected argument '" ++ word ++ "'"
  | noValue s => "'--" ++ s.name ++ "' needs a value"
  | badValue s value => "invalid value '" ++ value ++ "' for '--" ++ s.name ++ "'"
  | needlessValue name value => "unexpected value '" ++ value ++ "' for '--" ++ name ++ "'"
  | repeated name => "'--" ++ name ++ "' cannot be used more than once"
  | missing what => what ++ " is required"

end PluralForms.CommandLine
