import PluralForms.CommandLine.Basic
import PluralForms.Numeral
import PluralForms.Text.Split

/-!
# Reading a command line

The words of a command line are read from left to right; the first fault, or the first request for
help or for the version, ends the reading. A word with a hyphen in front names an option, except

* behind `--`;
* in `classify`, where a word that names no option is a number, or the value of a setting that waits
  for one, and where every word behind the first number is a number.

The program's own options may be given both before and behind the command's name; of two values the
one behind counts.

* `read` - what a command line asks for.
-/

namespace PluralForms.CommandLine

/-- What was given on one side of the command's name. -/
structure Given where
  switches : List Switch
  values : List (Setting × String)
  numbers : List String
  deriving DecidableEq, Repr

/-- What the next word may be. -/
inductive Mode
  /-- An option, the name of a command, or a number. -/
  | free
  /-- The value of a setting. -/
  | value (s : Setting)
  /-- No option. -/
  | plain
  /-- A topic of help, of which one may be named. -/
  | topic (named : Bool)
  deriving DecidableEq, Repr

/-- What has been read. -/
structure Reading where
  scope : Scope
  /-- Given before the command's name. -/
  outer : Given
  /-- Given in the present scope. -/
  given : Given
  mode : Mode
  deriving DecidableEq, Repr

/-- Why reading ends before the command is known. -/
inductive Stop
  | help
  | version
  | misuse (e : UsageError)
  deriving DecidableEq, Repr

/-! ### Values -/

/-- A number of digits, as a value: digits with an optional plus sign that fit a word of 64
bits. -/
def readCount (cs : List Char) : Option Nat :=
  let digits := (Text.dropLead ['+'] cs).getD cs
  if digits ≠ [] ∧ digits.all Char.isDigit ∧ digitsValue digits ≤ maxWord then
    some (digitsValue digits)
  else none

/-- May a setting have this value? -/
def Setting.admits (value : String) : Setting → Bool
  | rules => value ≠ ""
  | color => ["auto", "always", "never"].contains value
  | lang => true
  | fractionDigits => (readCount value.toList).isSome

namespace Given

def empty : Given := ⟨[], [], []⟩

/-- The values of a setting, in order. -/
def valuesOf (g : Given) (s : Setting) : List String :=
  (g.values.filter (·.1 == s)).map (·.2)

/-- The first value of a setting. -/
def value? (g : Given) (s : Setting) : Option String := (g.valuesOf s).head?

end Given

/-! ### One word -/

namespace Reading

/-- Nothing has been read. -/
def start : Reading := ⟨.program, .empty, .empty, .free⟩

def fail {α : Type} (e : UsageError) : Except Stop α := .error (.misuse e)

/-- Turn a switch on, once. -/
def turnOn (r : Reading) (s : Switch) : Except Stop Reading :=
  if r.given.switches.contains s then fail (.repeated s.name)
  else .ok { r with given := { r.given with switches := s :: r.given.switches } }

/-- Give a setting its value. -/
def give (r : Reading) (s : Setting) (value : String) : Except Stop Reading :=
  if !r.scope.repeatable s && (r.given.value? s).isSome then fail (.repeated s.name)
  else if !s.admits value then fail (.badValue s value)
  else .ok { r with
    given := { r.given with values := r.given.values ++ [(s, value)] }, mode := .free }

/-- Take a number; all words behind it are numbers too. -/
def takeNumber (r : Reading) (word : String) : Except Stop Reading :=
  .ok { r with given := { r.given with numbers := r.given.numbers ++ [word] }, mode := .plain }

/-- A word that names no option. -/
def takePlain (r : Reading) (word : String) : Except Stop Reading :=
  if r.scope.takesNumbers then r.takeNumber word else fail (.unexpected word)

/-- A long option with the value behind its equals sign. -/
def takeLong (r : Reading) (word name : String) (value : Option String) : Except Stop Reading :=
  match r.scope.long? name, value with
  | none, _ => r.takePlain word
  | some (.setting s), some value => r.give s value
  | some (.setting s), none => .ok { r with mode := .value s }
  | some _, some value => fail (.needlessValue name value)
  | some (.switch s), none => r.turnOn s
  | some .help, none => .error .help
  | some .version, none => .error .version

/-- Short options, one after the other. -/
def takeLetters (r : Reading) (word : String) : List Char → Except Stop Reading
  | [] => .ok r
  | letter :: letters =>
    match r.scope.short? letter with
    | some (.switch s) => (r.turnOn s).bind fun r => r.takeLetters word letters
    | some .help => .error .help
    | some .version => .error .version
    | _ => fail (.unexpected word)

/-- The name and the value of a long option, which stand behind its hyphens. -/
def nameAndValue (cs : List Char) : String × Option String :=
  match Text.cutAt '=' cs with
  | some (name, value) => (String.ofList name, some (String.ofList value))
  | none => (String.ofList cs, none)

/-- Does a word with this text name an option here? A cluster of letters does if it has no unknown
letter. -/
def namesOption (scope : Scope) : List Char → Bool
  | '-' :: '-' :: cs => (scope.long? (nameAndValue cs).1).isSome
  | '-' :: letters => letters ≠ [] && letters.all fun letter => (scope.short? letter).isSome
  | _ => false

/-- A word where options may stand. -/
def takeFree (r : Reading) (word : String) : Except Stop Reading :=
  match word.toList with
  | ['-', '-'] => .ok { r with mode := .plain }
  | '-' :: '-' :: cs => r.takeLong word (nameAndValue cs).1 (nameAndValue cs).2
  | '-' :: letter :: letters =>
    if r.scope.takesNumbers && !namesOption r.scope word.toList then r.takeNumber word
    else r.takeLetters word (letter :: letters)
  | _ =>
    if r.scope = .program then
      match Scope.ofName? word with
      | some scope => .ok ⟨scope, r.given, .empty, .free⟩
      | none => if word = "help" then .ok { r with mode := .topic false }
        else fail (.unexpected word)
    else r.takePlain word

/-- A word where a setting waits for its value. -/
def takeValue (r : Reading) (s : Setting) (word : String) : Except Stop Reading :=
  match word.toList with
  | '-' :: _ :: _ =>
    if word = "--" || namesOption r.scope word.toList then fail (.noValue s)
    else if r.scope.takesNumbers then r.give s word
    else fail (.unexpected word)
  | _ => r.give s word

/-- A topic of help: a command, or help itself. -/
def takeTopic (r : Reading) (named : Bool) (word : String) : Except Stop Reading :=
  if !named && (word = "help" || (Scope.ofName? word).isSome) then
    .ok { r with mode := .topic true }
  else fail (.unexpected word)

/-- The next word. -/
def step (r : Reading) (word : String) : Except Stop Reading :=
  match r.mode with
  | .free => r.takeFree word
  | .value s => r.takeValue s word
  | .plain => r.takePlain word
  | .topic named => r.takeTopic named word

/-! ### The end of the words -/

/-- The language that has to be given. -/
def language (r : Reading) : Except Stop String :=
  match r.given.value? .lang with
  | some language => .ok language
  | none => fail (.missing "'--lang'")

/-- Is a switch on? -/
def isOn (r : Reading) (s : Switch) : Bool :=
  r.given.switches.contains s || r.outer.switches.contains s

/-- The command that was given. -/
def command (r : Reading) : Except Stop Command :=
  match r.scope with
  | .program => fail (.missing "a command")
  | .classify => do
    let language ← r.language
    if r.given.numbers = [] then fail (.missing "a number")
    else
      let digits := (r.given.value? .fractionDigits).bind fun value => readCount value.toList
      .ok (.classify language digits (r.isOn .explain) (r.isOn .json) r.given.numbers)
  | .check => .ok (.check (r.given.valuesOf .lang) (r.isOn .json))
  | .samples => return .samples (← r.language)

/-- The file with the rules. On each side of the command's name the environment stands in for an
option that is not given, and its value must be one that the option may have. -/
def rulesPath (r : Reading) (environment : Option String) : Except Stop (Option String) :=
  let inner := r.given.value? .rules
  let outer := r.outer.value? .rules
  match environment with
  | none => .ok (inner.or outer)
  | some value =>
    if !Setting.rules.admits value && (inner.isNone || outer.isNone) then
      fail (.badValue .rules value)
    else .ok ((inner.or outer).or (some value))

/-- What the words ask for. -/
def finish (r : Reading) (environment : Option String) : Except Stop Invocation :=
  match r.mode with
  | .value s => fail (.noValue s)
  | .topic _ => .error .help
  | _ => do
    let command ← r.command
    let rules ← r.rulesPath environment
    .ok ⟨rules, if r.isOn .ordinal then .ordinal else .cardinal, r.isOn .verbose, command⟩

end Reading

/-- What the words of a command line ask for. -/
def read (environment : Option String) (words : List String) : Except Stop Invocation := do
  let r ← words.foldlM Reading.step Reading.start
  r.finish environment

end PluralForms.CommandLine
