import PluralForms.Dictionary
import PluralForms.RuleFile
import PluralForms.RuleSet

/-!
# Rule tables

The rule sets of many languages, of one plural type. A table is built up by inserting rule sets, or
loaded from a rule file. In a file the rules of a language have labels and no order; the table puts
them in the order of their categories and keeps a warning for each label that names none.

* `Table.ofSection` - the table of a section;
* `Table.read` - the table of a file's text.
-/

namespace PluralForms

/-- The rule sets of many languages. -/
structure Table where
  type : PluralType
  languages : Dictionary RuleSet
  /-- What was passed over when the table was loaded. -/
  warnings : List Warning

/-! ### Why a table cannot be loaded -/

/-- Why a file cannot be read. -/
inductive ReadError
  | notFound
  | isDirectory
  /-- A path goes on behind a file. -/
  | notDirectory
  | notText
  /-- Any other reason, in the words of the system. -/
  | other (reason : String)
  deriving DecidableEq, Repr

def ReadError.message : ReadError → String
  | .notFound => "No such file or directory (os error 2)"
  | .isDirectory => "Is a directory (os error 21)"
  | .notDirectory => "Not a directory (os error 20)"
  | .notText => "stream did not contain valid UTF-8"
  | .other reason => reason

/-- Why a table cannot be loaded. -/
inductive LoadError
  | unreadable (path : String) (reason : ReadError)
  | badJson (origin : String) (fault : Json.Fault)
  | missingSection (origin : String) (type : PluralType)
  /-- The table that is to be loaded again did not come from a file. -/
  | noPath
  deriving DecidableEq, Repr

def LoadError.message : LoadError → String
  | .unreadable path reason => "failed to read '" ++ path ++ "': " ++ reason.message
  | .badJson origin _ => "malformed plural rule JSON in " ++ origin
  | .missingSection origin type => origin ++ " has no '" ++ type.sectionName ++ "' section"
  | .noPath => "cannot reload plural rules: table was not loaded from a file"

/-! ### Building tables -/

namespace Table

/-- A table without languages. -/
def empty (type : PluralType) : Table := ⟨type, .empty, []⟩

/-- Put the rules of a language into a table, in place of those that are there. -/
def insert (t : Table) (language : String) (set : RuleSet) : Table :=
  { t with languages := t.languages.insert language set }

/-- The rules under exactly this key. -/
def get? (t : Table) (language : String) : Option RuleSet := t.languages.get? language

def keys (t : Table) : List String := t.languages.keys

def size (t : Table) : Nat := t.languages.size

def isEmpty (t : Table) : Bool := t.languages.entries.isEmpty

/-- The rules of a language, in the order of their categories. -/
def orderedRules (labels : Dictionary String) : RuleSet :=
  ⟨Category.all.filterMap fun category =>
    (labels.get? category.ruleKey).map fun text => (category, text)⟩

/-- A warning for each label that names no category. -/
def labelWarnings (language : String) (labels : Dictionary String) : List Warning :=
  (labels.keys.filter fun key => (Category.ofRuleKey? key).isNone).map
    (.unknownRuleKey language)

/-- The table of a section. Of repeated languages and labels the last one counts. -/
def ofSection (type : PluralType) (written : LabelledRules) : Table :=
  let languages := Dictionary.ofList
    (written.map fun (language, labels) => (language, Dictionary.ofList labels))
  ⟨type, Dictionary.ofList
    (languages.entries.map fun (language, labels) => (language, orderedRules labels)),
    languages.entries.flatMap fun (language, labels) => labelWarnings language labels⟩

/-- The table of a file's text. -/
def read (origin : String) (type : PluralType) (text : String) : Except LoadError Table :=
  match RuleFile.read text with
  | .error fault => .error (.badJson origin fault)
  | .ok file =>
    match file.labelledRules type with
    | none => .error (.missingSection origin type)
    | some written => .ok (ofSection type written)

/-- How a text is called that does not come from a file. -/
def stringOrigin : String := "<string>"

/-- What there is to tell about a table that was loaded. -/
def loadEvents (t : Table) (origin : String) : List Event := [.loaded origin t.type t.size]

/-! ### Validation -/

/-- The warnings of loading, then those about the rules of each language. -/
def validate (t : Table) : List Warning :=
  t.warnings ++ t.languages.entries.flatMap fun (language, set) => set.validate language

end Table

end PluralForms
