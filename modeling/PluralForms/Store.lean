import PluralForms.Cache
import PluralForms.Table.Lookup

/-!
# Stores

A store serves the rules of a table, compiled when they are first asked for. It keeps what it has
read and compiled until its table is replaced or loaded again; both empty its caches. A store that
was loaded from a file remembers the file and can load it again.

* `Store.rulesFor` - the compiled rules of a language, the same object as long as the table stands;
* `Store.replace`, `Store.reload` - serve another table; a reload that fails changes nothing.
-/

namespace PluralForms

/-- How files are read: the text of the file with a name. -/
abbrev Files : Type := String → Except ReadError String

/-- The compiled rules of a language, with their serial number. -/
structure Compiled where
  serial : Nat
  rules : List (Category × CachedRule)
  deriving DecidableEq, Repr

def Compiled.classifier (c : Compiled) : Classifier := .ofCached c.rules

/-- The table of a file. -/
def Table.load (files : Files) (path : String) (type : PluralType) : Except LoadError Table :=
  match files path with
  | .error reason => .error (.unreadable path reason)
  | .ok text => Table.read path type text

/-- A table, where it came from, and what has been read and compiled of it. -/
structure Store where
  table : Table
  path : Option String
  cache : RuleCache
  compiled : Dictionary Compiled
  /-- How many serial numbers were given to compiled rules. -/
  issued : Nat

namespace Store

/-- A store that has not been asked for anything. -/
def ofTable (table : Table) (path : Option String) : Store := ⟨table, path, .empty, .empty, 0⟩

/-- A store without languages. -/
def empty : Store := ofTable (Table.empty .cardinal) none

/-- The store of a file. -/
def load (files : Files) (path : String) (type : PluralType) : Except LoadError Store :=
  (Table.load files path type).map fun table => ofTable table (some path)

/-- How many rule texts were read since the caches were last emptied. -/
def cachedCount (s : Store) : Nat := s.cache.size

/-- The compiled rules of the first key that the table has for a list of identifiers. -/
def rulesFor (s : Store) (identifiers : List String) : Step Store (Option Compiled) :=
  match s.table.lookup identifiers with
  | none => ⟨none, s, []⟩
  | some (key, set) =>
    match s.compiled.get? key with
    | some compiled => ⟨some compiled, s, []⟩
    | none =>
      let step := s.cache.compile set
      let compiled := ⟨s.issued, step.answer⟩
      let next := { s with
        cache := step.state, compiled := s.compiled.insert key compiled, issued := s.issued + 1 }
      ⟨some compiled, next, .compiling key :: step.events⟩

/-- The category of a number in the language of a list of identifiers. -/
def categoryFor (s : Store) (identifiers : List String) (o : Operands) :
    Step Store (Option Category) :=
  let step := s.rulesFor identifiers
  ⟨step.answer.map fun compiled => compiled.classifier.classify o, step.state, step.events⟩

/-! ### Other tables -/

/-- Forget what was read and compiled. -/
def clear (s : Store) : Store := { s with cache := s.cache.clear, compiled := .empty }

/-- Serve another table, which comes from no file. -/
def replace (s : Store) (table : Table) : Step Store Unit :=
  ⟨(), { s.clear with table := table, path := none }, [.cachesCleared]⟩

/-- Load the table of the remembered file again; the answer is how many languages it has. -/
def reload (s : Store) (files : Files) : Except LoadError (Step Store Nat) :=
  match s.path with
  | none => .error .noPath
  | some path =>
    match Table.load files path s.table.type with
    | .error e => .error e
    | .ok table =>
      .ok ⟨table.size, { s.clear with table := table }, table.loadEvents path ++ [.cachesCleared]⟩

end Store

end PluralForms
