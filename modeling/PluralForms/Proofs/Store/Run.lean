import PluralForms.Store

/-!
# Runs of stores

A store lives through requests, one after another, while the files around it come and go. A run is
therefore a list of requests, each with the files as they stand when it is made. Beside the store
stands the *plain store*, which keeps a table and the path it came from, and compiles anew whenever
it is asked.

* `Store.perform`, `PlainStore.perform` - one request;
* `runAll` - the answers to a list of requests, and the state they leave;
* `runAll_simulates` - two machines whose steps agree have runs that agree.
-/

namespace PluralForms

/-! ### Runs of any machine -/

section Runs

variable {σ τ α β ι : Type}

/-- The answers to inputs given one after another, and the last state. -/
def runAll (perform : σ → ι → α × σ) (s : σ) : List ι → List α × σ
  | [] => ([], s)
  | i :: is =>
    let (answer, next) := perform s i
    let (answers, last) := runAll perform next is
    (answer :: answers, last)

theorem runAll_cons (perform : σ → ι → α × σ) (s : σ) (i : ι) (is : List ι) :
    runAll perform s (i :: is) =
      ((perform s i).1 :: (runAll perform (perform s i).2 is).1,
        (runAll perform (perform s i).2 is).2) :=
  rfl

theorem runAll_append (perform : σ → ι → α × σ) (s : σ) (is js : List ι) :
    runAll perform s (is ++ js) =
      ((runAll perform s is).1 ++ (runAll perform (runAll perform s is).2 js).1,
        (runAll perform (runAll perform s is).2 js).2) := by
  induction is generalizing s with
  | nil => rfl
  | cons i is ih =>
    rw [List.cons_append, runAll_cons, runAll_cons, ih]
    rfl

/-- A relation that every step keeps, and under which every step answers alike, carries over to
whole runs. -/
theorem runAll_simulates {p : σ → ι → α × σ} {q : τ → ι → β × τ} {R : σ → τ → Prop} {f : α → β}
    (hstep : ∀ s t i, R s t → f (p s i).1 = (q t i).1 ∧ R (p s i).2 (q t i).2)
    {s : σ} {t : τ} (h : R s t) (is : List ι) :
    (runAll p s is).1.map f = (runAll q t is).1 ∧ R (runAll p s is).2 (runAll q t is).2 := by
  induction is generalizing s t with
  | nil => exact ⟨rfl, h⟩
  | cons i is ih =>
    obtain ⟨hanswer, hnext⟩ := hstep s t i h
    obtain ⟨hanswers, hlast⟩ := ih hnext
    rw [runAll_cons, runAll_cons]
    refine ⟨?_, hlast⟩
    rw [List.map_cons, hanswer, hanswers]

end Runs

/-! ### Requests and answers -/

/-- What a store may be asked to do. -/
inductive StoreRequest
  /-- Start anew with a table, and a path to load it from again. -/
  | build (table : Table) (path : Option String)
  /-- Start anew with the table of a file. -/
  | load (path : String) (type : PluralType)
  | replace (table : Table)
  | reload
  | rulesFor (identifiers : List String)
  | categoryFor (identifiers : List String) (o : Operands)

/-- What comes of a request; rules are handed out in the form `ρ`. -/
inductive StoreAnswer (ρ : Type)
  | done
  | failed (e : LoadError)
  | reloaded (languages : Nat)
  | rules (found : Option ρ)
  | category (found : Option Category)

def StoreAnswer.map {ρ ρ' : Type} (f : ρ → ρ') : StoreAnswer ρ → StoreAnswer ρ'
  | done => done
  | failed e => failed e
  | reloaded languages => reloaded languages
  | rules found => rules (found.map f)
  | category found => category found

/-! ### The store -/

namespace Store

/-- The answer to a request that meets these files, and the store behind it. A store that cannot
be loaded leaves the one that is there. -/
def perform (s : Store) (files : Files) : StoreRequest → StoreAnswer Compiled × Store
  | .build table path => (.done, ofTable table path)
  | .load path type =>
    match load files path type with
    | .error e => (.failed e, s)
    | .ok loaded => (.done, loaded)
  | .replace table => (.done, (s.replace table).state)
  | .reload =>
    match s.reload files with
    | .error e => (.failed e, s)
    | .ok step => (.reloaded step.answer, step.state)
  | .rulesFor identifiers =>
    (.rules (s.rulesFor identifiers).answer, (s.rulesFor identifiers).state)
  | .categoryFor identifiers o =>
    (.category (s.categoryFor identifiers o).answer, (s.categoryFor identifiers o).state)

/-- A run that begins with an empty store. -/
def run (requests : List (Files × StoreRequest)) : List (StoreAnswer Compiled) × Store :=
  runAll (fun s request => s.perform request.1 request.2) empty requests

end Store

/-! ### The plain store -/

/-- A table and the path it came from. -/
structure PlainStore where
  table : Table
  path : Option String

namespace PlainStore

def empty : PlainStore := ⟨Table.empty .cardinal, none⟩

/-- The answer to a request that meets these files. Only a table that is built, replaced or loaded
changes the store; rules are compiled from the table each time. -/
def perform (p : PlainStore) (files : Files) :
    StoreRequest → StoreAnswer Classifier × PlainStore
  | .build table path => (.done, ⟨table, path⟩)
  | .load path type =>
    match Table.load files path type with
    | .error e => (.failed e, p)
    | .ok table => (.done, ⟨table, some path⟩)
  | .replace table => (.done, ⟨table, none⟩)
  | .reload =>
    match p.path with
    | none => (.failed .noPath, p)
    | some path =>
      match Table.load files path p.table.type with
      | .error e => (.failed e, p)
      | .ok table => (.reloaded table.size, ⟨table, some path⟩)
  | .rulesFor identifiers =>
    (.rules ((p.table.lookup identifiers).map fun found => found.2.compile), p)
  | .categoryFor identifiers o =>
    (.category ((p.table.lookup identifiers).map fun found => found.2.compile.classify o), p)

/-- A run that begins with an empty store. -/
def run (requests : List (Files × StoreRequest)) : List (StoreAnswer Classifier) × PlainStore :=
  runAll (fun p request => p.perform request.1 request.2) empty requests

end PlainStore

end PluralForms
