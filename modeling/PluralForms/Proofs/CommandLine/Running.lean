import Mathlib.Data.List.Forall2
import PluralForms.CommandLine.Outcome
import PluralForms.Proofs.Table.Mapping

/-!
# How commands run

Every command first loads its rules, then does its work, and ends at the first step that fails. A
failure writes nothing, and its exit code tells what kind of step it was:

    no file is named : 64
    the file cannot be read : 66
    its text is no rule file, a language has no rules, a number is none : 65

* `mapM_eq_ok_iff`, `mapM_eq_error_iff` - a step for each of many things, of which the first that
  fails ends the whole;
* `run_of_loaded` - a command whose rules are loaded.
-/

namespace PluralForms

/-! ### One step after another -/

section Steps

variable {ε α β : Type} {f : α → Except ε β} {as : List α}

theorem mapM_eq_ok_iff {bs : List β} :
    as.mapM f = .ok bs ↔ List.Forall₂ (fun a b => f a = .ok b) as bs := by
  induction as generalizing bs with
  | nil =>
    rw [List.mapM_nil, List.forall₂_nil_left_iff]
    exact ⟨fun h => (Except.ok.inj h).symm, fun h => h ▸ rfl⟩
  | cons a as ih =>
    rw [List.mapM_cons, List.forall₂_cons_left_iff]
    constructor
    · intro h
      cases ha : f a with
      | error e =>
        rw [ha] at h
        cases h
      | ok b =>
        cases has : as.mapM f with
        | error e =>
          rw [ha, has] at h
          cases h
        | ok bs' =>
          rw [ha, has] at h
          cases h
          exact ⟨b, bs', rfl, ih.1 has, rfl⟩
    · rintro ⟨b, bs', hb, hbs, rfl⟩
      rw [hb, ih.2 hbs]
      rfl

/-- If the whole succeeds, no step has failed. -/
theorem exists_of_mapM_eq_ok {bs : List β} (h : as.mapM f = .ok bs) :
    ∀ a ∈ as, ∃ b, f a = .ok b := by
  induction mapM_eq_ok_iff.1 h with
  | nil => simp
  | @cons a b as bs hab hall ih =>
    intro a' ha'
    rcases List.mem_cons.1 ha' with rfl | ha'
    · exact ⟨b, hab⟩
    · exact ih (mapM_eq_ok_iff.2 hall) a' ha'

/-- The whole fails at the first step that fails. -/
theorem mapM_eq_error_iff {e : ε} : as.mapM f = .error e ↔
    ∃ before a behind, as = before ++ a :: behind ∧ (∀ b ∈ before, ∃ c, f b = .ok c) ∧
      f a = .error e := by
  induction as with
  | nil =>
    rw [List.mapM_nil]
    constructor
    · intro h
      cases h
    · rintro ⟨before, a, behind, heq, -⟩
      simp at heq
  | cons a as ih =>
    rw [List.mapM_cons]
    constructor
    · intro h
      cases ha : f a with
      | error e' =>
        rw [ha] at h
        cases h
        exact ⟨[], a, as, rfl, by simp, ha⟩
      | ok b =>
        have hrest : as.mapM f = .error e := by
          rw [ha] at h
          cases has : as.mapM f with
          | error e' =>
            rw [has] at h
            cases h
            rfl
          | ok bs =>
            rw [has] at h
            cases h
        obtain ⟨before, a', behind, rfl, hbefore, ha'⟩ := ih.1 hrest
        refine ⟨a :: before, a', behind, rfl, ?_, ha'⟩
        intro x hx
        rcases List.mem_cons.1 hx with rfl | hx
        · exact ⟨b, ha⟩
        · exact hbefore x hx
    · rintro ⟨before, a', behind, heq, hbefore, ha'⟩
      cases before with
      | nil =>
        cases heq
        rw [ha']
        rfl
      | cons x before =>
        cases heq
        obtain ⟨b, hb⟩ := hbefore a List.mem_cons_self
        have hrest := ih.2 ⟨before, a', behind, rfl,
          fun x hx => hbefore x (List.mem_cons_of_mem a hx), ha'⟩
        rw [hb, hrest]
        rfl

end Steps

namespace CommandLine

/-- Nothing is written, and this is the exit code. -/
def Outcome.FailsWith (o : Outcome) (code : Nat) : Prop := o.exitCode = code ∧ o.output = ""

/-- All went well, and this is what is written. -/
def Outcome.Writes (o : Outcome) (text : String) : Prop := o.exitCode = 0 ∧ o.output = text

variable {files : Files} {path text : String} {type : PluralType} {verbose : Bool}
  {command : Command}

/-! ### Rules that are not loaded -/

theorem run_of_no_rules (files : Files) (type : PluralType) (verbose : Bool) (command : Command) :
    (Invocation.run ⟨none, type, verbose, command⟩ files).FailsWith 64 := ⟨rfl, rfl⟩

theorem run_of_not_loaded {e : LoadError} (h : Table.load files path type = .error e) :
    Invocation.run ⟨some path, type, verbose, command⟩ files = .ofFailure (.notLoaded e) := by
  have hopen : openStore files (some path) type = .error (.notLoaded e) := by
    simp [openStore, Store.load, h, Except.map, Except.mapError]
  unfold Invocation.run
  rw [hopen]
  rfl

theorem run_of_unreadable {reason : ReadError} (h : files path = .error reason) :
    (Invocation.run ⟨some path, type, verbose, command⟩ files).FailsWith 66 := by
  have hload : Table.load files path type = .error (.unreadable path reason) := by
    simp [Table.load, h]
  rw [run_of_not_loaded hload]
  exact ⟨rfl, rfl⟩

/-- A text that was read is loaded as the table of the text. -/
theorem load_of_readable (h : files path = .ok text) :
    Table.load files path type = Table.read path type text := by
  simp [Table.load, h]

/-- A text fails to be a table in one of two ways, both of which are faults of the data. -/
theorem exitCode_of_read {origin : String} {e : LoadError}
    (h : Table.read origin type text = .error e) : (Failure.notLoaded e).exitCode = 65 := by
  unfold Table.read at h
  split at h
  · cases h
    rfl
  · split at h
    · cases h
      rfl
    · cases h

theorem run_of_unread {e : LoadError} (htext : files path = .ok text)
    (h : Table.read path type text = .error e) :
    (Invocation.run ⟨some path, type, verbose, command⟩ files).FailsWith 65 := by
  rw [run_of_not_loaded ((load_of_readable htext).trans h)]
  exact ⟨exitCode_of_read h, rfl⟩

/-! ### Rules that are loaded -/

/-- Once the rules are loaded, a command works on a store of its own, which nobody has asked for
anything. -/
theorem run_of_loaded {t : Table} (command : Command) (h : Table.load files path type = .ok t) :
    Invocation.run ⟨some path, type, verbose, command⟩ files =
      .ofExcept ((command.run (Store.ofTable t (some path))).map fun outcome =>
        { outcome with events := t.loadEvents path ++ outcome.events }) := by
  have hopen : openStore files (some path) type = .ok (Store.ofTable t (some path)) := by
    simp [openStore, Store.load, h, Except.map, Except.mapError]
  unfold Invocation.run
  rw [hopen]
  show Outcome.ofExcept ((command.run (Store.ofTable t (some path))).bind fun outcome =>
    .ok { outcome with events := t.loadEvents path ++ outcome.events }) = _
  cases command.run (Store.ofTable t (some path)) <;> rfl

theorem run_of_failure {t : Table} {f : Failure} (command : Command)
    (h : Table.load files path type = .ok t)
    (hcommand : command.run (Store.ofTable t (some path)) = .error f) :
    Invocation.run ⟨some path, type, verbose, command⟩ files = .ofFailure f := by
  rw [run_of_loaded command h, hcommand]
  rfl

/-- A command that succeeds ends the run: its exit code and its text are those of the run. -/
theorem run_of_success {t : Table} {outcome : Outcome} (command : Command)
    (h : Table.load files path type = .ok t)
    (hcommand : command.run (Store.ofTable t (some path)) = .ok outcome) :
    (Invocation.run ⟨some path, type, verbose, command⟩ files).exitCode = outcome.exitCode ∧
      (Invocation.run ⟨some path, type, verbose, command⟩ files).output = outcome.output := by
  rw [run_of_loaded command h, hcommand]
  exact ⟨rfl, rfl⟩

/-! ### A file -/

/-- The rules of two languages, whatever file is named. -/
def specimenFiles : Files := fun _ => .ok (Table.documentWith [] Table.specimen).text

theorem load_specimenFiles (path : String) :
    Table.load specimenFiles path .cardinal = .ok (Table.ofSection .cardinal Table.specimen) := by
  have htext : specimenFiles path = .ok (Table.documentWith [] Table.specimen).text := rfl
  rw [load_of_readable htext, Table.read_eq_ok_iff (Json.Value.writes_text _)]
  exact ⟨Table.specimen, by decide +kernel, rfl⟩

end CommandLine

end PluralForms
