import PluralForms.Proofs.Store.Renumbering

/-!
# Loading a table again

A reload puts another table in place and forgets what was made of the old one, or it fails. Whatever
the store went through before, and whatever the file is by then:

* a reload that fails changes nothing, so that a run goes on as if it had not been asked for;
* a reload that succeeds leaves a store that cannot be told from one that was just loaded from the
  file, but for the serial numbers, which go on from where they were;
* once the table was replaced there is no file to load again, and every reload fails, until another
  store is built.

    reload_atomic : all three, for every run
-/

namespace PluralForms.Store

/-- How many serial numbers a store has given out. -/
def serials (s : Store) : Serials := ⟨s.issued, s.cache.issued⟩

theorem run_append (before after : List (Files × StoreRequest)) :
    run (before ++ after) =
      ((run before).1 ++ ((run before).2.runFrom after).1, ((run before).2.runFrom after).2) :=
  runAll_append _ empty before after

theorem runFrom_cons (s : Store) (request : Files × StoreRequest)
    (after : List (Files × StoreRequest)) :
    s.runFrom (request :: after) =
      ((s.perform request.1 request.2).1 :: ((s.perform request.1 request.2).2.runFrom after).1,
        ((s.perform request.1 request.2).2.runFrom after).2) :=
  rfl

variable {s : Store} {files : Files}

/-! ### One reload -/

theorem reload_of_no_path (hpath : s.path = none) : s.reload files = .error .noPath := by
  unfold reload
  rw [hpath]

/-- A reload is loading the file, with the serial numbers already given out left out. -/
theorem reload_of_path {path : String} (hpath : s.path = some path) :
    s.reload files = (load files path s.table.type).map fun fresh =>
      ⟨fresh.table.size, fresh.renumber s.serials,
        fresh.table.loadEvents path ++ [.cachesCleared]⟩ := by
  have hfresh : ∀ table : Table, { s.clear with table := table } =
      (ofTable table (some path)).renumber s.serials := by
    intro table
    obtain ⟨old, path', cache, compiled, issued⟩ := s
    obtain rfl : path' = some path := hpath
    unfold renumber ofTable serials clear RuleCache.renumber RuleCache.clear
    simp [RuleCache.empty, Dictionary.mapValues, Dictionary.empty]
  unfold reload load
  rw [hpath]
  dsimp only
  cases Table.load files path s.table.type with
  | error e => rfl
  | ok table =>
    dsimp only
    rw [hfresh table]
    rfl

/-- A reload fails because there is no file to load, or as loading that file fails. -/
theorem reload_eq_error {e : LoadError} (h : s.reload files = .error e) :
    s.path = none ∧ e = .noPath ∨
      ∃ path, s.path = some path ∧ load files path s.table.type = .error e := by
  cases hpath : s.path with
  | none =>
    rw [reload_of_no_path hpath] at h
    cases h
    exact Or.inl ⟨rfl, rfl⟩
  | some path =>
    rw [reload_of_path hpath] at h
    cases hload : load files path s.table.type with
    | error e' =>
      rw [hload] at h
      cases h
      exact Or.inr ⟨path, rfl, hload⟩
    | ok fresh =>
      rw [hload] at h
      simp [Except.map] at h

theorem reload_eq_ok {step : Step Store Nat} (h : s.reload files = .ok step) :
    ∃ path fresh, s.path = some path ∧ load files path s.table.type = .ok fresh ∧
      step.answer = fresh.table.size ∧ step.state = fresh.renumber s.serials := by
  cases hpath : s.path with
  | none =>
    rw [reload_of_no_path hpath] at h
    simp at h
  | some path =>
    rw [reload_of_path hpath] at h
    cases hload : load files path s.table.type with
    | error e =>
      rw [hload] at h
      simp [Except.map] at h
    | ok fresh =>
      rw [hload] at h
      cases h
      exact ⟨path, fresh, rfl, hload, rfl, rfl⟩

theorem perform_reload_of_error {e : LoadError} (h : s.reload files = .error e) :
    s.perform files .reload = (.failed e, s) := by
  unfold perform
  dsimp only
  rw [h]

theorem perform_reload_of_ok {step : Step Store Nat} (h : s.reload files = .ok step) :
    s.perform files .reload = (.reloaded step.answer, step.state) := by
  unfold perform
  dsimp only
  rw [h]

/-- What was just loaded has kept nothing. -/
theorem load_eq_ok {path : String} {type : PluralType} {fresh : Store}
    (h : load files path type = .ok fresh) :
    fresh.path = some path ∧ fresh.cachedCount = 0 ∧ fresh.compiled.size = 0 := by
  unfold load at h
  cases hload : Table.load files path type with
  | error e =>
    rw [hload] at h
    simp [Except.map] at h
  | ok table =>
    rw [hload] at h
    cases h
    exact ⟨rfl, rfl, rfl⟩

/-! ### Without a file -/

theorem path_rulesFor (s : Store) (identifiers : List String) :
    (s.rulesFor identifiers).state.path = s.path := by
  unfold rulesFor
  cases s.table.lookup identifiers with
  | none => rfl
  | some found =>
    dsimp only
    cases s.compiled.get? found.1 with
    | some compiled => rfl
    | none => rfl

/-- Only another store brings a path to a store that has none. -/
theorem path_perform (hpath : s.path = none) {request : StoreRequest}
    (h : request.rebuilds files = false) : (s.perform files request).2.path = none := by
  cases request with
  | build table path => simp [StoreRequest.rebuilds] at h
  | load path type =>
    unfold StoreRequest.rebuilds at h
    unfold perform
    dsimp only at h ⊢
    cases hload : load files path type with
    | error e => exact hpath
    | ok loaded =>
      rw [hload] at h
      simp [Except.isOk, Except.toBool] at h
  | replace table => rfl
  | reload =>
    rw [perform_reload_of_error (reload_of_no_path hpath)]
    exact hpath
  | rulesFor identifiers => exact (path_rulesFor s identifiers).trans hpath
  | categoryFor identifiers o => exact (path_rulesFor s identifiers).trans hpath

theorem path_runFrom (hpath : s.path = none) {requests : List (Files × StoreRequest)}
    (h : ∀ request ∈ requests, request.2.rebuilds request.1 = false) :
    (s.runFrom requests).2.path = none := by
  induction requests generalizing s with
  | nil => exact hpath
  | cons request requests ih =>
    rw [runFrom_cons]
    exact ih (path_perform hpath (h request List.mem_cons_self)) fun r hr =>
      h r (List.mem_cons_of_mem _ hr)

/-! ### Every run -/

/-- A reload that fails, for one of its reasons, could as well not have been asked for; one that
succeeds leaves a store that answers as one just loaded from the file, renumbered; and none succeeds
between replacing the table and building another store. -/
theorem reload_atomic (before : List (Files × StoreRequest)) (files : Files) :
    (∀ e, (run before).2.reload files = .error e →
      ((run before).2.path = none ∧ e = .noPath ∨
        ∃ path, (run before).2.path = some path ∧
          load files path (run before).2.table.type = .error e) ∧
      (run (before ++ [(files, .reload)])).2 = (run before).2 ∧
      ∀ after, ∃ answers last, run (before ++ after) = ((run before).1 ++ answers, last) ∧
        run (before ++ (files, .reload) :: after) =
          ((run before).1 ++ .failed e :: answers, last)) ∧
    (∀ step, (run before).2.reload files = .ok step →
      ∃ path fresh, (run before).2.path = some path ∧
        load files path (run before).2.table.type = .ok fresh ∧
        step.answer = fresh.table.size ∧ step.state.cachedCount = 0 ∧
        step.state.compiled.size = 0 ∧
        ∀ after, (∀ request ∈ after, request.2.rebuilds request.1 = false) →
          ∃ answers last, fresh.runFrom after = (answers, last) ∧
            run (before ++ (files, .reload) :: after) =
              ((run before).1 ++ .reloaded fresh.table.size ::
                  answers.map (StoreAnswer.map (Compiled.renumber (run before).2.serials)),
                last.renumber (run before).2.serials)) ∧
    (∀ table between, (∀ request ∈ between, request.2.rebuilds request.1 = false) →
      ∀ files', let s := (run (before ++ (files, .replace table) :: between)).2
        s.reload files' = .error .noPath ∧ s.perform files' .reload = (.failed .noPath, s)) := by
  refine ⟨fun e he => ⟨reload_eq_error he, ?_, fun after => ?_⟩, fun step hstep => ?_,
    fun table between hbetween files' => ?_⟩
  · rw [run_append, runFrom_cons, perform_reload_of_error he]
    rfl
  · refine ⟨_, _, run_append before after, ?_⟩
    rw [run_append, runFrom_cons, perform_reload_of_error he]
  · obtain ⟨path, fresh, hpath, hload, hanswer, hstate⟩ := reload_eq_ok hstep
    obtain ⟨-, hcached, hcompiled⟩ := load_eq_ok hload
    refine ⟨path, fresh, hpath, hload, hanswer, ?_, ?_, fun after hafter => ?_⟩
    · rw [hstate]
      exact (Dictionary.size_mapValues _ _).trans hcached
    · rw [hstate]
      exact (Dictionary.size_mapValues _ _).trans hcompiled
    · refine ⟨(fresh.runFrom after).1, (fresh.runFrom after).2, rfl, ?_⟩
      rw [run_append, runFrom_cons, perform_reload_of_ok hstep, hstate, hanswer,
        runFrom_renumber _ _ hafter]
  · intro s
    have hpath : s.path = none := by
      show (run (before ++ (files, .replace table) :: between)).2.path = none
      rw [run_append, runFrom_cons]
      exact path_runFrom rfl hbetween
    have hreload : s.reload files' = .error .noPath := reload_of_no_path hpath
    exact ⟨hreload, perform_reload_of_error hreload⟩

end PluralForms.Store
