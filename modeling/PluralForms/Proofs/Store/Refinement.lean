import PluralForms.Proofs.Store.Cache
import PluralForms.Proofs.Store.Run

/-!
# A store answers as if it kept nothing

A store is *coherent* when what it has kept is what it would make anew of its table: every rule is
the rule of its text, and what is compiled under a key is what the table's rules under that key
compile to. Whatever is asked of a coherent store, it answers as the plain store of the same table
does, and stays coherent; so, from an empty store on, all runs agree:

    run_refines : answers, table and path of `Store.run` are those of `PlainStore.run`
-/

namespace PluralForms.Store

/-- What is kept is what would be made anew. -/
structure Coherent (s : Store) : Prop where
  rules : s.cache.Faithful
  compiled : ∀ key c, s.compiled.get? key = some c →
    ∃ set, s.table.get? key = some set ∧ c.classifier = set.compile

/-- The table of a store and the path it came from. -/
def plain (s : Store) : PlainStore := ⟨s.table, s.path⟩

/-! ### Coherent stores -/

theorem coherent_ofTable (table : Table) (path : Option String) :
    (ofTable table path).Coherent where
  rules := RuleCache.faithful_empty
  compiled := by
    intro key c h
    simp [ofTable] at h

/-- Nothing is kept when the table changes. -/
theorem coherent_of_clear (s : Store) (table : Table) (path : Option String) :
    Coherent { s.clear with table := table, path := path } where
  rules := RuleCache.faithful_clear s.cache
  compiled := by
    intro key c h
    simp [clear] at h

/-- A key that is found for identifiers is in the table, with the rules that are found. -/
theorem get?_of_lookup {t : Table} {identifiers : List String} {key : String} {set : RuleSet}
    (h : t.lookup identifiers = some (key, set)) : t.get? key = some set := by
  unfold Table.lookup at h
  obtain ⟨key', -, hkey⟩ := List.exists_of_findSome?_eq_some h
  obtain ⟨set', hget, heq⟩ := Option.map_eq_some_iff.1 hkey
  cases heq
  exact hget

variable {s : Store}

theorem rulesFor_refines (h : s.Coherent) (identifiers : List String) :
    (s.rulesFor identifiers).answer.map Compiled.classifier =
        (s.table.lookup identifiers).map (fun found => found.2.compile) ∧
      (s.rulesFor identifiers).state.plain = s.plain ∧
      (s.rulesFor identifiers).state.Coherent := by
  unfold rulesFor
  cases hlookup : s.table.lookup identifiers with
  | none => exact ⟨rfl, rfl, h⟩
  | some found =>
    obtain ⟨key, set⟩ := found
    have hset : s.table.get? key = some set := get?_of_lookup hlookup
    dsimp only
    cases hcompiled : s.compiled.get? key with
    | some c =>
      obtain ⟨set', hset', hc⟩ := h.compiled key c hcompiled
      obtain rfl : set = set' := Option.some.inj (hset.symm.trans hset')
      exact ⟨congrArg some hc, rfl, h⟩
    | none =>
      have hnew : Classifier.ofCached (s.cache.compile set).answer = set.compile :=
        RuleCache.ofCached_compile h.rules set
      refine ⟨congrArg some hnew, rfl, RuleCache.faithful_compile h.rules set, ?_⟩
      intro key' c hget
      rw [Dictionary.get?_insert] at hget
      split at hget
      · next heq =>
        cases hget
        exact ⟨set, heq ▸ hset, hnew⟩
      · exact h.compiled key' c hget

theorem categoryFor_refines (h : s.Coherent) (identifiers : List String) (o : Operands) :
    (s.categoryFor identifiers o).answer =
      (s.table.lookup identifiers).map fun found => found.2.compile.classify o := by
  unfold categoryFor
  obtain ⟨hanswer, -, -⟩ := rulesFor_refines h identifiers
  have hclassify := congrArg (Option.map fun c : Classifier => c.classify o) hanswer
  rw [Option.map_map, Option.map_map] at hclassify
  exact hclassify

/-! ### Steps and runs -/

/-- A step of a coherent store is a step of the plain store, and leaves a coherent store. -/
theorem perform_refines (h : s.Coherent) (files : Files) (request : StoreRequest) :
    (s.perform files request).1.map Compiled.classifier = (s.plain.perform files request).1 ∧
      (s.perform files request).2.plain = (s.plain.perform files request).2 ∧
      (s.perform files request).2.Coherent := by
  cases request with
  | build table path => exact ⟨rfl, rfl, coherent_ofTable table path⟩
  | load path type =>
    unfold perform PlainStore.perform load
    dsimp only
    cases Table.load files path type with
    | error e => exact ⟨rfl, rfl, h⟩
    | ok table => exact ⟨rfl, rfl, coherent_ofTable table (some path)⟩
  | replace table => exact ⟨rfl, rfl, coherent_of_clear s table none⟩
  | reload =>
    obtain ⟨table, path, cache, compiled, issued⟩ := s
    cases path with
    | none => exact ⟨rfl, rfl, h⟩
    | some path =>
      unfold perform PlainStore.perform reload plain
      dsimp only
      cases Table.load files path table.type with
      | error e => exact ⟨rfl, rfl, h⟩
      | ok loaded =>
        refine ⟨rfl, rfl, ?_⟩
        exact coherent_of_clear ⟨table, some path, cache, compiled, issued⟩ loaded (some path)
  | rulesFor identifiers =>
    obtain ⟨hanswer, hplain, hcoherent⟩ := rulesFor_refines h identifiers
    exact ⟨congrArg StoreAnswer.rules hanswer, hplain, hcoherent⟩
  | categoryFor identifiers o =>
    obtain ⟨-, hplain, hcoherent⟩ := rulesFor_refines h identifiers
    exact ⟨congrArg StoreAnswer.category (categoryFor_refines h identifiers o), hplain, hcoherent⟩

/-- In every run a store answers as the plain store does and serves the same table, and the store
that is reached is coherent. -/
theorem run_refines (requests : List (Files × StoreRequest)) :
    (run requests).1.map (StoreAnswer.map Compiled.classifier) = (PlainStore.run requests).1 ∧
      (run requests).2.table = (PlainStore.run requests).2.table ∧
      (run requests).2.path = (PlainStore.run requests).2.path ∧
      (run requests).2.Coherent := by
  have hstep : ∀ (s : Store) (p : PlainStore) (request : Files × StoreRequest),
      s.plain = p ∧ s.Coherent →
      (s.perform request.1 request.2).1.map Compiled.classifier =
          (p.perform request.1 request.2).1 ∧
        (s.perform request.1 request.2).2.plain = (p.perform request.1 request.2).2 ∧
        (s.perform request.1 request.2).2.Coherent := by
    rintro s p ⟨files, request⟩ ⟨rfl, h⟩
    exact perform_refines h files request
  have hstart : empty.plain = PlainStore.empty ∧ empty.Coherent :=
    ⟨rfl, coherent_ofTable _ none⟩
  obtain ⟨hanswers, hplain, hcoherent⟩ := runAll_simulates hstep hstart requests
  exact ⟨hanswers, congrArg PlainStore.table hplain, congrArg PlainStore.path hplain, hcoherent⟩

end PluralForms.Store
