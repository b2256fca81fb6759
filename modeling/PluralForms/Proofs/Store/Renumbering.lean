import PluralForms.Proofs.Dictionary
import PluralForms.Proofs.Store.Run

/-!
# Serial numbers only tell objects apart

A store numbers what it hands out, so that one can see whether two answers are the same object. How
large the numbers are means nothing: a store whose serial numbers are all raised by the same amount
gives the same answers, with their serial numbers raised as well,

    runFrom_renumber : (s.renumber k).runFrom requests is s.runFrom requests, renumbered

as long as no other store is put in its place, which would number from zero again.
-/

namespace PluralForms

/-! ### Renumbering -/

/-- How many serial numbers were given out, to compiled rules and to rules that were read. -/
structure Serials where
  compiled : Nat
  rules : Nat

variable (k : Serials)

def CachedRule.renumber (rule : CachedRule) : CachedRule :=
  { rule with serial := rule.serial + k.rules }

def Compiled.renumber (c : Compiled) : Compiled :=
  ⟨c.serial + k.compiled, c.rules.map fun rule => (rule.1, rule.2.renumber k)⟩

def RuleCache.renumber (cache : RuleCache) : RuleCache :=
  ⟨cache.rules.mapValues (CachedRule.renumber k), cache.issued + k.rules⟩

/-- The store with every serial number raised, those still to be given out included. -/
def Store.renumber (s : Store) : Store :=
  { s with
    cache := s.cache.renumber k
    compiled := s.compiled.mapValues (Compiled.renumber k)
    issued := s.issued + k.compiled }

/-- Serial numbers decide about no category. -/
theorem Compiled.classifier_renumber (c : Compiled) : (c.renumber k).classifier = c.classifier := by
  unfold classifier Classifier.ofCached renumber
  dsimp only
  rw [List.map_map]
  rfl

/-! ### Caches -/

namespace RuleCache

theorem request_renumber (cache : RuleCache) (text : String) :
    ((cache.renumber k).request text).answer = (cache.request text).answer.renumber k ∧
      ((cache.renumber k).request text).state = (cache.request text).state.renumber k := by
  have hget : (cache.renumber k).rules.get? text =
      (cache.rules.get? text).map (CachedRule.renumber k) :=
    Dictionary.get?_mapValues _ _ _
  unfold request
  rw [hget]
  cases cache.rules.get? text with
  | some cached => exact ⟨rfl, rfl⟩
  | none =>
    have hinsert := Dictionary.insert_mapValues (CachedRule.renumber k) cache.rules text
      ⟨cache.issued, Rule.read text⟩
    refine ⟨rfl, ?_⟩
    unfold renumber
    dsimp only [Option.map_none]
    rw [← hinsert, Nat.add_right_comm]
    rfl

theorem requestAll_renumber (cache : RuleCache) (rules : List (Category × String)) :
    ((cache.renumber k).requestAll rules).answer =
        (cache.requestAll rules).answer.map (fun rule => (rule.1, rule.2.renumber k)) ∧
      ((cache.renumber k).requestAll rules).state = (cache.requestAll rules).state.renumber k := by
  induction rules generalizing cache with
  | nil => exact ⟨rfl, rfl⟩
  | cons rule rules ih =>
    obtain ⟨category, text⟩ := rule
    obtain ⟨hanswer, hstate⟩ := request_renumber k cache text
    obtain ⟨hanswers, hlast⟩ := ih (cache.request text).state
    unfold requestAll
    dsimp only
    rw [hanswer, hstate, hanswers, hlast]
    exact ⟨rfl, rfl⟩

theorem compile_renumber (cache : RuleCache) (set : RuleSet) :
    ((cache.renumber k).compile set).answer =
        (cache.compile set).answer.map (fun rule => (rule.1, rule.2.renumber k)) ∧
      ((cache.renumber k).compile set).state = (cache.compile set).state.renumber k :=
  requestAll_renumber k cache set.consulted

end RuleCache

/-! ### Stores -/

/-- Does another store take the place of the one that is there? One that cannot be loaded does
not. -/
def StoreRequest.rebuilds (files : Files) : StoreRequest → Bool
  | .build .. => true
  | .load path type => (Store.load files path type).isOk
  | _ => false

namespace Store

theorem rulesFor_renumber (s : Store) (identifiers : List String) :
    ((s.renumber k).rulesFor identifiers).answer =
        (s.rulesFor identifiers).answer.map (Compiled.renumber k) ∧
      ((s.renumber k).rulesFor identifiers).state =
        (s.rulesFor identifiers).state.renumber k := by
  unfold rulesFor
  rw [show (s.renumber k).table = s.table from rfl]
  cases s.table.lookup identifiers with
  | none => exact ⟨rfl, rfl⟩
  | some found =>
    obtain ⟨key, set⟩ := found
    have hget : (s.renumber k).compiled.get? key =
        (s.compiled.get? key).map (Compiled.renumber k) :=
      Dictionary.get?_mapValues _ _ _
    dsimp only
    rw [hget]
    cases s.compiled.get? key with
    | some compiled => exact ⟨rfl, rfl⟩
    | none =>
      obtain ⟨hrules, hcache⟩ := RuleCache.compile_renumber k s.cache set
      have hcompiled :
          Compiled.mk (s.issued + k.compiled) ((s.cache.renumber k).compile set).answer =
            Compiled.renumber k ⟨s.issued, (s.cache.compile set).answer⟩ :=
        congrArg (Compiled.mk _) hrules
      refine ⟨congrArg some hcompiled, ?_⟩
      show Store.mk s.table s.path ((s.cache.renumber k).compile set).state
          ((s.compiled.mapValues (Compiled.renumber k)).insert key
            ⟨s.issued + k.compiled, ((s.cache.renumber k).compile set).answer⟩)
          (s.issued + k.compiled + 1) =
        Store.renumber k ⟨s.table, s.path, (s.cache.compile set).state,
          s.compiled.insert key ⟨s.issued, (s.cache.compile set).answer⟩, s.issued + 1⟩
      rw [hcompiled, Dictionary.insert_mapValues, hcache, Nat.add_right_comm]
      rfl

/-- A request that leaves the store in its place is answered alike, and leaves a store whose serial
numbers are raised alike. -/
theorem perform_renumber (s : Store) {files : Files} {request : StoreRequest}
    (h : request.rebuilds files = false) :
    ((s.renumber k).perform files request).1 =
        (s.perform files request).1.map (Compiled.renumber k) ∧
      ((s.renumber k).perform files request).2 = (s.perform files request).2.renumber k := by
  cases request with
  | build table path => simp [StoreRequest.rebuilds] at h
  | load path type =>
    unfold StoreRequest.rebuilds at h
    unfold perform
    dsimp only at h ⊢
    cases hload : load files path type with
    | error e => exact ⟨rfl, rfl⟩
    | ok loaded =>
      rw [hload] at h
      simp [Except.isOk, Except.toBool] at h
  | replace table => exact ⟨rfl, rfl⟩
  | reload =>
    obtain ⟨table, path, cache, compiled, issued⟩ := s
    unfold perform reload renumber
    dsimp only
    cases path with
    | none => exact ⟨rfl, rfl⟩
    | some path =>
      dsimp only
      cases Table.load files path table.type with
      | error e => exact ⟨rfl, rfl⟩
      | ok loaded => exact ⟨rfl, rfl⟩
  | rulesFor identifiers =>
    obtain ⟨hanswer, hstate⟩ := rulesFor_renumber k s identifiers
    exact ⟨congrArg StoreAnswer.rules hanswer, hstate⟩
  | categoryFor identifiers o =>
    obtain ⟨hanswer, hstate⟩ := rulesFor_renumber k s identifiers
    refine ⟨?_, hstate⟩
    unfold perform categoryFor
    dsimp only
    rw [hanswer, Option.map_map]
    simp only [Function.comp_def, Compiled.classifier_renumber]
    rfl

/-- A run that begins with a store. -/
def runFrom (s : Store) (requests : List (Files × StoreRequest)) :
    List (StoreAnswer Compiled) × Store :=
  runAll (fun s request => s.perform request.1 request.2) s requests

theorem runFrom_renumber (s : Store) {requests : List (Files × StoreRequest)}
    (h : ∀ request ∈ requests, request.2.rebuilds request.1 = false) :
    (s.renumber k).runFrom requests =
      ((s.runFrom requests).1.map (StoreAnswer.map (Compiled.renumber k)),
        (s.runFrom requests).2.renumber k) := by
  induction requests generalizing s with
  | nil => rfl
  | cons request requests ih =>
    obtain ⟨hanswer, hnext⟩ := perform_renumber k s (h request List.mem_cons_self)
    have hlast := ih (s.perform request.1 request.2).2 fun r hr => h r (List.mem_cons_of_mem _ hr)
    unfold runFrom at hlast ⊢
    rw [runAll_cons, runAll_cons, hanswer, hnext, hlast]
    rfl

end Store

end PluralForms
