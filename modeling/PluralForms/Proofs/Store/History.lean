import PluralForms.Proofs.Store.CacheHistory
import PluralForms.Proofs.Store.Refinement
import PluralForms.Proofs.Store.Reload

/-!
# What a store keeps

A store goes through *epochs*: one ends whenever its table is replaced or loaded again. Each time
that rules are asked for and found, the key and the rules in the table are written down beside the
compiled rules that are handed out for them. Such a list of services tells all there is to know
about what the store keeps, for any run of one store:

    keptAsAsked_ofRequests : the number of kept rules is that of the texts of the keys that were
      found in this epoch; the compiled rules are the same for the same key in the same epoch only,
      the rules in them for the same text in the same epoch only; failures change nothing.

Both memories of a store, of compiled rules and of single rules, are tracked by the list at once
(`Sound`). Compiled rules that are kept are handed out again without a look at the single rules, but
that service is on the list already, and so are its rules.
-/

namespace PluralForms

/-! ### Services -/

/-- Compiled rules that were handed out: for which key of the table, with which rules under it, in
which epoch. -/
structure Service where
  epoch : Nat
  key : String
  set : RuleSet
  compiled : Compiled

namespace Service

/-- The compiled rules as an object for the key. -/
def handout (a : Service) : Handout Compiled := ⟨a.epoch, a.key, a.compiled⟩

/-- The single rules as objects for their texts. -/
def rules (a : Service) : List (Handout CachedRule) :=
  ruleHandouts a.epoch a.set.texts (a.compiled.rules.map (·.2))

end Service

/-! ### Requests -/

/-- The identifiers that rules are asked for with. -/
def StoreRequest.identifiers? : StoreRequest → Option (List String)
  | rulesFor identifiers => some identifiers
  | categoryFor identifiers _ => some identifiers
  | _ => none

/-- Does the answer tell of another table? -/
def StoreAnswer.renews {ρ : Type} : StoreAnswer ρ → Bool
  | done => true
  | reloaded _ => true
  | _ => false

/-- Does the answer tell of a failure: of a table that could not be loaded, or of a language that
was not found? -/
def StoreAnswer.fails {ρ : Type} : StoreAnswer ρ → Bool
  | failed _ => true
  | rules found => found.isNone
  | category found => found.isNone
  | _ => false

/-- The service of rules that are asked for, if they are found. -/
def Store.serve? (s : Store) (epoch : Nat) (identifiers : List String) : Option Service :=
  (s.table.lookup identifiers).bind fun (key, set) =>
    (s.rulesFor identifiers).answer.map fun compiled => ⟨epoch, key, set, compiled⟩

/-- A store, how many epochs it has behind it, and its services. -/
structure StoreHistory where
  store : Store
  epoch : Nat
  services : List Service

namespace StoreHistory

/-- A store that has not been asked for anything. -/
def start (table : Table) (path : Option String) : StoreHistory := ⟨.ofTable table path, 0, []⟩

def next (past : StoreHistory) (request : Files × StoreRequest) : StoreHistory where
  store := (past.store.perform request.1 request.2).2
  epoch := past.epoch + (past.store.perform request.1 request.2).1.renews.toNat
  services := past.services ++ (request.2.identifiers?.bind (past.store.serve? past.epoch)).toList

/-- What comes of requests to a store with this table. -/
def ofRequests (table : Table) (path : Option String) (requests : List (Files × StoreRequest)) :
    StoreHistory :=
  requests.foldl next (start table path)

/-- The services of this epoch. -/
def recent (past : StoreHistory) : List Service :=
  past.services.filter (·.epoch = past.epoch)

/-- What a store keeps is known from what it was asked for. -/
structure KeptAsAsked (past : StoreHistory) : Prop where
  /-- What the table has is handed out. -/
  served : ∀ identifiers, (past.store.rulesFor identifiers).answer.isSome =
    (past.store.table.lookup identifiers).isSome
  /-- One rule is kept for each text under the keys that were found in this epoch. -/
  count : past.store.cachedCount = (past.recent.flatMap (·.set.texts)).toFinset.card
  /-- A key has the same compiled rules from one table to the next. -/
  compiled : Identified Compiled.serial (past.services.map Service.handout)
  /-- The compiled rules have an object for each text of their rule set. -/
  complete : ∀ a ∈ past.services, a.rules.map (·.key) = a.set.texts ∧
    a.rules.map (·.object) = a.compiled.rules.map (·.2)
  /-- A text has the same rule from one table to the next, in whatever languages. -/
  shared : Identified CachedRule.serial (past.services.flatMap Service.rules)
  /-- A failure changes nothing. -/
  failures : ∀ request : Files × StoreRequest,
    (past.store.perform request.1 request.2).1.fails = true → past.next request = past

end StoreHistory

/-! ### Looking rules up -/

namespace Store

variable {s : Store} {identifiers : List String} {key : String} {set : RuleSet}

/-- The store behind rules that were compiled anew. -/
def keep (s : Store) (key : String) (set : RuleSet) : Store :=
  { s with
    cache := (s.cache.compile set).state
    compiled := s.compiled.insert key ⟨s.issued, (s.cache.compile set).answer⟩
    issued := s.issued + 1 }

theorem rulesFor_none (h : s.table.lookup identifiers = none) :
    s.rulesFor identifiers = ⟨none, s, []⟩ := by
  simp only [rulesFor, h]

theorem rulesFor_kept {c : Compiled} (h : s.table.lookup identifiers = some (key, set))
    (hkept : s.compiled.get? key = some c) : s.rulesFor identifiers = ⟨some c, s, []⟩ := by
  simp only [rulesFor, h, hkept]

theorem rulesFor_new (h : s.table.lookup identifiers = some (key, set))
    (hnew : s.compiled.get? key = none) :
    s.rulesFor identifiers = ⟨some ⟨s.issued, (s.cache.compile set).answer⟩, s.keep key set,
      .compiling key :: (s.cache.compile set).events⟩ := by
  simp only [rulesFor, h, hnew, keep]

theorem isSome_rulesFor (s : Store) (identifiers : List String) :
    (s.rulesFor identifiers).answer.isSome = (s.table.lookup identifiers).isSome := by
  cases hlookup : s.table.lookup identifiers with
  | none => rw [rulesFor_none hlookup]; rfl
  | some found =>
    obtain ⟨key, set⟩ := found
    cases hkept : s.compiled.get? key with
    | some c => rw [rulesFor_kept hlookup hkept]; rfl
    | none => rw [rulesFor_new hlookup hkept]; rfl

/-- A table that is loaded again is put in place of the other one. -/
theorem exists_of_reload {files : Files} {step : Step Store Nat} (h : s.reload files = .ok step) :
    ∃ table, step.state = { s.clear with table := table, path := s.path } := by
  unfold reload at h
  split at h
  · simp at h
  · split at h
    · simp at h
    · next table _ =>
      cases h
      exact ⟨table, rfl⟩

end Store

/-! ### Sound histories -/

namespace StoreHistory

variable {past : StoreHistory}

/-- The services of a store are right about what it keeps of compiled rules and of single ones. -/
structure Sound (past : StoreHistory) : Prop where
  compiled : Tracks Compiled.serial past.store.compiled past.store.issued past.epoch
    (past.services.map Service.handout)
  rules : past.store.cache.Tracked past.epoch (past.services.flatMap Service.rules)
  /-- In this epoch the rules under a key are those of the table. -/
  sets : ∀ a ∈ past.services, a.epoch = past.epoch → past.store.table.get? a.key = some a.set
  lengths : ∀ a ∈ past.services, a.compiled.rules.length = a.set.texts.length

theorem sound_start (table : Table) (path : Option String) : (start table path).Sound where
  compiled := .start _
  rules := .start _
  sets := by simp [start]
  lengths := by simp [start]

/-- A store that is asked for rules, and its services. -/
def serve (past : StoreHistory) (identifiers : List String) : StoreHistory where
  store := (past.store.rulesFor identifiers).state
  epoch := past.epoch
  services := past.services ++ (past.store.serve? past.epoch identifiers).toList

/-- A service that is on the list may as well be put there again. -/
theorem Sound.again (h : past.Sound) {a : Service} (ha : a ∈ past.services) :
    Sound { past with services := past.services ++ [a] } := by
  have hmem : ∀ b, b ∈ past.services ++ [a] ↔ b ∈ past.services := by
    intro b
    simp only [List.mem_append, List.mem_singleton, or_iff_left_iff_imp]
    rintro rfl
    exact ha
  refine ⟨?_, ?_, ?_, ?_⟩
  · apply h.compiled.congr
    simp only [List.mem_map, hmem, implies_true]
  · apply Tracks.congr h.rules
    simp only [List.mem_flatMap, hmem, implies_true]
  · intro b hb
    exact h.sets b ((hmem b).1 hb)
  · intro b hb
    exact h.lengths b ((hmem b).1 hb)

/-- Rules that are compiled anew are kept, and so are the single rules. -/
theorem Sound.new (h : past.Sound) {key : String} {set : RuleSet}
    (hset : past.store.table.get? key = some set) (hnew : past.store.compiled.get? key = none) :
    Sound ⟨past.store.keep key set, past.epoch, past.services ++
      [⟨past.epoch, key, set, past.store.issued, (past.store.cache.compile set).answer⟩]⟩ := by
  refine ⟨?_, ?_, ?_, ?_⟩
  · rw [List.map_append]
    exact h.compiled.new hnew rfl
  · rw [List.flatMap_append, List.flatMap_singleton]
    exact RuleCache.tracks_requestAll h.rules set.consulted
  · simp only [List.mem_append, List.mem_singleton]
    rintro a (ha | rfl) hepoch
    · exact h.sets a ha hepoch
    · exact hset
  · simp only [List.mem_append, List.mem_singleton]
    rintro a (ha | rfl)
    · exact h.lengths a ha
    · rw [RuleSet.texts, List.length_map]
      exact RuleCache.length_requestAll past.store.cache set.consulted

theorem sound_serve (h : past.Sound) (identifiers : List String) :
    (past.serve identifiers).Sound := by
  unfold serve Store.serve?
  cases hlookup : past.store.table.lookup identifiers with
  | none =>
    rw [Store.rulesFor_none hlookup]
    simpa using h
  | some found =>
    obtain ⟨key, set⟩ := found
    have hset : past.store.table.get? key = some set := Store.get?_of_lookup hlookup
    cases hkept : past.store.compiled.get? key with
    | some c =>
      -- the key was found before in this epoch, with the same rules in the table
      obtain ⟨a, ha, heq⟩ := List.mem_map.1 ((h.compiled.kept_iff key c).1 hkept)
      obtain ⟨epoch, key', set', c'⟩ := a
      obtain ⟨rfl, rfl, rfl⟩ := Handout.mk.inj heq
      obtain rfl : set' = set := Option.some.inj ((h.sets _ ha rfl).symm.trans hset)
      rw [Store.rulesFor_kept hlookup hkept]
      exact h.again ha
    | none =>
      rw [Store.rulesFor_new hlookup hkept]
      exact h.new hset hkept

/-- Another table, and nothing kept of the old one. -/
theorem sound_emptied (h : past.Sound) (table : Table) (path : Option String) :
    Sound ⟨{ past.store.clear with table := table, path := path }, past.epoch + 1,
      past.services⟩ where
  compiled := h.compiled.emptied
  rules := Tracks.emptied h.rules
  sets := by
    intro a ha hepoch
    have hle : a.epoch ≤ past.epoch := h.compiled.epoch_le _ (List.mem_map_of_mem ha)
    rw [hepoch] at hle
    exact absurd hle (Nat.not_succ_le_self past.epoch)
  lengths := h.lengths

/-- A language that is not found leaves everything as it is. -/
theorem serve_of_none {identifiers : List String}
    (h : (past.store.rulesFor identifiers).answer.isNone = true) :
    past.serve identifiers = past := by
  have hlookup : past.store.table.lookup identifiers = none := by
    rw [Option.isNone_iff_eq_none] at h
    rw [← Option.not_isSome_iff_eq_none, ← Store.isSome_rulesFor, h]
    simp
  simp [serve, Store.serve?, hlookup, Store.rulesFor_none hlookup]

/-- A failure is answered by the store as it is. -/
theorem next_of_fails {request : Files × StoreRequest}
    (hfails : (past.store.perform request.1 request.2).1.fails = true) :
    past.next request = past := by
  obtain ⟨files, request⟩ := request
  cases request with
  | build table path => simp [Store.perform, StoreAnswer.fails] at hfails
  | load path type =>
    cases hload : Store.load files path type with
    | error e => simp [next, Store.perform, StoreRequest.identifiers?, StoreAnswer.renews, hload]
    | ok loaded => simp [Store.perform, StoreAnswer.fails, hload] at hfails
  | replace table => simp [Store.perform, StoreAnswer.fails] at hfails
  | reload =>
    cases hreload : past.store.reload files with
    | error e =>
      simp [next, Store.perform, StoreRequest.identifiers?, StoreAnswer.renews, hreload]
    | ok step => simp [Store.perform, StoreAnswer.fails, hreload] at hfails
  | rulesFor identifiers => exact serve_of_none hfails
  | categoryFor identifiers o =>
    have hnone : (past.store.rulesFor identifiers).answer.isNone = true := by
      simpa [Store.perform, StoreAnswer.fails, Store.categoryFor] using hfails
    exact serve_of_none hnone

/-- Another table is answered by the store that serves it. -/
theorem next_of_renews {files : Files} {request : StoreRequest}
    (hlookup : request.identifiers? = none)
    (hrenews : (past.store.perform files request).1.renews = true) :
    past.next (files, request) =
      ⟨(past.store.perform files request).2, past.epoch + 1, past.services⟩ := by
  simp [next, hlookup, hrenews]

theorem sound_next (h : past.Sound) {request : Files × StoreRequest}
    (hstays : request.2.rebuilds request.1 = false) : (past.next request).Sound := by
  obtain ⟨files, request⟩ := request
  cases request with
  | build table path => simp [StoreRequest.rebuilds] at hstays
  | load path type =>
    rw [next_of_fails]
    · exact h
    · cases hload : Store.load files path type with
      | error e => simp [Store.perform, StoreAnswer.fails, hload]
      | ok loaded => simp [StoreRequest.rebuilds, Except.isOk, Except.toBool, hload] at hstays
  | replace table =>
    rw [next_of_renews rfl rfl]
    exact sound_emptied h table none
  | reload =>
    cases hreload : past.store.reload files with
    | error e =>
      rw [next_of_fails]
      · exact h
      · simp [Store.perform, StoreAnswer.fails, hreload]
    | ok step =>
      obtain ⟨table, hstate⟩ := Store.exists_of_reload hreload
      have hperform := Store.perform_reload_of_ok hreload
      rw [next_of_renews rfl (by rw [hperform]; rfl), hperform, hstate]
      exact sound_emptied h table past.store.path
  | rulesFor identifiers => exact sound_serve h identifiers
  | categoryFor identifiers o => exact sound_serve h identifiers

theorem sound_ofRequests (table : Table) (path : Option String)
    {requests : List (Files × StoreRequest)}
    (h : ∀ request ∈ requests, request.2.rebuilds request.1 = false) :
    (ofRequests table path requests).Sound :=
  List.foldlRecOn requests next (sound_start table path) fun _ hpast request hmem =>
    sound_next hpast (h request hmem)

/-! ### What a sound history tells -/

theorem Sound.complete (h : past.Sound) {a : Service} (ha : a ∈ past.services) :
    a.rules.map (·.key) = a.set.texts ∧ a.rules.map (·.object) = a.compiled.rules.map (·.2) := by
  have hlength : (a.compiled.rules.map (·.2)).length = a.set.texts.length :=
    (List.length_map _).trans (h.lengths a ha)
  exact ⟨map_key_ruleHandouts a.epoch hlength, map_object_ruleHandouts a.epoch hlength⟩

/-- The texts of this epoch are those that single rules were handed out for. -/
theorem Sound.mem_texts_iff (h : past.Sound) (text : String) :
    text ∈ past.recent.flatMap (·.set.texts) ↔
      ∃ r ∈ past.services.flatMap Service.rules, r.epoch = past.epoch ∧ r.key = text := by
  simp only [recent, List.mem_flatMap, List.mem_filter, decide_eq_true_iff]
  constructor
  · rintro ⟨a, ⟨ha, hepoch⟩, htext⟩
    rw [← (h.complete ha).1, List.mem_map] at htext
    obtain ⟨r, hr, hkey⟩ := htext
    exact ⟨r, ⟨a, ha, hr⟩, (epoch_of_mem_ruleHandouts hr).trans hepoch, hkey⟩
  · rintro ⟨r, ⟨a, ha, hr⟩, hepoch, hkey⟩
    refine ⟨a, ⟨ha, (epoch_of_mem_ruleHandouts hr).symm.trans hepoch⟩, ?_⟩
    rw [← (h.complete ha).1]
    exact List.mem_map.2 ⟨r, hr, hkey⟩

theorem Sound.keptAsAsked (h : past.Sound) : past.KeptAsAsked where
  served identifiers := Store.isSome_rulesFor past.store identifiers
  count := Tracks.size_eq h.rules h.mem_texts_iff
  compiled := h.compiled.identified
  complete _ ha := h.complete ha
  shared := Tracks.identified h.rules
  failures _ hfails := next_of_fails hfails

theorem keptAsAsked_ofRequests (table : Table) (path : Option String)
    (requests : List (Files × StoreRequest))
    (h : ∀ request ∈ requests, request.2.rebuilds request.1 = false) :
    (ofRequests table path requests).KeptAsAsked :=
  (sound_ofRequests table path h).keptAsAsked

/-- Two languages with a rule in common. -/
def specimenTable : Table :=
  ((Table.empty .cardinal).insert "en" ⟨[(.one, "i = 1 and v = 0"), (.other, "")]⟩).insert "pl"
    ⟨[(.one, "i = 1 and v = 0"), (.few, "v = 0 and i % 10 = 2..4")]⟩

/-- Both languages are asked for, one of them again and one that is not there; then the table is
replaced, which it cannot be from a file any more. -/
def specimen : List (Files × StoreRequest) :=
  [.rulesFor ["en-US"], .rulesFor ["tlh"], .categoryFor ["pl"] (.ofNat 3), .rulesFor ["xx", "en"],
    .replace specimenTable, .reload, .rulesFor ["pl"]].map fun request =>
      (fun _ => .error .notFound, request)

theorem keptAsAsked_specimen :
    (∀ request ∈ specimen, request.2.rebuilds request.1 = false) ∧
      (ofRequests specimenTable none specimen).KeptAsAsked ∧
      ((ofRequests specimenTable none specimen).services.map fun a =>
        (a.epoch, a.key, a.compiled.serial, a.compiled.rules.map (·.2.serial))) =
        [(0, "en", 0, [0]), (0, "pl", 1, [0, 1]), (0, "en", 0, [0]), (1, "pl", 2, [2, 3])] ∧
      (ofRequests specimenTable none specimen).store.cachedCount = 2 := by
  have hstays : ∀ request ∈ specimen, request.2.rebuilds request.1 = false := by
    decide
  refine ⟨hstays, keptAsAsked_ofRequests specimenTable none specimen hstays, ?_⟩
  decide +kernel

end StoreHistory

end PluralForms
