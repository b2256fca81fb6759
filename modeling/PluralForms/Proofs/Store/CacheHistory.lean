import PluralForms.Proofs.Store.Cache
import PluralForms.Proofs.Store.Handouts

/-!
# What a cache of rules shows of itself

A cache is asked for single rules and for the rules of whole rule sets, and it is cleared now and
then. Beside it a list is kept of the texts it was asked for and of the objects it gave for them,
so that one can say what a run of requests brings about:

    transparent_ofRequests : what is read and compiled is what would be read and compiled without a
      cache; that there is one shows only in which objects are the same, in how many rules are kept
      and in the events, which are those of the texts that were not asked for since the last clear.

Both the answers to a rule set and its events come from asking for one text after another, so they
are proved for a list of texts, by induction on it (`tracks_requestAll`, `events_requestAll`).
-/

namespace PluralForms

/-- The texts that a rule set needs read. -/
def RuleSet.texts (set : RuleSet) : List String := set.consulted.map (·.2)

/-- Objects as they are handed out for texts, one for each. -/
def ruleHandouts (epoch : Nat) (texts : List String) (rules : List CachedRule) :
    List (Handout CachedRule) :=
  (texts.zip rules).map fun (text, rule) => ⟨epoch, text, rule⟩

theorem map_key_ruleHandouts (epoch : Nat) {texts : List String} {rules : List CachedRule}
    (h : rules.length = texts.length) :
    (ruleHandouts epoch texts rules).map (·.key) = texts := by
  unfold ruleHandouts
  rw [List.map_map]
  exact List.map_fst_zip (Nat.le_of_eq h.symm)

theorem map_object_ruleHandouts (epoch : Nat) {texts : List String} {rules : List CachedRule}
    (h : rules.length = texts.length) :
    (ruleHandouts epoch texts rules).map (·.object) = rules := by
  unfold ruleHandouts
  rw [List.map_map]
  exact List.map_snd_zip (Nat.le_of_eq h)

theorem epoch_of_mem_ruleHandouts {epoch : Nat} {texts : List String} {rules : List CachedRule}
    {r : Handout CachedRule} (h : r ∈ ruleHandouts epoch texts rules) : r.epoch = epoch := by
  obtain ⟨entry, -, rfl⟩ := List.mem_map.1 h
  rfl

/-! ### Requests -/

/-- What a cache of rules may be asked to do. -/
inductive CacheRequest
  | read (text : String)
  | compile (set : RuleSet)
  | clear

/-- The texts that are asked for. -/
def CacheRequest.texts : CacheRequest → List String
  | read text => [text]
  | compile set => set.texts
  | clear => []

/-- The number of clears. -/
def CacheRequest.clears : CacheRequest → Nat
  | clear => 1
  | _ => 0

/-- The objects that are given for the texts, and the cache behind the request. -/
def RuleCache.perform (cache : RuleCache) : CacheRequest → List CachedRule × RuleCache
  | .read text => ([(cache.request text).answer], (cache.request text).state)
  | .compile set => ((cache.compile set).answer.map (·.2), (cache.compile set).state)
  | .clear => ([], cache.clear)

/-- A cache, how often it was cleared, and what it has handed out. -/
structure CacheHistory where
  cache : RuleCache
  epoch : Nat
  handouts : List (Handout CachedRule)

namespace CacheHistory

/-- A cache that has not been asked for anything. -/
def start : CacheHistory := ⟨.empty, 0, []⟩

def next (past : CacheHistory) (request : CacheRequest) : CacheHistory where
  cache := (past.cache.perform request).2
  epoch := past.epoch + request.clears
  handouts := past.handouts ++
    ruleHandouts past.epoch request.texts (past.cache.perform request).1

/-- What comes of requests to an empty cache. -/
def ofRequests (requests : List CacheRequest) : CacheHistory := requests.foldl next start

/-- The texts that were asked for since the last clear. -/
def recent (past : CacheHistory) : List String :=
  (past.handouts.filter (·.epoch = past.epoch)).map (·.key)

/-- Nothing that is read or compiled tells of the cache; which objects are the same, how many there
are and what is told of reading them are known from what it was asked for. -/
structure Transparent (past : CacheHistory) : Prop where
  read : ∀ text, (past.cache.request text).answer.rule = Rule.read text
  compile : ∀ set, Classifier.ofCached (past.cache.compile set).answer = set.compile
  /-- There is an object for each text. -/
  answered : ∀ request, (past.cache.perform request).1.length = request.texts.length
  /-- A text has one object from one clear to the next. -/
  identified : Identified CachedRule.serial past.handouts
  size : past.cache.size = past.recent.toFinset.card
  /-- Each text that is new is told about once. -/
  events : ∀ set : RuleSet, (past.cache.compile set).events =
    (set.texts.filter (· ∉ past.recent)).eraseDups.flatMap Rule.events ++
      [.compiled set.consulted.length]

end CacheHistory

/-! ### Texts, one after another -/

namespace RuleCache

variable {cache : RuleCache} {epoch : Nat} {handouts : List (Handout CachedRule)}

/-- The list of handouts is right about the cache. -/
def Tracked (cache : RuleCache) (epoch : Nat) (handouts : List (Handout CachedRule)) : Prop :=
  Tracks CachedRule.serial cache.rules cache.issued epoch handouts

theorem tracks_request (h : cache.Tracked epoch handouts) (text : String) :
    (cache.request text).state.Tracked epoch
      (handouts ++ [⟨epoch, text, (cache.request text).answer⟩]) := by
  unfold request
  cases hfound : cache.rules.get? text with
  | some cached => exact h.again hfound
  | none => exact h.new hfound rfl

theorem tracks_requestAll (h : cache.Tracked epoch handouts) (rules : List (Category × String)) :
    (cache.requestAll rules).state.Tracked epoch (handouts ++
      ruleHandouts epoch (rules.map (·.2)) ((cache.requestAll rules).answer.map (·.2))) := by
  induction rules generalizing cache handouts with
  | nil => simpa [ruleHandouts, requestAll] using h
  | cons rule rules ih =>
    obtain ⟨category, text⟩ := rule
    have hothers := ih (tracks_request h text)
    rw [List.append_assoc] at hothers
    exact hothers

theorem length_requestAll (cache : RuleCache) (rules : List (Category × String)) :
    (cache.requestAll rules).answer.length = rules.length := by
  induction rules generalizing cache with
  | nil => rfl
  | cons rule rules ih => exact congrArg Nat.succ (ih (cache.request rule.2).state)

/-- The texts that are not kept yet, each once. -/
def unread (cache : RuleCache) (texts : List String) : List String :=
  (texts.filter fun text => (cache.rules.get? text).isNone).eraseDups

theorem unread_cons_of_some {text : String} {cached : CachedRule}
    (h : cache.rules.get? text = some cached) (texts : List String) :
    cache.unread (text :: texts) = cache.unread texts := by
  simp [unread, h]

/-- A text that is read is not read again further on. -/
theorem unread_cons_of_none {text : String} (h : cache.rules.get? text = none)
    (texts : List String) :
    cache.unread (text :: texts) = text :: (cache.request text).state.unread texts := by
  have hstate : ∀ other, ((cache.request text).state.rules.get? other).isNone =
      (!(other == text) && (cache.rules.get? other).isNone) := by
    intro other
    simp only [request, h, Dictionary.get?_insert]
    by_cases hother : other = text
    · simp [hother]
    · simp [hother]
  simp [unread, h, hstate, List.eraseDups_cons, List.filter_filter]

theorem events_requestAll (cache : RuleCache) (rules : List (Category × String)) :
    (cache.requestAll rules).events =
      (cache.unread (rules.map (·.2))).flatMap Rule.events := by
  induction rules generalizing cache with
  | nil => rfl
  | cons rule rules ih =>
    obtain ⟨category, text⟩ := rule
    show (cache.request text).events ++ ((cache.request text).state.requestAll rules).events = _
    rw [ih, List.map_cons]
    cases hfound : cache.rules.get? text with
    | some cached =>
      have hrequest : cache.request text = ⟨cached, cache, []⟩ := by
        simp only [request, hfound]
      rw [unread_cons_of_some hfound, hrequest, List.nil_append]
    | none =>
      have hevents : (cache.request text).events = Rule.events text := by
        simp only [request, hfound]
      rw [unread_cons_of_none hfound, hevents, List.flatMap_cons]

end RuleCache

/-! ### Runs -/

namespace CacheHistory

variable {past : CacheHistory}

/-- What is kept is right, and so is the list of what was handed out. -/
structure Sound (past : CacheHistory) : Prop where
  faithful : past.cache.Faithful
  tracked : past.cache.Tracked past.epoch past.handouts

theorem sound_start : start.Sound where
  faithful := RuleCache.faithful_empty
  tracked := .start _

theorem sound_next (h : past.Sound) (request : CacheRequest) : (past.next request).Sound := by
  cases request with
  | read text =>
    exact ⟨(RuleCache.request_faithful h.faithful text).2, RuleCache.tracks_request h.tracked text⟩
  | compile set =>
    exact ⟨RuleCache.faithful_compile h.faithful set,
      RuleCache.tracks_requestAll h.tracked set.consulted⟩
  | clear =>
    refine ⟨RuleCache.faithful_clear past.cache, ?_⟩
    have hempty := Tracks.emptied h.tracked
    rw [← List.append_nil past.handouts] at hempty
    exact hempty

theorem sound_ofRequests (requests : List CacheRequest) : (ofRequests requests).Sound :=
  List.foldlRecOn requests next sound_start fun _ h request _ => sound_next h request

theorem mem_recent_iff {text : String} :
    text ∈ past.recent ↔ ∃ a ∈ past.handouts, a.epoch = past.epoch ∧ a.key = text := by
  simp [recent, and_assoc]

/-- The texts that are kept are those that were asked for since the last clear. -/
theorem isNone_get?_iff (h : past.Sound) (text : String) :
    (past.cache.rules.get? text).isNone = true ↔ text ∉ past.recent := by
  rw [mem_recent_iff, ← Tracks.mem_keys_iff h.tracked, Dictionary.mem_keys_iff,
    Option.isNone_iff_eq_none, Option.eq_none_iff_forall_ne_some, not_exists]

theorem Sound.transparent (h : past.Sound) : past.Transparent where
  read text := (RuleCache.request_faithful h.faithful text).1
  compile set := RuleCache.ofCached_compile h.faithful set
  answered := by
    intro request
    cases request with
    | read text => rfl
    | compile set =>
      simp only [RuleCache.perform, CacheRequest.texts, RuleSet.texts, List.length_map]
      exact RuleCache.length_requestAll past.cache set.consulted
    | clear => rfl
  identified := Tracks.identified h.tracked
  size := Tracks.size_eq h.tracked fun _ => mem_recent_iff
  events := by
    intro set
    have hunread : past.cache.unread set.texts =
        (set.texts.filter (· ∉ past.recent)).eraseDups := by
      unfold RuleCache.unread
      congr 2
      funext text
      rw [Bool.eq_iff_iff, isNone_get?_iff h, decide_eq_true_iff]
    rw [← hunread]
    show (past.cache.requestAll set.consulted).events ++ _ = _
    rw [RuleCache.events_requestAll]
    rfl

/-- Whatever a cache was asked for, it shows in the same few ways that there is a cache. -/
theorem transparent_ofRequests (requests : List CacheRequest) :
    (ofRequests requests).Transparent :=
  (sound_ofRequests requests).transparent

end CacheHistory

end PluralForms
