import PluralForms.Cache

/-!
# What a cache of rules answers

A cache may answer a request from what it has kept. It answers as if it kept nothing, because each
kept rule is the one that reading its text would give; the cache is then called *faithful*. An
empty cache is faithful, and answering a request keeps a cache so.

* `request_faithful`, `requestAll_faithful` - the answers are rules read afresh;
* `ofCached_compile` - what a rule set compiles to through a cache is what it compiles to.
-/

namespace PluralForms.RuleCache

/-- Every kept rule is the rule of its text. -/
def Faithful (cache : RuleCache) : Prop :=
  ∀ text cached, cache.rules.get? text = some cached → cached.rule = Rule.read text

theorem faithful_empty : empty.Faithful := by
  intro text cached h
  simp [empty] at h

theorem faithful_clear (cache : RuleCache) : cache.clear.Faithful := by
  intro text cached h
  simp [clear] at h

variable {cache : RuleCache}

theorem request_faithful (h : cache.Faithful) (text : String) :
    (cache.request text).answer.rule = Rule.read text ∧ (cache.request text).state.Faithful := by
  unfold request
  cases hfound : cache.rules.get? text with
  | some cached => exact ⟨h text cached hfound, h⟩
  | none =>
    refine ⟨rfl, ?_⟩
    intro text' cached' hget
    rw [Dictionary.get?_insert] at hget
    split at hget
    · next heq =>
      cases hget
      rw [heq]
    · exact h text' cached' hget

/-- Requests one after another are answered in order, and leave a faithful cache. -/
theorem requestAll_faithful (h : cache.Faithful) (rules : List (Category × String)) :
    (cache.requestAll rules).answer.map (fun entry => (entry.1, entry.2.rule)) =
        rules.map (fun entry => (entry.1, Rule.read entry.2)) ∧
      (cache.requestAll rules).state.Faithful := by
  induction rules generalizing cache with
  | nil => exact ⟨rfl, h⟩
  | cons entry rules ih =>
    obtain ⟨category, text⟩ := entry
    obtain ⟨hanswer, hstate⟩ := request_faithful h text
    obtain ⟨hanswers, hlast⟩ := ih hstate
    refine ⟨?_, hlast⟩
    show (category, (cache.request text).answer.rule) :: _ = (category, Rule.read text) :: _
    rw [hanswer]
    exact congrArg _ hanswers

theorem faithful_compile (h : cache.Faithful) (set : RuleSet) :
    (cache.compile set).state.Faithful :=
  (requestAll_faithful h set.consulted).2

theorem ofCached_compile (h : cache.Faithful) (set : RuleSet) :
    Classifier.ofCached (cache.compile set).answer = set.compile :=
  congrArg Classifier.mk (requestAll_faithful h set.consulted).1

end PluralForms.RuleCache
