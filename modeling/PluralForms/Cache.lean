import PluralForms.Classifier
import PluralForms.Dictionary

/-!
# Caching read rules

Many languages share rule texts, so a rule is read once for each text and kept. What is handed out
for a text is the same object until the cache is cleared; an object is known by its serial number,
and no number is given twice.

* `RuleCache.request` - the object of a text, which is read if it is not there yet;
* `RuleCache.compile` - the objects of a rule set, in order.
-/

namespace PluralForms

/-- What an operation answers, the state it leaves and what there is to tell about it. -/
structure Step (σ α : Type) where
  answer : α
  state : σ
  events : List Event

/-- A rule that was read, and its serial number. -/
structure CachedRule where
  serial : Nat
  rule : Rule
  deriving DecidableEq, Repr

/-- The rules that were read, under their texts, and how many numbers were given out. -/
structure RuleCache where
  rules : Dictionary CachedRule
  issued : Nat

namespace RuleCache

def empty : RuleCache := ⟨.empty, 0⟩

/-- How many texts have been read since the cache was last cleared. -/
def size (cache : RuleCache) : Nat := cache.rules.size

def isEmpty (cache : RuleCache) : Bool := cache.size == 0

/-- Forget every rule; numbers already given stay given. -/
def clear (cache : RuleCache) : RuleCache := { cache with rules := .empty }

/-- The object of a text. -/
def request (cache : RuleCache) (text : String) : Step RuleCache CachedRule :=
  match cache.rules.get? text with
  | some cached => ⟨cached, cache, []⟩
  | none =>
    let cached := ⟨cache.issued, Rule.read text⟩
    ⟨cached, ⟨cache.rules.insert text cached, cache.issued + 1⟩, Rule.events text⟩

/-- The objects of labelled texts, in order. -/
def requestAll (cache : RuleCache) :
    List (Category × String) → Step RuleCache (List (Category × CachedRule))
  | [] => ⟨[], cache, []⟩
  | (category, text) :: rules =>
    let first := cache.request text
    let others := first.state.requestAll rules
    ⟨(category, first.answer) :: others.answer, others.state, first.events ++ others.events⟩

/-- The objects of the rules that a rule set has tried. -/
def compile (cache : RuleCache) (set : RuleSet) :
    Step RuleCache (List (Category × CachedRule)) :=
  let step := cache.requestAll set.consulted
  { step with events := step.events ++ [.compiled set.consulted.length] }

end RuleCache

/-- The classifier of cached rules. -/
def Classifier.ofCached (rules : List (Category × CachedRule)) : Classifier :=
  ⟨rules.map fun (category, cached) => (category, cached.rule)⟩

end PluralForms
