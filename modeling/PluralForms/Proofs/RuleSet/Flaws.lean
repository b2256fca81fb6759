import PluralForms.Classifier
import PluralForms.Proofs.Clause.Reading
import PluralForms.Proofs.Rule.RoundTrip

/-!
# Three reports of flawed clauses

A clause that cannot be read, or that compares what is no operand, is flawed: it holds of no number.
Flawed clauses are reported in three places, each of which goes through the rules by itself: as
events while the rules are compiled, as warnings when they are validated, and as clauses without a
value when a classification is explained. The reports are made from one list, `RuleSet.flaws`, which
is read off the texts of the rules:

    reports_agree : each report is that list, item by item

So a clause has a value for all numbers or for none, and a rule set without warnings has a value for
each clause and each number.
-/

namespace PluralForms

/-! ### Flaws -/

/-- Why a clause holds of no number. -/
inductive Flaw
  | unreadable (error : ClauseError)
  /-- The symbol of the relation names no operand. -/
  | noOperand (r : Relation)

/-- The flaw of a clause, if it has one. -/
def Flaw.ofChars? (cs : List Char) : Option Flaw :=
  match Relation.readChars cs with
  | .error e => some (.unreadable e)
  | .ok r => if r.operand?.isNone then some (.noOperand r) else none

/-- A flawed clause of the rule of a category, without the blanks around it. -/
structure FlawedClause where
  category : Category
  text : String
  flaw : Flaw

/-- The flawed clause that a clause of the category's rule is, if it is one. -/
def FlawedClause.ofChars? (category : Category) (cs : List Char) : Option FlawedClause :=
  (Flaw.ofChars? cs).map fun flaw => ⟨category, String.ofList (Text.trim cs), flaw⟩

namespace FlawedClause

/-- The event that tells of the clause. -/
def event : FlawedClause → Event
  | ⟨_, text, .unreadable e⟩ => .brokenClause text e
  | ⟨_, text, .noOperand r⟩ => .unknownOperand text r.symbol

/-- The warning about the clause. -/
def warning (language : String) : FlawedClause → Warning
  | ⟨category, text, .unreadable e⟩ => .brokenClause language category text e.message
  | ⟨category, _, .noOperand r⟩ => .unknownOperand language category r.symbol

/-- How the clause fares with any number. -/
def trace : FlawedClause → Category × ClauseTrace
  | ⟨category, text, .unreadable _⟩ => (category, ⟨text, none, false⟩)
  | ⟨category, _, .noOperand r⟩ => (category, ⟨r.render, none, false⟩)

end FlawedClause

/-- The clauses of a rule's text, in order. -/
def Rule.clauseTexts (text : String) : List (List Char) :=
  (Condition.clauseTexts (conditionText text.toList)).flatten

/-- The flawed clauses of the rules that are tried, in order. -/
def RuleSet.flaws (set : RuleSet) : List FlawedClause :=
  set.consulted.flatMap fun (category, text) =>
    (Rule.clauseTexts text).filterMap (FlawedClause.ofChars? category)

/-! ### One clause -/

/-- Does the event tell of a clause? -/
def Event.isAboutClause : Event → Bool
  | .unknownOperand .. | .brokenClause .. => true
  | _ => false

/-- Is the number lacking that the clause compares? -/
def ClauseTrace.isUndetermined (t : ClauseTrace) : Bool := t.value.isNone

section Clause

variable (category : Category) (cs : List Char)

theorem clauseEvents_eq :
    Clause.events cs = ((FlawedClause.ofChars? category cs).map FlawedClause.event).toList := by
  unfold Clause.events FlawedClause.ofChars? Flaw.ofChars?
  cases Relation.readChars cs with
  | error e => rfl
  | ok r =>
    dsimp only
    split <;> rfl

theorem clauseWarning_read (language : String) :
    RuleSet.clauseWarning language category (Clause.read cs) =
      (FlawedClause.ofChars? category cs).map (FlawedClause.warning language) := by
  unfold Clause.read FlawedClause.ofChars? Flaw.ofChars?
  cases Relation.readChars cs with
  | error e => rfl
  | ok r =>
    simp only [RuleSet.clauseWarning]
    split <;> rfl

/-- A relation that was read has a value, unless its symbol names no operand: its modulus is not
zero. -/
theorem value_eq_none_iff {r : Relation} (h : Relation.readChars cs = .ok r) (o : Operands) :
    r.value o = none ↔ r.operand? = none := by
  have hmodulus : r.modulus ≠ some 0 := (Relation.readChars_eq_ok_iff.1 h).2.1
  unfold Relation.value
  cases r.operand? with
  | none => simp
  | some operand =>
    rw [Option.bind_some, Operands.reduced_eq_none_iff]
    simp [hmodulus]

theorem filter_trace_read (o : Operands) :
    [(category, (Clause.read cs).trace o)].filter (·.2.isUndetermined) =
      ((FlawedClause.ofChars? category cs).map FlawedClause.trace).toList := by
  unfold Clause.read FlawedClause.ofChars? Flaw.ofChars?
  cases hread : Relation.readChars cs with
  | error e => rfl
  | ok r =>
    show [(category, ClauseTrace.mk r.render (r.value o) (r.holds o))].filter _ = _
    cases hoperand : r.operand? with
    | none =>
      have hvalue : r.value o = none := (value_eq_none_iff cs hread o).2 hoperand
      have hholds : r.holds o = false := by
        unfold Relation.holds
        rw [hvalue]
        rfl
      rw [hvalue, hholds]
      simp [ClauseTrace.isUndetermined, hoperand, FlawedClause.trace]
    | some operand =>
      have hvalue : r.value o ≠ none := by
        rw [Ne, value_eq_none_iff cs hread o, hoperand]
        exact Option.some_ne_none operand
      obtain ⟨x, hx⟩ := Option.ne_none_iff_exists'.1 hvalue
      simp [ClauseTrace.isUndetermined, hoperand, hx]

/-- Whether the number is lacking is no matter of the number. -/
theorem isUndetermined_trace_read (o : Operands) :
    ((Clause.read cs).trace o).isUndetermined = (Flaw.ofChars? cs).isSome := by
  have h := congrArg List.length (filter_trace_read .other cs o)
  unfold FlawedClause.ofChars? at h
  generalize Flaw.ofChars? cs = found at h ⊢
  cases found with
  | none => simpa using h
  | some flaw =>
    rw [Option.isSome_some, ← Bool.not_eq_false]
    intro hvalue
    simp [hvalue] at h

end Clause

/-! ### The clauses of a rule -/

theorem Condition.clauses_readChars (cs : List Char) :
    (Condition.readChars cs).clauses = (Condition.clauseTexts cs).flatten.map Clause.read := by
  unfold Condition.readChars
  split
  · next hnil =>
    rw [hnil]
    rfl
  · show List.flatMap Group.clauses (List.map _ _) = _
    rw [List.flatMap_map, List.map_flatten, List.flatMap_def]

theorem Condition.trace_clauses (o : Operands) (condition : Condition) :
    (condition.trace o).flatMap (·.clauses) = condition.clauses.map (Clause.trace o) := by
  cases condition with
  | always => rfl
  | anyOf groups =>
    unfold Condition.trace Condition.clauses
    rw [List.flatMap_map, List.map_flatMap]
    rfl

theorem Rule.clauses_read (text : String) :
    (Rule.read text).condition.clauses = (Rule.clauseTexts text).map Clause.read := by
  unfold Rule.read Rule.readChars
  rw [Rule.condition_foldl, Condition.clauses_readChars]
  rfl

theorem Event.isAboutClause_event (clause : FlawedClause) : clause.event.isAboutClause = true := by
  obtain ⟨category, text, flaw⟩ := clause
  cases flaw <;> rfl

/-- The sections of a rule are told of by other events. -/
theorem Rule.filter_events (category : Category) (text : String) :
    (Rule.events text).filter Event.isAboutClause =
      ((Rule.clauseTexts text).filterMap (FlawedClause.ofChars? category)).map
        FlawedClause.event := by
  have hsections : (Rule.sectionEvents text.toList).filter Event.isAboutClause = [] := by
    rw [List.filter_eq_nil_iff]
    intro event hevent
    obtain ⟨sec, -, hsec⟩ := List.mem_filterMap.1 hevent
    cases sec with
    | unknown text =>
      cases hsec
      exact Bool.false_ne_true
    | integer samples => cases hsec
    | decimal samples => cases hsec
  have hclauses : Condition.eventsOfChars (conditionText text.toList) =
      (Rule.clauseTexts text).flatMap fun cs =>
        ((FlawedClause.ofChars? category cs).map FlawedClause.event).toList := by
    unfold Condition.eventsOfChars Rule.clauseTexts
    rw [← List.flatMap_id, List.flatMap_assoc, ← funext (clauseEvents_eq category)]
    rfl
  unfold Rule.events
  rw [List.filter_append, hsections, List.nil_append, hclauses, ← List.filterMap_eq_flatMap_toList,
    ← List.map_filterMap, List.filter_eq_self]
  intro event hevent
  obtain ⟨clause, -, rfl⟩ := List.mem_map.1 hevent
  exact Event.isAboutClause_event clause

/-! ### The three reports -/

/-- All clauses of an explanation in order, each with the category of its rule. -/
def Explanation.clauses (e : Explanation) : List (Category × ClauseTrace) :=
  e.rules.flatMap fun rule => (rule.groups.flatMap (·.clauses)).map fun t => (rule.category, t)

namespace RuleSet

variable (set : RuleSet)

theorem filter_compileEvents :
    set.compileEvents.filter Event.isAboutClause = set.flaws.map FlawedClause.event := by
  have hcount : [Event.compiled set.consulted.length].filter Event.isAboutClause = [] := rfl
  unfold compileEvents flaws
  rw [List.filter_append, hcount, List.append_nil, List.filter_flatMap, List.map_flatMap]
  apply List.flatMap_congr
  rintro ⟨category, text⟩ -
  exact Rule.filter_events category text

/-- The warnings about the rule of a category are about that category. -/
theorem category?_of_mem {language : String} {category : Category} {text : String}
    {warning : Warning} (h : warning ∈ ((Rule.clauseTexts text).filterMap
      (FlawedClause.ofChars? category)).map (FlawedClause.warning language)) :
    warning.category? = some category := by
  obtain ⟨clause, hclause, rfl⟩ := List.mem_map.1 h
  obtain ⟨cs, -, hcs⟩ := List.mem_filterMap.1 hclause
  obtain ⟨flaw, -, rfl⟩ := Option.map_eq_some_iff.1 hcs
  cases flaw <;> rfl

theorem filter_validate (language : String) :
    (set.validate language).filter (·.category? ≠ some .other) =
      set.flaws.map (FlawedClause.warning language) := by
  obtain ⟨rules⟩ := set
  unfold validate flaws consulted
  dsimp only
  induction rules with
  | nil => rfl
  | cons rule rules ih =>
    obtain ⟨category, text⟩ := rule
    have hwarnings :
        (Rule.read text).condition.clauses.filterMap (clauseWarning language category) =
          ((Rule.clauseTexts text).filterMap (FlawedClause.ofChars? category)).map
            (FlawedClause.warning language) := by
      rw [Rule.clauses_read, List.filterMap_map, List.map_filterMap,
        ← funext (clauseWarning_read category · language)]
      rfl
    rw [List.flatMap_cons, List.filter_append, ih, hwarnings]
    by_cases hother : category = .other
    · rw [List.filter_eq_nil_iff.2 fun warning h => by simp [category?_of_mem h, hother]]
      simp [hother]
    · rw [List.filter_eq_self.2 fun warning h => by simp [category?_of_mem h, hother]]
      simp [hother]

theorem clauses_explain (o : Operands) :
    (set.compile.explain o).clauses = set.consulted.flatMap fun (category, text) =>
      (Rule.clauseTexts text).map fun cs => (category, (Clause.read cs).trace o) := by
  unfold Explanation.clauses Classifier.explain compile
  dsimp only
  rw [List.map_map, List.flatMap_map]
  apply List.flatMap_congr
  rintro ⟨category, text⟩ -
  dsimp only [Function.comp_apply]
  rw [Condition.trace_clauses, Rule.clauses_read, List.map_map, List.map_map]
  rfl

theorem filter_explain (o : Operands) :
    (set.compile.explain o).clauses.filter (·.2.isUndetermined) =
      set.flaws.map FlawedClause.trace := by
  unfold flaws
  rw [clauses_explain, List.filter_flatMap, List.map_flatMap]
  apply List.flatMap_congr
  rintro ⟨category, text⟩ -
  dsimp only
  rw [List.map_eq_flatMap, List.filter_flatMap, List.map_filterMap,
    List.filterMap_eq_flatMap_toList]
  simp only [filter_trace_read]

theorem undetermined_explain (o : Operands) :
    (set.compile.explain o).clauses.map (·.2.isUndetermined) =
      set.consulted.flatMap fun (_, text) =>
        (Rule.clauseTexts text).map fun cs => (Flaw.ofChars? cs).isSome := by
  rw [clauses_explain, List.map_flatMap]
  apply List.flatMap_congr
  rintro ⟨category, text⟩ -
  dsimp only
  rw [List.map_map]
  apply List.map_congr_left
  intro cs _
  exact isUndetermined_trace_read cs o

/-- The events about clauses, the warnings about rules that are tried, and the clauses of an
explanation that lack a value are the flawed clauses, in the same order. So whether a clause has a
value is no matter of the number, and without such warnings each clause has one. -/
theorem reports_agree (set : RuleSet) (language : String) (o : Operands) :
    set.compileEvents.filter Event.isAboutClause = set.flaws.map FlawedClause.event ∧
      (set.validate language).filter (·.category? ≠ some .other) =
        set.flaws.map (FlawedClause.warning language) ∧
      (set.compile.explain o).clauses.filter (·.2.isUndetermined) =
        set.flaws.map FlawedClause.trace ∧
      (∀ o', (set.compile.explain o').clauses.map (·.2.isUndetermined) =
        (set.compile.explain o).clauses.map (·.2.isUndetermined)) ∧
      ((set.validate language).filter (·.category? ≠ some .other) = [] →
        ∀ o', ∀ t ∈ (set.compile.explain o').clauses, t.2.isUndetermined = false) := by
  refine ⟨set.filter_compileEvents, set.filter_validate language, set.filter_explain o,
    fun o' => ?_, fun hnone o' t ht => ?_⟩
  · rw [undetermined_explain, undetermined_explain]
  · rw [filter_validate, List.map_eq_nil_iff] at hnone
    have hnil := set.filter_explain o'
    rw [hnone, List.map_nil, List.filter_eq_nil_iff] at hnil
    simpa using hnil t ht

/-- Two rules that are tried, with nothing wrong, in front of one that is never tried. -/
def untriedFlaw : RuleSet :=
  ⟨[(.one, "i = 1 and v = 0"), (.few, "n % 10 = 2..4 or f != 0"), (.other, "x is 1")]⟩

theorem reports_agree_untriedFlaw :
    (untriedFlaw.validate "xx").length = 1 ∧
      (untriedFlaw.validate "xx").filter (·.category? ≠ some .other) = [] ∧
      ∀ o, ∀ t ∈ (untriedFlaw.compile.explain o).clauses, t.2.isUndetermined = false := by
  have hnone : (untriedFlaw.validate "xx").filter (·.category? ≠ some .other) = [] := by
    decide +kernel
  obtain ⟨-, -, -, -, hdetermined⟩ := reports_agree untriedFlaw "xx" (Operands.ofNat 0)
  exact ⟨by decide +kernel, hnone, hdetermined hnone⟩

end RuleSet

end PluralForms
