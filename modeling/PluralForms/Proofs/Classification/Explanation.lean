import PluralForms.Proofs.Condition.Rereading
import PluralForms.Proofs.RuleSet.Flaws

/-!
# What an explanation tells

An explanation is made by walks of its own: through the rules for the verdicts, through the groups
and clauses for the traces, and through the condition for its text. It is *truthful* if all of these
agree with each other and with the rules, which can be seen from the explanation alone: a clause is
recorded with its text, and the relation that this text reads as has the recorded value and gives
the recorded verdict.

* `ClauseTrace.Truthful`, `GroupTrace.Truthful`, `RuleTrace.Truthful`, `Explanation.Truthful` - what
  the traces have to say, level by level;
* `explain_truthful` - every explanation is truthful.
-/

namespace PluralForms

/-- The value is that of the relation which the recorded text reads as, and the clause holds just if
there is such a value and the relation accepts it. -/
structure ClauseTrace.Truthful (o : Operands) (t : ClauseTrace) : Prop where
  value : t.value = (Relation.read t.clause).toOption.bind (·.value o)
  holds_iff : t.holds = true ↔
    ∃ r x, Relation.read t.clause = .ok r ∧ t.value = some x ∧ r.accepts x = true

/-- A group holds just if all its clauses do. -/
structure GroupTrace.Truthful (o : Operands) (t : GroupTrace) : Prop where
  holds_iff : t.holds = true ↔ ∀ clause ∈ t.clauses, clause.holds = true
  clauses : ∀ clause ∈ t.clauses, clause.Truthful o

/-- The text of a group as its clauses are recorded. -/
def GroupTrace.text (t : GroupTrace) : String := " and ".intercalate (t.clauses.map (·.clause))

/-- The rule of a category is told of: its condition, clause by clause, its verdict, and why. -/
structure RuleTrace.Truthful (o : Operands) (category : Category) (text : String)
    (t : RuleTrace) : Prop where
  category : t.category = category
  verdict : t.holds = (Rule.read text).condition.holds o
  condition : t.condition = (Rule.read text).condition.render
  /-- A trace for each clause of the text, in its group and in order. -/
  clauses : t.groups.map (·.clauses.map (·.clause.toList)) =
    (Condition.clauseTexts (Rule.conditionText text.toList)).map (·.map Clause.canonical)
  joined : t.condition = " or ".intercalate (t.groups.map GroupTrace.text)
  /-- The empty condition is the one that always holds. -/
  always_iff : t.condition = "" ↔ (Rule.read text).condition = .always
  holds_iff : t.holds = true ↔ t.condition = "" ∨ ∃ group ∈ t.groups, group.holds = true
  groups : ∀ group ∈ t.groups, group.Truthful o

/-- Of each rule that is tried there is a trace, in declared order, and the category is that of the
first which holds. -/
structure Explanation.Truthful (set : RuleSet) (o : Operands) (e : Explanation) : Prop where
  operands : e.operands = o
  category : e.category = set.compile.classify o
  first : e.category = ((e.rules.find? (·.holds)).map (·.category)).getD .other
  rules : List.Forall₂ (fun rule t => t.Truthful o rule.1 rule.2)
    (set.rules.filter (·.1 ≠ .other)) e.rules

/-! ### Clauses and groups -/

section

variable (o : Operands)

theorem truthful_clauseTrace (cs : List Char) : ((Clause.read cs).trace o).Truthful o := by
  cases hread : Relation.readChars cs with
  | ok r =>
    rw [Clause.read_of_ok hread]
    have hagain : Relation.read r.render = .ok r :=
      Relation.readChars_render (Relation.wellFormed_of_readChars hread)
    constructor
    · show r.value o = (Relation.read r.render).toOption.bind (·.value o)
      rw [hagain]
      rfl
    · show r.holds o = true ↔ ∃ r' x, Relation.read r.render = .ok r' ∧ r.value o = some x ∧ _
      rw [hagain]
      unfold Relation.holds
      cases r.value o <;> simp
  | error e =>
    rw [Clause.read_of_error hread]
    have hagain : ∀ r, Relation.read (String.ofList (Text.trim cs)) ≠ .ok r := by
      intro r h
      unfold Relation.read at h
      rw [String.toList_ofList, Clause.readChars_trim_eq_ok_iff, hread] at h
      cases h
    constructor
    · show none = (Relation.read (String.ofList (Text.trim cs))).toOption.bind (·.value o)
      cases h : Relation.read (String.ofList (Text.trim cs)) with
      | ok r => exact absurd h (hagain r)
      | error e' => rfl
    · show false = true ↔ ∃ r x, Relation.read (String.ofList (Text.trim cs)) = .ok r ∧ _
      constructor
      · intro h
        cases h
      · rintro ⟨r, x, h, -⟩
        exact absurd h (hagain r)

theorem truthful_groupTrace (clauses : List (List Char)) :
    (Group.trace o ⟨clauses.map Clause.read⟩).Truthful o := by
  constructor
  · exact List.all_eq_true
  · intro t ht
    simp only [Group.trace, List.map_map, List.mem_map] at ht
    obtain ⟨cs, -, rfl⟩ := ht
    exact truthful_clauseTrace o cs

/-- The texts of the clauses of a group, as they are recorded, make up its canonical text. -/
theorem text_groupTrace (group : Group) : (group.trace o).text = group.render := by
  unfold GroupTrace.text Group.render Group.trace
  rw [List.map_map]
  rfl

theorem holds_groupTrace (group : Group) : (group.trace o).holds = group.holds o := by
  show (group.clauses.map (Clause.trace o)).all (·.holds) = group.clauses.all _
  rw [List.all_map]
  rfl

end

/-! ### Rules -/

namespace Condition

variable (o : Operands) (cs : List Char)

theorem render_eq_empty_iff : (readChars cs).render = "" ↔ readChars cs = .always := by
  constructor
  · intro h
    by_cases hblank : Text.trim cs = []
    · exact readChars_of_blank hblank
    · have hne := (trimmed_render_readChars cs).2 hblank
      rw [h] at hne
      exact absurd rfl hne
  · intro h
    rw [h]
    rfl

/-- The groups of a condition are those of its text. -/
theorem trace_readChars : (readChars cs).trace o =
    (clauseTexts cs).map fun clauses => Group.trace o ⟨clauses.map Clause.read⟩ := by
  unfold readChars
  split
  · next hnil =>
    rw [hnil]
    rfl
  · show List.map _ (List.map _ _) = _
    rw [List.map_map]
    rfl

theorem clauses_trace_readChars :
    ((readChars cs).trace o).map (·.clauses.map (·.clause.toList)) =
      (clauseTexts cs).map (·.map Clause.canonical) := by
  rw [trace_readChars, List.map_map]
  apply List.map_congr_left
  intro clauses _
  simp only [Function.comp_apply, Group.trace, List.map_map]
  rfl

theorem render_eq_texts (condition : Condition) :
    condition.render = " or ".intercalate ((condition.trace o).map GroupTrace.text) := by
  cases condition with
  | always => rfl
  | anyOf groups =>
    show " or ".intercalate (groups.map Group.render) = _
    simp only [trace, List.map_map, Function.comp_def, text_groupTrace]

theorem holds_iff_trace (condition : Condition) :
    condition.holds o = true ↔
      condition = .always ∨ ∃ group ∈ condition.trace o, group.holds = true := by
  cases condition with
  | always => simp [holds]
  | anyOf groups => simp [holds, trace, holds_groupTrace]

end Condition

theorem truthful_ruleTrace (o : Operands) (category : Category) (text : String) :
    RuleTrace.Truthful o category text
      ⟨category, (Rule.read text).condition.render, (Rule.read text).condition.holds o,
        (Rule.read text).condition.trace o⟩ := by
  have hread : (Rule.read text).condition =
      Condition.readChars (Rule.conditionText text.toList) := Rule.condition_read text
  have halways := Condition.render_eq_empty_iff (Rule.conditionText text.toList)
  rw [← hread] at halways
  refine ⟨rfl, rfl, rfl, ?_, ?_, halways, ?_, ?_⟩
  · show List.map _ ((Rule.read text).condition.trace o) = _
    rw [hread]
    exact Condition.clauses_trace_readChars o _
  · exact Condition.render_eq_texts o _
  · show (Rule.read text).condition.holds o = true ↔ _
    rw [halways]
    exact Condition.holds_iff_trace o _
  · intro group hgroup
    dsimp only at hgroup
    rw [hread, Condition.trace_readChars, List.mem_map] at hgroup
    obtain ⟨clauses, -, rfl⟩ := hgroup
    exact truthful_groupTrace o clauses

/-! ### Rule sets -/

/-- An explanation agrees with the classification, with the rules, and with itself: from the
recorded texts and values the verdicts follow, from the verdicts on clauses those on groups, from
these those on rules, and from these the category. -/
theorem explain_truthful (set : RuleSet) (o : Operands) :
    (set.compile.explain o).Truthful set o := by
  refine ⟨rfl, rfl, ?_, ?_⟩
  · show ((set.compile.rules.find? _).map _).getD _ = _
    unfold Classifier.explain
    rw [List.find?_map, Option.map_map]
    rfl
  · unfold Classifier.explain RuleSet.compile RuleSet.consulted
    rw [List.map_map, List.forall₂_map_right_iff, List.forall₂_same]
    intro rule _
    exact truthful_ruleTrace o rule.1 rule.2

end PluralForms
