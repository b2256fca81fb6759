import Mathlib.Data.List.Forall2
import PluralForms.Proofs.Rule.Conditions
import PluralForms.Proofs.Text.Words

/-!
# Conditions fail closed

A condition is written by joining clauses with `and`, and groups of clauses with `or`. The clauses
may be any text at all, as long as none of them has one of the two words standing between spaces:
then the text falls apart into just these groups and clauses again. A clause that cannot be read, or
that compares what is no operand, holds of no number, so that a group with such a clause never
holds, and all others are as they were:

    read_joinGroups : the groups and the clauses of a joined text are those that were joined
    joinGroups_fails_closed : when the joined text holds, and what is left of it when clauses break
-/

namespace PluralForms

/-! ### Joined texts -/

/-- Clauses joined by `and`. -/
def joinGroup (clauses : List String) : String := " and ".intercalate clauses

/-- Groups of clauses joined by `or`. -/
def joinGroups (groups : List (List String)) : String := " or ".intercalate (groups.map joinGroup)

/-- A text that stays whole when it is joined with others: it is not blank, no blanks stand around
it, and neither of the joining words stands in it between spaces. -/
structure PlainClause (text : String) : Prop where
  ne_empty : text ≠ ""
  trimmed : Text.Trimmed text.toList
  or_apart : Text.Apart "or".toList text.toList
  and_apart : Text.Apart "and".toList text.toList

theorem plainClause_iff {text : String} :
    PlainClause text ↔ text ≠ "" ∧ Text.Trimmed text.toList ∧
      Text.Apart "or".toList text.toList ∧ Text.Apart "and".toList text.toList :=
  ⟨fun h => ⟨h.ne_empty, h.trimmed, h.or_apart, h.and_apart⟩,
    fun ⟨h₁, h₂, h₃, h₄⟩ => ⟨h₁, h₂, h₃, h₄⟩⟩

instance (text : String) : Decidable (PlainClause text) := decidable_of_iff _ plainClause_iff.symm

/-- Groups of plain clauses, at least one clause in each group. -/
def PlainGroups (groups : List (List String)) : Prop :=
  ∀ clauses ∈ groups, clauses ≠ [] ∧ ∀ clause ∈ clauses, PlainClause clause

instance (groups : List (List String)) : Decidable (PlainGroups groups) := by
  unfold PlainGroups
  infer_instance

/-- Neither blank nor with blanks around it. -/
def Text.Solid (cs : List Char) : Prop := cs ≠ [] ∧ Text.Trimmed cs

theorem Text.Solid.join {front back : List Char} (hfront : Text.Solid front)
    (hback : Text.Solid back) (sep : List Char) : Text.Solid (front ++ (sep ++ back)) := by
  obtain ⟨hne, hfirst, -⟩ := hfront
  obtain ⟨hne', -, hlast⟩ := hback
  refine ⟨by simp [hne], ⟨fun c hc => hfirst c ?_, fun c hc => hlast c ?_⟩⟩
  · rwa [List.head?_append_of_ne_nil _ hne] at hc
  · rwa [List.getLast?_append_of_ne_nil _ (by simp [hne']),
      List.getLast?_append_of_ne_nil _ hne'] at hc

theorem PlainClause.solid {text : String} (h : PlainClause text) : Text.Solid text.toList :=
  ⟨by simpa using h.ne_empty, h.trimmed⟩

/-! ### Cutting them apart -/

theorem and_spaced : " and ".toList = Text.spaced "and".toList := rfl

section Group

variable {clauses : List String} (hne : clauses ≠ [])
  (hplain : ∀ clause ∈ clauses, PlainClause clause)

theorem toList_joinGroup (clauses : List String) :
    (joinGroup clauses).toList = " and ".toList.intercalate (clauses.map String.toList) :=
  String.toList_intercalate

include hne hplain

theorem splitOn_joinGroup :
    Text.splitOn " and ".toList (joinGroup clauses).toList = clauses.map String.toList := by
  rw [toList_joinGroup]
  apply Text.splitOn_intercalate (by decide) (by simpa using hne)
  intro piece hpiece
  obtain ⟨clause, hclause, rfl⟩ := List.mem_map.1 hpiece
  have hapart : "and".toList ∉ Text.words clause.toList :=
    (hplain clause hclause).and_apart.not_mem_words (by decide)
  exact Text.uncut_spaced (by decide) hapart

theorem solid_joinGroup : Text.Solid (joinGroup clauses).toList := by
  rw [toList_joinGroup]
  apply Text.intercalate_induction (by simpa using hne)
  · intro piece hpiece
    obtain ⟨clause, hclause, rfl⟩ := List.mem_map.1 hpiece
    exact (hplain clause hclause).solid
  · intro piece rest hpiece hrest
    exact hpiece.join hrest _

/-- The words of a group are those of its clauses, and `and`. -/
theorem or_not_mem_words_joinGroup : "or".toList ∉ Text.words (joinGroup clauses).toList := by
  rw [toList_joinGroup]
  apply Text.intercalate_induction (P := fun cs => "or".toList ∉ Text.words cs)
    (by simpa using hne)
  · intro piece hpiece
    obtain ⟨clause, hclause, rfl⟩ := List.mem_map.1 hpiece
    exact (hplain clause hclause).or_apart.not_mem_words (by decide)
  · intro piece rest hpiece hrest
    rw [and_spaced, Text.words_append_spaced (by decide), List.mem_append, List.mem_cons, not_or,
      not_or]
    exact ⟨hpiece, by decide, hrest⟩

end Group

section Groups

variable {groups : List (List String)} (hne : groups ≠ []) (hplain : PlainGroups groups)

theorem toList_joinGroups (groups : List (List String)) :
    (joinGroups groups).toList =
      " or ".toList.intercalate (groups.map fun clauses => (joinGroup clauses).toList) := by
  unfold joinGroups
  rw [String.toList_intercalate, List.map_map]
  rfl

include hne hplain

theorem splitOn_joinGroups :
    Text.splitOn " or ".toList (joinGroups groups).toList =
      groups.map fun clauses => (joinGroup clauses).toList := by
  rw [toList_joinGroups]
  apply Text.splitOn_intercalate (by decide) (by simpa using hne)
  intro piece hpiece
  obtain ⟨clauses, hclauses, rfl⟩ := List.mem_map.1 hpiece
  obtain ⟨hsome, hclean⟩ := hplain clauses hclauses
  exact Text.uncut_spaced (by decide) (or_not_mem_words_joinGroup hsome hclean)

theorem solid_joinGroups : Text.Solid (joinGroups groups).toList := by
  rw [toList_joinGroups]
  apply Text.intercalate_induction (by simpa using hne)
  · intro piece hpiece
    obtain ⟨clauses, hclauses, rfl⟩ := List.mem_map.1 hpiece
    obtain ⟨hsome, hclean⟩ := hplain clauses hclauses
    exact solid_joinGroup hsome hclean
  · intro piece rest hpiece hrest
    exact hpiece.join hrest _

theorem clauseTexts_joinGroups :
    Condition.clauseTexts (joinGroups groups).toList =
      groups.map fun clauses => clauses.map String.toList := by
  obtain ⟨hsome, htrimmed⟩ := solid_joinGroups hne hplain
  rw [Condition.clauseTexts_of_trimmed htrimmed hsome, splitOn_joinGroups hne hplain, List.map_map]
  apply List.map_congr_left
  intro clauses hclauses
  obtain ⟨hsome, hclean⟩ := hplain clauses hclauses
  exact splitOn_joinGroup hsome hclean

end Groups

/-! ### What is read from them -/

/-- The clause that a text is: its relation if it has one, else the text as it is. -/
def Clause.ofText (text : String) : Clause :=
  match Relation.read text with
  | .ok r => .relation r
  | .error e => .broken text e

theorem Clause.read_toList {text : String} (h : Text.Trimmed text.toList) :
    Clause.read text.toList = Clause.ofText text := by
  have htext : String.ofList (Text.trim text.toList) = text := by
    rw [Text.trim_eq_self h, String.ofList_toList]
  unfold Clause.read Clause.ofText Relation.read
  cases Relation.readChars text.toList with
  | ok r => rfl
  | error e => exact congrArg (Clause.broken · e) htext

/-- The groups of a condition; the empty condition has none. -/
def Condition.groups : Condition → List Group
  | .always => []
  | .anyOf groups => groups

/-- The groups and the clauses that were joined are read, in order. -/
theorem read_joinGroups {groups : List (List String)} (hne : groups ≠ [])
    (hplain : PlainGroups groups) :
    Condition.read (joinGroups groups) =
      .anyOf (groups.map fun clauses => ⟨clauses.map Clause.ofText⟩) := by
  have hread : groups.map (fun clauses => Group.mk ((clauses.map String.toList).map Clause.read)) =
      groups.map fun clauses => ⟨clauses.map Clause.ofText⟩ := by
    apply List.map_congr_left
    intro clauses hclauses
    rw [List.map_map]
    congr 1
    apply List.map_congr_left
    intro clause hclause
    exact Clause.read_toList ((hplain clauses hclauses).2 clause hclause).trimmed
  unfold Condition.read Condition.readChars
  rw [clauseTexts_joinGroups hne hplain]
  split
  · next hnil => exact absurd (List.map_eq_nil_iff.1 hnil) hne
  · rw [List.map_map]
    exact congrArg Condition.anyOf hread

/-! ### What holds of a number -/

/-- The clause is read, what it compares is an operand, and the comparison comes out true. -/
def Stands (o : Operands) (text : String) : Prop :=
  ∃ r operand x, Relation.read text = .ok r ∧ Operand.ofSymbol? r.symbol = some operand ∧
    o.reduced operand r.modulus = some x ∧ r.accepts x = true

/-- The clause cannot be read, or what it compares is no operand. -/
def DeadClause (text : String) : Prop :=
  ∀ r, Relation.read text = .ok r → Operand.ofSymbol? r.symbol = none

instance (text : String) : Decidable (DeadClause text) :=
  decidable_of_iff (((Relation.read text).toOption.bind Relation.operand?).isNone = true) <| by
    unfold DeadClause
    cases Relation.read text with
    | error e => simp [Except.toOption]
    | ok r => simp [Except.toOption, Relation.operand?]

theorem holds_ofText_iff {o : Operands} {text : String} :
    (Clause.ofText text).holds o = true ↔ Stands o text := by
  unfold Clause.ofText Stands
  cases Relation.read text with
  | error e => simp [Clause.holds]
  | ok r =>
    show (r.value o).any r.accepts = true ↔ _
    rw [Option.any_eq_true]
    simp only [Relation.value, Relation.operand?, Option.bind_eq_some_iff]
    constructor
    · rintro ⟨x, ⟨operand, hoperand, hx⟩, haccepts⟩
      exact ⟨r, operand, x, rfl, hoperand, hx, haccepts⟩
    · rintro ⟨r', operand, x, hr, hoperand, hx, haccepts⟩
      cases hr
      exact ⟨x, ⟨operand, hoperand, hx⟩, haccepts⟩

theorem DeadClause.holds_ofText {text : String} (h : DeadClause text) (o : Operands) :
    (Clause.ofText text).holds o = false := by
  rw [← Bool.not_eq_true, holds_ofText_iff]
  rintro ⟨r, operand, x, hr, hoperand, -, -⟩
  rw [h r hr] at hoperand
  cases hoperand

/-- The verdicts on the groups of a condition's text, in order. -/
def groupVerdicts (o : Operands) (text : String) : List Bool :=
  (Condition.read text).groups.map (·.holds o)

section Verdicts

variable {groups : List (List String)} (hne : groups ≠ []) (hplain : PlainGroups groups)

include hne hplain

theorem groupVerdicts_joinGroups (o : Operands) :
    groupVerdicts o (joinGroups groups) =
      groups.map fun clauses => clauses.all fun clause => (Clause.ofText clause).holds o := by
  unfold groupVerdicts
  rw [read_joinGroups hne hplain]
  show (groups.map _).map _ = _
  rw [List.map_map]
  apply List.map_congr_left
  intro clauses _
  exact List.all_map

theorem holds_joinGroups_iff (o : Operands) :
    (Condition.read (joinGroups groups)).holds o = true ↔
      ∃ clauses ∈ groups, ∀ clause ∈ clauses, Stands o clause := by
  rw [read_joinGroups hne hplain]
  simp only [Condition.holds, Group.holds, List.any_map, List.any_eq_true, Function.comp_apply,
    List.all_map, List.all_eq_true, holds_ofText_iff]

end Verdicts

/-! ### Clauses that break -/

/-- The same clause, or a plain one in its place that is dead. -/
def DiesAs (clause other : String) : Prop :=
  other = clause ∨ PlainClause other ∧ DeadClause other

instance (clause other : String) : Decidable (DiesAs clause other) := by
  unfold DiesAs
  infer_instance

/-- The same groups, but that any of the clauses may be replaced by dead ones. -/
def Deadened (groups broken : List (List String)) : Prop :=
  List.Forall₂ (List.Forall₂ DiesAs) groups broken

instance (groups broken : List (List String)) : Decidable (Deadened groups broken) := by
  unfold Deadened
  infer_instance

theorem plain_of_diesAs {clauses others : List String} (h : List.Forall₂ DiesAs clauses others)
    (hplain : ∀ clause ∈ clauses, PlainClause clause) : ∀ other ∈ others, PlainClause other := by
  induction h with
  | nil => exact fun _ hother => absurd hother List.not_mem_nil
  | cons hdies _ ih =>
    obtain ⟨hclause, hclauses⟩ := List.forall_mem_cons.1 hplain
    refine List.forall_mem_cons.2 ⟨?_, ih hclauses⟩
    rcases hdies with rfl | ⟨hother, -⟩
    · exact hclause
    · exact hother

theorem Deadened.plainGroups {groups broken : List (List String)} (h : Deadened groups broken)
    (hplain : PlainGroups groups) : PlainGroups broken := by
  unfold Deadened at h
  induction h with
  | nil => exact hplain
  | @cons clauses others _ _ hdies _ ih =>
    obtain ⟨⟨hsome, hclean⟩, hgroups⟩ := List.forall_mem_cons.1 hplain
    refine List.forall_mem_cons.2 ⟨⟨?_, plain_of_diesAs hdies hclean⟩, ih hgroups⟩
    rintro rfl
    exact hsome (List.forall₂_nil_right_iff.1 hdies)

/-- A group with a clause that was replaced does not hold; else it is the group that it was. -/
theorem all_holds_of_diesAs {clauses others : List String}
    (h : List.Forall₂ DiesAs clauses others) (o : Operands) :
    (others.all fun other => (Clause.ofText other).holds o) =
      (decide (others = clauses) && clauses.all fun clause => (Clause.ofText clause).holds o) := by
  induction h with
  | nil => rfl
  | @cons clause other clauses others hdies _ ih =>
    rw [List.all_cons, List.all_cons, ih]
    rcases hdies with rfl | ⟨-, hdead⟩
    · by_cases htail : others = clauses
      · simp [htail]
      · simp [htail]
    · by_cases hsame : other = clause
      · simp [← hsame, hdead.holds_ofText o]
      · simp [hsame, hdead.holds_ofText o]

theorem Deadened.exists_of_mem {groups broken : List (List String)} (h : Deadened groups broken)
    {others : List String} (hmem : others ∈ broken) :
    ∃ clauses ∈ groups, List.Forall₂ DiesAs clauses others := by
  unfold Deadened at h
  induction h with
  | nil => exact absurd hmem List.not_mem_nil
  | @cons clauses _ _ _ hdies _ ih =>
    rcases List.mem_cons.1 hmem with rfl | hmem
    · exact ⟨clauses, List.mem_cons_self, hdies⟩
    · obtain ⟨clauses, hclauses, hdies⟩ := ih hmem
      exact ⟨clauses, List.mem_cons_of_mem _ hclauses, hdies⟩

/-- Is it the group that it was? -/
def untouched (clauses others : List String) : Bool := decide (others = clauses)

section Broken

variable {groups broken : List (List String)} (h : Deadened groups broken)
  (hne : groups ≠ []) (hplain : PlainGroups groups)

include h hne hplain

theorem groupVerdicts_deadened (o : Operands) :
    groupVerdicts o (joinGroups broken) =
      List.zipWith (· && ·) (List.zipWith untouched groups broken)
        (groupVerdicts o (joinGroups groups)) := by
  have hne' : broken ≠ [] := by
    rintro rfl
    exact hne (List.forall₂_nil_right_iff.1 h)
  rw [groupVerdicts_joinGroups hne' (h.plainGroups hplain), groupVerdicts_joinGroups hne hplain]
  clear hne hne' hplain
  unfold Deadened at h
  induction h with
  | nil => rfl
  | cons hdies _ ih =>
    rw [List.map_cons, List.map_cons, List.zipWith_cons_cons, List.zipWith_cons_cons, ← ih,
      all_holds_of_diesAs hdies o]
    rfl

theorem holds_of_deadened {o : Operands}
    (hholds : (Condition.read (joinGroups broken)).holds o = true) :
    (Condition.read (joinGroups groups)).holds o = true := by
  have hne' : broken ≠ [] := by
    rintro rfl
    exact hne (List.forall₂_nil_right_iff.1 h)
  obtain ⟨others, hothers, hstand⟩ :=
    (holds_joinGroups_iff hne' (h.plainGroups hplain) o).1 hholds
  obtain ⟨clauses, hclauses, hdies⟩ := h.exists_of_mem hothers
  have hall := all_holds_of_diesAs hdies o
  rw [List.all_eq_true.2 fun other hother => holds_ofText_iff.2 (hstand other hother),
    eq_comm, Bool.and_eq_true] at hall
  refine (holds_joinGroups_iff hne hplain o).2 ⟨clauses, hclauses, fun clause hclause => ?_⟩
  exact holds_ofText_iff.1 (List.all_eq_true.1 hall.2 clause hclause)

end Broken

/-- Joined groups of plain clauses are read as they were joined, whatever the clauses say. They hold
of a number if all clauses of one group are read, compare an operand and come out true. So clauses
that are replaced by dead ones take their own groups out, and change no other group: the verdict on
a group is what it was, and no number is claimed that was not claimed before. -/
theorem joinGroups_fails_closed {groups : List (List String)} (hne : groups ≠ [])
    (hplain : PlainGroups groups) :
    Condition.read (joinGroups groups) =
        .anyOf (groups.map fun clauses => ⟨clauses.map Clause.ofText⟩) ∧
      (∀ o, (Condition.read (joinGroups groups)).holds o = true ↔
        ∃ clauses ∈ groups, ∀ clause ∈ clauses, Stands o clause) ∧
      ∀ broken, Deadened groups broken → ∀ o,
        ((Condition.read (joinGroups broken)).holds o = true →
          (Condition.read (joinGroups groups)).holds o = true) ∧
        groupVerdicts o (joinGroups broken) =
          List.zipWith (· && ·) (List.zipWith untouched groups broken)
            (groupVerdicts o (joinGroups groups)) := by
  refine ⟨read_joinGroups hne hplain, holds_joinGroups_iff hne hplain, fun broken h o => ⟨?_, ?_⟩⟩
  · exact holds_of_deadened h hne hplain
  · exact groupVerdicts_deadened h hne hplain o

/-- Three groups that all hold of one. -/
def threeGroups : List (List String) :=
  [["i = 1", "v = 0"], ["n % 10 = 1", "n % 100 != 11"], ["i = 0..4", "v != 2"]]

/-- The same, but for a clause without an operator, and one that compares what is no operand. -/
def threeGroupsBroken : List (List String) :=
  [["i = 1", "v is 0"], ["x != 1", "n % 100 != 11"], ["i = 0..4", "v != 2"]]

theorem joinGroups_fails_closed_threeGroups :
    threeGroups ≠ [] ∧ PlainGroups threeGroups ∧ Deadened threeGroups threeGroupsBroken ∧
      groupVerdicts (Operands.ofNat 1) (joinGroups threeGroups) = [true, true, true] ∧
      groupVerdicts (Operands.ofNat 1) (joinGroups threeGroupsBroken) = [false, false, true] := by
  have hplain : PlainGroups threeGroups := by decide +kernel
  have hbroken : Deadened threeGroups threeGroupsBroken := by decide +kernel
  obtain ⟨-, -, hbreak⟩ := joinGroups_fails_closed (by decide) hplain
  refine ⟨by decide, hplain, hbroken, by decide +kernel, ?_⟩
  rw [(hbreak _ hbroken _).2]
  decide +kernel

end PluralForms
