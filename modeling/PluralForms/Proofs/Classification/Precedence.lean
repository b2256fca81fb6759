import Mathlib.Data.List.Find
import Mathlib.Logic.Relation
import PluralForms.Classifier

/-!
# The first rule that holds decides

A rule set declares its rules in an order, and the order is all that tells which of them wins. The
rules of `other` stand in the same list, anywhere and with any conditions, but they are not tried:
`other` is what is left over. So classifying is a search of the declared rules,

    classify_compile : set.compile.classify o = the category of the first rule that takes `o`

where a rule takes a number if it is not one of `other` and holds of it. The laws follow from
that: rule sets are tried one after the other when they are joined, and nothing that is done to
the rules of `other` (`OtherEdit`) is seen by any number.
-/

namespace PluralForms

/-! ### Which rule is first -/

/-- Is the rule tried, and does it hold of the number? -/
def takes (o : Operands) (rule : Category × String) : Bool :=
  decide (rule.1 ≠ .other) && (Rule.read rule.2).condition.holds o

theorem takes_eq_true_iff {o : Operands} {rule : Category × String} :
    takes o rule = true ↔ rule.1 ≠ .other ∧ (Rule.read rule.2).condition.holds o = true := by
  simp [takes]

namespace RuleSet

theorem classify_compile (set : RuleSet) (o : Operands) :
    set.compile.classify o = ((set.rules.find? (takes o)).map (·.1)).getD .other := by
  simp only [Classifier.classify, compile, consulted, List.find?_map, List.find?_filter,
    Option.map_map, Bool.decide_and, Bool.decide_eq_true]
  rfl

/-- A rule of this category takes the number, and no rule declared before it does. -/
def Leads (set : RuleSet) (o : Operands) (category : Category) : Prop :=
  ∃ before text after, set.rules = before ++ (category, text) :: after ∧
    takes o (category, text) = true ∧ ∀ rule ∈ before, takes o rule = false

theorem leads_iff {set : RuleSet} {o : Operands} {category : Category} :
    set.Leads o category ↔ ∃ text, set.rules.find? (takes o) = some (category, text) := by
  simp only [Leads, List.find?_eq_some_iff_append, Bool.not_eq_true']
  constructor
  · rintro ⟨before, text, after, hrules, htakes, hbefore⟩
    exact ⟨text, htakes, before, after, hrules, hbefore⟩
  · rintro ⟨text, htakes, before, after, hrules, hbefore⟩
    exact ⟨before, text, after, hrules, htakes, hbefore⟩

/-- Either no rule takes the number, or the first one that does is not of `other`. -/
theorem find?_takes_cases (set : RuleSet) (o : Operands) :
    (set.rules.find? (takes o) = none ∧ set.compile.classify o = .other) ∨
      ∃ text, set.rules.find? (takes o) = some (set.compile.classify o, text) ∧
        set.compile.classify o ≠ .other := by
  rw [classify_compile]
  cases hfind : set.rules.find? (takes o) with
  | none => exact Or.inl ⟨rfl, rfl⟩
  | some rule =>
    obtain ⟨category, text⟩ := rule
    exact Or.inr ⟨text, rfl, (takes_eq_true_iff.1 (List.find?_some hfind)).1⟩

theorem classify_eq_iff_leads {set : RuleSet} {o : Operands} {category : Category}
    (h : category ≠ .other) : set.compile.classify o = category ↔ set.Leads o category := by
  rw [leads_iff]
  rcases find?_takes_cases set o with ⟨hfind, hother⟩ | ⟨text, hfind, -⟩
  · simp [hfind, hother, h.symm]
  · simp [hfind]

theorem classify_eq_other_iff {set : RuleSet} {o : Operands} :
    set.compile.classify o = .other ↔ ∀ rule ∈ set.rules, takes o rule = false := by
  have hnone : set.rules.find? (takes o) = none ↔ ∀ rule ∈ set.rules, takes o rule = false := by
    simp
  rw [← hnone]
  rcases find?_takes_cases set o with ⟨hfind, hother⟩ | ⟨text, hfind, hne⟩
  · simp [hfind, hother]
  · simp [hfind, hne]

/-! ### Rule sets one behind the other -/

theorem classify_append (a b : RuleSet) (o : Operands) :
    (compile ⟨a.rules ++ b.rules⟩).classify o =
      if a.compile.classify o ≠ .other then a.compile.classify o else b.compile.classify o := by
  rw [classify_compile, List.find?_append]
  rcases find?_takes_cases a o with ⟨hfind, hother⟩ | ⟨text, hfind, hne⟩
  · rw [hfind, Option.none_or, if_neg (not_not.2 hother), classify_compile]
  · rw [hfind, Option.some_or, if_pos hne]
    rfl

/-! ### The rules of `other` -/

/-- What may be done to a rule of `other`: it is put in somewhere, or its text is replaced. Taking
one out is putting it in, taken back. -/
inductive OtherEdit : List (Category × String) → List (Category × String) → Prop
  | insert {before after text} : OtherEdit (before ++ after) (before ++ (.other, text) :: after)
  | rewrite {before after text text'} :
      OtherEdit (before ++ (.other, text) :: after) (before ++ (.other, text') :: after)

theorem OtherEdit.consulted_eq {rules rules' : List (Category × String)}
    (h : OtherEdit rules rules') : consulted ⟨rules⟩ = consulted ⟨rules'⟩ := by
  cases h <;> simp [consulted]

/-- However many edits there are. -/
theorem consulted_of_edits {rules rules' : List (Category × String)}
    (h : Relation.EqvGen OtherEdit rules rules') : consulted ⟨rules⟩ = consulted ⟨rules'⟩ := by
  induction h with
  | rel _ _ hedit => exact hedit.consulted_eq
  | refl => rfl
  | symm _ _ _ ih => exact ih.symm
  | trans _ _ _ _ _ ih ih' => exact ih.trans ih'

theorem compile_of_edits {a b : RuleSet} (h : Relation.EqvGen OtherEdit a.rules b.rules) :
    a.compile = b.compile := by
  have hconsulted : a.consulted = b.consulted := consulted_of_edits h
  unfold compile
  rw [hconsulted]

end RuleSet

/-! ### The laws -/

theorem Classifier.classify_mem_categories (c : Classifier) (o : Operands) :
    c.classify o ∈ c.categories := by
  unfold classify categories
  cases hfind : c.rules.find? fun rule => rule.2.condition.holds o with
  | none => simp
  | some rule =>
    have hmem : rule ∈ c.rules := List.mem_of_find?_eq_some hfind
    exact List.mem_append_left _ (List.mem_map_of_mem hmem)

/-- The category of a number is that of the first declared rule that takes it, else `other`, and
it is one of those that the classifier tells apart. Of two rule sets, one behind the other, the
first decides unless it leaves the number to `other`. Edits of the rules of `other` compile to the
same classifier. -/
theorem classify_lawful :
    (∀ (set : RuleSet) (o : Operands),
      (∀ category, category ≠ .other →
        (set.compile.classify o = category ↔ set.Leads o category)) ∧
      (set.compile.classify o = .other ↔ ∀ rule ∈ set.rules, takes o rule = false) ∧
      set.compile.classify o ∈ set.compile.categories) ∧
    (∀ (a b : RuleSet) (o : Operands),
      (RuleSet.compile ⟨a.rules ++ b.rules⟩).classify o =
        if a.compile.classify o ≠ .other then a.compile.classify o else b.compile.classify o) ∧
    ∀ a b : RuleSet, Relation.EqvGen RuleSet.OtherEdit a.rules b.rules →
      a.compile = b.compile ∧ ∀ o, a.compile.classify o = b.compile.classify o := by
  refine ⟨fun set o => ⟨fun category h => ?_, ?_, ?_⟩, fun a b o => ?_, fun a b h => ?_⟩
  · exact RuleSet.classify_eq_iff_leads h
  · exact RuleSet.classify_eq_other_iff
  · exact set.compile.classify_mem_categories o
  · exact RuleSet.classify_append a b o
  · have hcompile := RuleSet.compile_of_edits h
    exact ⟨hcompile, fun o => by rw [hcompile]⟩

/-- Two rules of `other` that hold of 1 are declared before the one that decides, and it is the
same without them. -/
theorem classify_lawful_declaredOther :
    Category.one ≠ .other ∧
    RuleSet.Leads ⟨[(.other, ""), (.few, "i = 7"), (.other, "n = 1"), (.one, "n = 1")]⟩
      (.ofNat 1) .one ∧
    Relation.EqvGen RuleSet.OtherEdit
      [(.other, ""), (.few, "i = 7"), (.other, "n = 1"), (.one, "n = 1")]
      [(.few, "i = 7"), (.one, "n = 1"), (.other, "broken")] ∧
    RuleSet.compile ⟨[(.other, ""), (.few, "i = 7"), (.other, "n = 1"), (.one, "n = 1")]⟩ =
      RuleSet.compile ⟨[(.few, "i = 7"), (.one, "n = 1"), (.other, "broken")]⟩ := by
  have hedits : Relation.EqvGen RuleSet.OtherEdit
      [(.other, ""), (.few, "i = 7"), (.other, "n = 1"), (.one, "n = 1")]
      [(.few, "i = 7"), (.one, "n = 1"), (.other, "broken")] := by
    have hfirst := @RuleSet.OtherEdit.insert []
      [(.few, "i = 7"), (.other, "n = 1"), (.one, "n = 1")] ""
    have hsecond := @RuleSet.OtherEdit.insert [(.few, "i = 7")] [(.one, "n = 1")] "n = 1"
    have hlast := @RuleSet.OtherEdit.insert [(.few, "i = 7"), (.one, "n = 1")] [] "broken"
    exact (Relation.EqvGen.rel _ _ hfirst).symm.trans _ _ _
      ((Relation.EqvGen.rel _ _ hsecond).symm.trans _ _ _ (.rel _ _ hlast))
  have hone : Category.one ≠ .other := by decide
  refine ⟨hone, ?_, hedits, ?_⟩
  · exact ((classify_lawful.1 _ _).1 _ hone).1 (by decide +kernel)
  · exact (classify_lawful.2.2 _ _ hedits).1

end PluralForms
