import PluralForms.Proofs.Classification.Exact

/-!
# What a classification depends on

A classifier sees of a number only the operands that its rules read. A relation reads the operand
that it names, and four of them if that is `n` with a modulus: what is left of `n` is put together
from `i`, `w` and `t`, and from `n` itself when the fraction is long. A clause that is broken or
names no operand reads nothing, and neither does a rule of `other`. So the main statement is one
about two numbers,

    classify_congr : the numbers agree on what the set reads → they belong to the same category

and it is proved layer by layer, from the value that a relation compares up to the rules.

* `RuleSet.Reads` - what a rule set reads; the list `reads` decides it;
* `agree_withFractionDigits` - trailing zeros are seen in `v` and `f` only.
-/

namespace PluralForms

open Binary

/-! ### What is read -/

/-- The operands that go into the value of an operand after an optional modulus. -/
def Operand.sources : Operand → Option Nat → List Operand
  | .n, some _ => [.n, .i, .w, .t]
  | operand, _ => [operand]

theorem Operand.sources_none (operand : Operand) : operand.sources none = [operand] := by
  cases operand <;> rfl

theorem Operand.sources_of_ne {operand : Operand} (h : operand ≠ .n) (modulus : Option Nat) :
    operand.sources modulus = [operand] := by
  cases operand with
  | n => exact absurd rfl h
  | _ => rfl

/-- The operands that a relation reads. -/
def Relation.reads (r : Relation) : List Operand :=
  match r.operand? with
  | none => []
  | some operand => operand.sources r.modulus

def Clause.reads : Clause → List Operand
  | .relation r => r.reads
  | .broken .. => []

namespace RuleSet

/-- A relation of a rule that is tried reads the operand. -/
def Reads (set : RuleSet) (operand : Operand) : Prop := ∃ r, set.Tries r ∧ operand ∈ r.reads

/-- The operands that the rules read, in the order of their clauses. -/
def reads (set : RuleSet) : List Operand :=
  set.consulted.flatMap fun (_, text) => (Rule.read text).condition.clauses.flatMap Clause.reads

theorem mem_reads_iff {set : RuleSet} {operand : Operand} :
    operand ∈ set.reads ↔ set.Reads operand := by
  simp only [reads, consulted, List.mem_flatMap, List.mem_filter, decide_eq_true_eq, Reads, Tries]
  constructor
  · rintro ⟨⟨category, text⟩, ⟨hmem, hother⟩, clause, hclause, hreads⟩
    cases clause with
    | relation r => exact ⟨r, ⟨category, text, hmem, hother, hclause⟩, hreads⟩
    | broken text error => simp [Clause.reads] at hreads
  · rintro ⟨r, ⟨category, text, hmem, hother, hclause⟩, hreads⟩
    exact ⟨(category, text), ⟨hmem, hother⟩, .relation r, hclause, hreads⟩

instance (set : RuleSet) (operand : Operand) : Decidable (set.Reads operand) :=
  decidable_of_iff _ mem_reads_iff

end RuleSet

/-! ### Numbers that agree -/

namespace Operands

/-- The two numbers are the same in this operand. -/
def Agree (o o' : Operands) : Operand → Prop
  | .n => o.n = o'.n
  | operand => o.integer operand = o'.integer operand

theorem agree_iff_of_ne {o o' : Operands} {operand : Operand} (h : operand ≠ .n) :
    o.Agree o' operand ↔ o.integer operand = o'.integer operand := by
  cases operand with
  | n => exact absurd rfl h
  | _ => exact Iff.rfl

theorem value_congr {o o' : Operands} {operand : Operand} (h : o.Agree o' operand) :
    o.value operand = o'.value operand := by
  cases operand with
  | n => exact h
  | _ => exact congrArg Double.ofNat h

theorem fractionValue_congr {o o' : Operands} (hn : o.n = o'.n) (hw : o.w = o'.w)
    (ht : o.t = o'.t) : o.fractionValue = o'.fractionValue := by
  simp only [fractionValue, hn, hw, ht]

theorem reduced_congr {o o' : Operands} {operand : Operand} {modulus : Option Nat}
    (h : ∀ x ∈ operand.sources modulus, o.Agree o' x) :
    o.reduced operand modulus = o'.reduced operand modulus := by
  cases modulus with
  | none =>
    rw [Operand.sources_none, List.forall_mem_singleton] at h
    exact congrArg some (value_congr h)
  | some m =>
    rcases Nat.eq_zero_or_pos m with rfl | hm
    · rw [reduced_zero, reduced_zero]
    by_cases hoperand : operand = .n
    · subst hoperand
      simp only [Operand.sources, List.forall_mem_cons] at h
      obtain ⟨hn, hi, hw, ht, -⟩ := h
      have hwhole : o.i = o'.i := hi
      rw [reduced_n o hm, reduced_n o' hm, hwhole, fractionValue_congr hn hw ht]
    · rw [Operand.sources_of_ne hoperand, List.forall_mem_singleton, agree_iff_of_ne hoperand] at h
      rw [reduced_of_ne hoperand o hm, reduced_of_ne hoperand o' hm, h]

/-- Trailing zeros are counted by `v` and stand in `f`. -/
theorem agree_withFractionDigits (o : Operands) (digits : Nat) {operand : Operand}
    (hv : operand ≠ .v) (hf : operand ≠ .f) : (o.withFractionDigits digits).Agree o operand := by
  unfold withFractionDigits
  split
  · cases operand <;> rfl
  · cases operand with
    | v => exact absurd rfl hv
    | f => exact absurd rfl hf
    | _ => rfl

end Operands

/-! ### Verdicts that agree -/

variable {o o' : Operands}

theorem Relation.value_congr {r : Relation} (h : ∀ x ∈ r.reads, o.Agree o' x) :
    r.value o = r.value o' := by
  unfold value
  unfold reads at h
  cases hoperand : r.operand? with
  | none => rfl
  | some operand =>
    rw [hoperand] at h
    exact Operands.reduced_congr h

theorem Clause.holds_congr {clause : Clause} (h : ∀ x ∈ clause.reads, o.Agree o' x) :
    clause.holds o = clause.holds o' := by
  cases clause with
  | relation r => exact congrArg (·.any r.accepts) (Relation.value_congr h)
  | broken text error => rfl

theorem Condition.holds_congr {condition : Condition}
    (h : ∀ clause ∈ condition.clauses, ∀ x ∈ clause.reads, o.Agree o' x) :
    condition.holds o = condition.holds o' := by
  cases condition with
  | always => rfl
  | anyOf groups =>
    refine any_all_congr fun g hg clause hclause => Clause.holds_congr ?_
    exact h clause (List.mem_flatMap.2 ⟨g, hg, hclause⟩)

namespace RuleSet

theorem takes_congr {set : RuleSet} (h : ∀ operand, set.Reads operand → o.Agree o' operand)
    {rule : Category × String} (hrule : rule ∈ set.rules) : takes o rule = takes o' rule := by
  obtain ⟨category, text⟩ := rule
  unfold takes
  by_cases hother : category = .other
  · simp [hother]
  · congr 1
    refine Condition.holds_congr fun clause hclause x hx => ?_
    cases clause with
    | relation r => exact h x ⟨r, ⟨category, text, hrule, hother, hclause⟩, hx⟩
    | broken text error => simp [Clause.reads] at hx

theorem classify_congr {set : RuleSet} (h : ∀ operand, set.Reads operand → o.Agree o' operand) :
    set.compile.classify o = set.compile.classify o' := by
  rw [classify_compile, classify_compile]
  rw [List.find?_congr fun rule hrule => takes_congr h hrule]

end RuleSet

/-- Two numbers that agree on everything the rules read belong to the same category. So trailing
zeros never matter to rules that read neither `v` nor `f`. -/
theorem classify_depends_on_reads (set : RuleSet) :
    (∀ o o' : Operands, (∀ operand, set.Reads operand → o.Agree o' operand) →
      set.compile.classify o = set.compile.classify o') ∧
    (¬set.Reads .v → ¬set.Reads .f → ∀ (o : Operands) (digits : Nat),
      set.compile.classify (o.withFractionDigits digits) = set.compile.classify o) := by
  refine ⟨fun o o' h => RuleSet.classify_congr h, fun hv hf o digits => ?_⟩
  refine RuleSet.classify_congr fun operand hreads => o.agree_withFractionDigits digits ?_ ?_
  · rintro rfl
    exact hv hreads
  · rintro rfl
    exact hf hreads

/-- Rules that read `n`, `i`, `w` and `t`. What else they name is an unknown symbol, or stands in a
broken clause or in a rule of `other`. -/
def zeroBlind : RuleSet :=
  ⟨[(.one, "n % 10 = 1 and x = 1 or v is 3"), (.few, "i = 7"), (.other, "v = 3 and f = 0")]⟩

/-- 7 and 7.000 with an exponent of two, and 7 written as 7.0000. -/
theorem classify_depends_on_reads_zeroBlind :
    (∀ operand, zeroBlind.Reads operand →
      (Operands.ofNat 7).Agree { Operands.ofNat 7 with v := 3, c := 2 } operand) ∧
    zeroBlind.compile.classify (.ofNat 7) =
      zeroBlind.compile.classify { Operands.ofNat 7 with v := 3, c := 2 } ∧
    ¬zeroBlind.Reads .v ∧ ¬zeroBlind.Reads .f ∧
    zeroBlind.compile.classify ((Operands.ofNat 7).withFractionDigits 4) =
      zeroBlind.compile.classify (.ofNat 7) := by
  have hv : ¬zeroBlind.Reads .v := by decide +kernel
  have hf : ¬zeroBlind.Reads .f := by decide +kernel
  have hagree : ∀ operand, zeroBlind.Reads operand →
      (Operands.ofNat 7).Agree { Operands.ofNat 7 with v := 3, c := 2 } operand := by
    intro operand hreads
    cases operand with
    | v => exact absurd hreads hv
    | c => exact absurd hreads (by decide +kernel)
    | e => exact absurd hreads (by decide +kernel)
    | _ => simp [Operands.Agree, Operands.integer]
  refine ⟨hagree, ?_, hv, hf, ?_⟩
  · exact (classify_depends_on_reads zeroBlind).1 _ _ hagree
  · exact (classify_depends_on_reads zeroBlind).2 hv hf _ 4

end PluralForms
