import Mathlib.Data.List.Find
import PluralForms.Proofs.Classification.Precedence
import PluralForms.Proofs.Operands.Exact
import PluralForms.Proofs.Operands.Folding

/-!
# Classification is exact

The rules of a language are about numbers. Here they are evaluated on exact operands, by division
and comparison of natural numbers of any size, and the classifier is compared with that. It differs
in two ways from the exact evaluation, and neither shows:

* it folds what may be large. A folded number has the same remainders by every divisor of
  `10 ^ 18`, and it is as far above every listed number as the number itself;
* it rounds what it compares. A rounded number compares with whole numbers below `2 ^ 53` as the
  number itself does.

So for rules whose numbers are below `2 ^ 53` and whose moduli divide `10 ^ 18` the main statement
is

    classify_eq_exact : set.compile.classify o = x.category set

where `x` is the exact number of the text that `o` are the operands of. The number has to be whole
if `n` is read, since an exact fraction is no whole number at all.
-/

namespace PluralForms

open Binary

/-! ### Exact evaluation -/

namespace Exact

/-- Is the number listed? -/
def listed (k : Nat) : Item → Bool
  | .value n => k == n
  | .range first last => first ≤ k && k ≤ last

/-- The remainder by an optional modulus; there is none by zero. -/
def remainder (k : Nat) : Option Nat → Option Nat
  | none => some k
  | some 0 => none
  | some m => some (k % m)

variable (x : Exact)

/-- The number that a relation compares. -/
def value (r : Relation) : Option Nat :=
  (r.operand?.bind x.whole?).bind (remainder · r.modulus)

def relationHolds (r : Relation) : Bool :=
  match x.value r, r.comparison with
  | none, _ => false
  | some k, .equals => r.items.any (listed k)
  | some k, .notEquals => !r.items.any (listed k)

def clauseHolds : Clause → Bool
  | .relation r => x.relationHolds r
  | .broken .. => false

def conditionHolds : Condition → Bool
  | .always => true
  | .anyOf groups => groups.any fun g => g.clauses.all x.clauseHolds

/-- The category of the first rule that holds, those of `other` apart, and else `other`. -/
def category (set : RuleSet) : Category :=
  ((set.rules.find? fun (category, text) =>
    decide (category ≠ .other) && x.conditionHolds (Rule.read text).condition).map (·.1)).getD
      .other

end Exact

/-! ### Which rules -/

/-- Numbers that are not rounded. -/
def Item.Small : Item → Prop
  | .value n => n < Double.wholeBound
  | .range first last => first < Double.wholeBound ∧ last < Double.wholeBound

/-- Numbers that are not rounded, and a modulus that does not see folding. -/
structure Relation.Small (r : Relation) : Prop where
  items : ∀ item ∈ r.items, item.Small
  modulus : ∀ m ∈ r.modulus, m ∣ foldBase

/-- The relation belongs to a rule that is tried. -/
def RuleSet.Tries (set : RuleSet) (r : Relation) : Prop :=
  ∃ category text, (category, text) ∈ set.rules ∧ category ≠ .other ∧
    .relation r ∈ (Rule.read text).condition.clauses

/-! ### Verdicts on clauses -/

/-- The verdict on a condition depends on the verdicts on its clauses. -/
theorem any_all_congr {groups : List Group} {p q : Clause → Bool}
    (h : ∀ g ∈ groups, ∀ clause ∈ g.clauses, p clause = q clause) :
    groups.any (fun g => g.clauses.all p) = groups.any fun g => g.clauses.all q := by
  have hall : ∀ g ∈ groups, g.clauses.all p = g.clauses.all q := by
    intro g hg
    rw [Bool.eq_iff_iff, List.all_eq_true, List.all_eq_true]
    exact forall₂_congr fun clause hclause => by rw [h g hg clause hclause]
  rw [Bool.eq_iff_iff, List.any_eq_true, List.any_eq_true]
  exact exists_congr fun g => and_congr_right fun hg => by rw [hall g hg]

/-! ### Folded numbers are not small -/

theorem wholeBound_le_foldBase : Double.wholeBound ≤ foldBase := by decide

namespace Exact

/-! ### Listed numbers -/

/-- Nothing is listed from the bound on. -/
theorem listed_of_le {item : Item} (h : item.Small) {k : Nat} (hk : Double.wholeBound ≤ k) :
    listed k item = false := by
  cases item with
  | value n =>
    have hn : n < Double.wholeBound := h
    simp only [listed, beq_eq_false_iff_ne]
    omega
  | range first last =>
    obtain ⟨-, hlast⟩ : first < Double.wholeBound ∧ last < Double.wholeBound := h
    simp only [listed, Bool.and_eq_false_iff, decide_eq_false_iff_not]
    omega

theorem listed_fold {item : Item} (h : item.Small) (k : Nat) :
    listed (fold k) item = listed k item := by
  rcases Nat.lt_or_ge k foldBase with hk | hk
  · rw [fold_of_lt hk]
  · have hfold : Double.wholeBound ≤ fold k :=
      Nat.le_trans wholeBound_le_foldBase (foldBase_le_fold hk)
    rw [listed_of_le h hfold, listed_of_le h (Nat.le_trans wholeBound_le_foldBase hk)]

/-- Rounded numbers are listed as the numbers themselves. -/
theorem contains_ofNat {item : Item} (h : item.Small) (k : Nat) :
    item.contains (Double.ofNat k) = listed k item := by
  have hwhole : listed k item = true → (Double.ofNat k).isWhole = true := by
    intro hlisted
    refine Double.isWhole_ofNat (Nat.le_of_lt (Nat.lt_of_not_le fun hk => ?_))
    rw [listed_of_le h hk] at hlisted
    exact absurd hlisted Bool.false_ne_true
  cases item with
  | value n =>
    have hn : n < Double.wholeBound := h
    have hcompare : Double.eq (Double.ofNat k) (Double.ofNat n) = listed k (.value n) := by
      unfold Double.eq
      rw [Double.le_ofNat_right hn, Double.le_ofNat_left hn, Bool.eq_iff_iff]
      simp only [listed, Bool.and_eq_true, decide_eq_true_eq, beq_iff_eq]
      omega
    unfold Item.contains
    dsimp only
    rw [hcompare]
    exact Bool.and_eq_right_iff_imp.2 hwhole
  | range first last =>
    obtain ⟨hfirst, hlast⟩ : first < Double.wholeBound ∧ last < Double.wholeBound := h
    have hcompare : (Double.le (Double.ofNat first) (Double.ofNat k) &&
        Double.le (Double.ofNat k) (Double.ofNat last)) = listed k (.range first last) := by
      rw [Double.le_ofNat_left hfirst, Double.le_ofNat_right hlast]
      rfl
    unfold Item.contains
    dsimp only
    rw [hcompare]
    exact Bool.and_eq_right_iff_imp.2 hwhole

/-! ### Values -/

theorem whole?_n_eq_some_iff {x : Exact} {k : Nat} :
    x.whole? .n = some k ↔ x.w = 0 ∧ x.i = k := by
  unfold whole?
  dsimp only
  rw [Option.ite_none_right_eq_some, Option.some.injEq]

/-- The library's operands hold a number itself, or what it folds to. -/
theorem integer_folded {x : Exact} {operand : Operand} {k : Nat} (h : x.whole? operand = some k) :
    x.folded.integer operand = k ∨ x.folded.integer operand = fold k := by
  cases operand with
  | n =>
    obtain ⟨-, rfl⟩ := whole?_n_eq_some_iff.1 h
    exact Or.inr rfl
  | i => cases h; exact Or.inr rfl
  | v => cases h; exact Or.inl rfl
  | w => cases h; exact Or.inl rfl
  | f => cases h; exact Or.inr rfl
  | t => cases h; exact Or.inr rfl
  | c => cases h; exact Or.inl rfl
  | e => cases h; exact Or.inl rfl

/-- Without a modulus, the number itself or what it folds to is rounded. -/
theorem value_folded {x : Exact} {operand : Operand} {k : Nat} (h : x.whole? operand = some k) :
    ∃ k', (k' = k ∨ k' = fold k) ∧ x.folded.value operand = Double.ofNat k' := by
  cases operand with
  | n =>
    obtain ⟨hw, rfl⟩ := whole?_n_eq_some_iff.1 h
    exact ⟨x.i, Or.inl rfl, folded_n hw⟩
  | _ => exact ⟨_, integer_folded h, rfl⟩

/-- With a modulus that does not see folding, the remainder of the number itself is rounded. -/
theorem reduced_folded {x : Exact} {operand : Operand} {k m : Nat}
    (h : x.whole? operand = some k) (hm : m ∣ foldBase) :
    x.folded.reduced operand (some m) = some (Double.ofNat (k % m)) := by
  have hmod : x.folded.integer operand % m = k % m := by
    rcases integer_folded h with heq | heq
    · rw [heq]
    · rw [heq, fold_mod hm]
  have hpos : 0 < m := Nat.pos_of_dvd_of_pos hm foldBase_pos
  by_cases hoperand : operand = .n
  · subst hoperand
    obtain ⟨hw, -⟩ := whole?_n_eq_some_iff.1 h
    have hfraction : x.folded.fractionValue = Double.zero := if_pos hw
    rw [Operands.reduced_n _ hpos, hfraction, Double.add_zero, ← hmod]
    rfl
  · rw [Operands.reduced_of_ne hoperand _ hpos, hmod]

/-- What the library compares is a rounded number that is listed when the exact one is. -/
theorem exists_reduced {x : Exact} {operand : Operand} {k : Nat} {modulus : Option Nat}
    (h : x.whole? operand = some k) (hm : ∀ m ∈ modulus, m ∣ foldBase) :
    ∃ k' exact, x.folded.reduced operand modulus = some (Double.ofNat k') ∧
      remainder k modulus = some exact ∧
      ∀ item : Item, item.Small → listed k' item = listed exact item := by
  cases modulus with
  | none =>
    obtain ⟨k', hk', hvalue⟩ := value_folded h
    refine ⟨k', k, congrArg some hvalue, rfl, fun item hitem => ?_⟩
    rcases hk' with rfl | rfl
    · rfl
    · exact listed_fold hitem k
  | some m =>
    have hdvd : m ∣ foldBase := hm m rfl
    refine ⟨k % m, k % m, reduced_folded h hdvd, ?_, fun _ _ => rfl⟩
    cases m with
    | zero => exact absurd hdvd (by decide)
    | succ m => rfl

/-! ### Relations, conditions and rules -/

theorem any_contains_ofNat {items : List Item} {k' k : Nat} (hitems : ∀ item ∈ items, item.Small)
    (hlisted : ∀ item : Item, item.Small → listed k' item = listed k item) :
    items.any (·.contains (Double.ofNat k')) = items.any (listed k) := by
  rw [Bool.eq_iff_iff, List.any_eq_true, List.any_eq_true]
  refine exists_congr fun item => and_congr_right fun hitem => ?_
  have hsmall : item.Small := hitems item hitem
  rw [contains_ofNat hsmall, hlisted item hsmall]

/-- A relation holds of the library's operands when it holds of the exact ones. -/
theorem holds_folded {x : Exact} {r : Relation} (hr : r.Small)
    (hn : x.w = 0 ∨ r.operand? ≠ some .n) : r.holds x.folded = x.relationHolds r := by
  unfold Relation.holds Relation.value relationHolds value
  cases hoperand : r.operand? with
  | none => rfl
  | some operand =>
    rw [hoperand] at hn
    obtain ⟨k, hk⟩ : ∃ k, x.whole? operand = some k := by
      cases operand with
      | n =>
        have hw : x.w = 0 := hn.resolve_right fun hne => hne rfl
        exact ⟨x.i, whole?_n_eq_some_iff.2 ⟨hw, rfl⟩⟩
      | _ => exact ⟨_, rfl⟩
    obtain ⟨k', exact, hreduced, hremainder, hlisted⟩ := exists_reduced hk hr.modulus
    have hany : r.lists (Double.ofNat k') = r.items.any (listed exact) :=
      any_contains_ofNat hr.items hlisted
    rw [Option.bind_some, Option.bind_some, hk, Option.bind_some, hreduced, hremainder]
    show r.accepts (Double.ofNat k') = _
    unfold Relation.accepts
    rw [hany]
    cases r.comparison <;> rfl

theorem conditionHolds_folded {x : Exact} {condition : Condition}
    (h : ∀ r, .relation r ∈ condition.clauses → r.Small ∧ (x.w = 0 ∨ r.operand? ≠ some .n)) :
    condition.holds x.folded = x.conditionHolds condition := by
  cases condition with
  | always => rfl
  | anyOf groups =>
    refine any_all_congr fun g hg clause hclause => ?_
    cases clause with
    | relation r =>
      obtain ⟨hsmall, hn⟩ := h r (List.mem_flatMap.2 ⟨g, hg, hclause⟩)
      exact holds_folded hsmall hn
    | broken text error => rfl

/-- The first rule that holds is the same. -/
theorem classify_folded {x : Exact} {set : RuleSet} (hsmall : ∀ r, set.Tries r → r.Small)
    (hn : x.w = 0 ∨ ∀ r, set.Tries r → r.operand? ≠ some .n) :
    set.compile.classify x.folded = x.category set := by
  have hcondition : ∀ category text, (category, text) ∈ set.rules → category ≠ .other →
      (Rule.read text).condition.holds x.folded =
        x.conditionHolds (Rule.read text).condition := by
    intro category text hmem hother
    refine conditionHolds_folded fun r hr => ?_
    have htries : set.Tries r := ⟨category, text, hmem, hother, hr⟩
    exact ⟨hsmall r htries, hn.imp_right fun h => h r htries⟩
  unfold category
  rw [RuleSet.classify_compile]
  congr 2
  refine List.find?_congr fun rule hrule => ?_
  obtain ⟨category, text⟩ := rule
  by_cases hother : category = .other
  · simp [takes, hother]
  · simp only [takes, hcondition category text hrule hother]

end Exact

/-- The category of a number is that of its exact operands. -/
theorem classify_eq_exact {text : String} {o : Operands} (hok : Operands.ofText text = .ok o) :
    ∃ x, Exact.ofText text = some x ∧ ∀ set : RuleSet, (∀ r, set.Tries r → r.Small) →
      (x.w = 0 ∨ ∀ r, set.Tries r → r.operand? ≠ some .n) →
        set.compile.classify o = x.category set := by
  obtain ⟨x, hx, rfl⟩ := exists_exact_of_ofText hok
  exact ⟨x, hx, fun set hsmall hn => Exact.classify_folded hsmall hn⟩

/-- What Lithuanian says of `one`, and nothing of all else. -/
def lithuanian : RuleSet := ⟨[(.one, "n % 10 = 1 and n % 100 != 11..19"), (.other, "")]⟩

theorem small_of_lithuanian (r : Relation) (h : lithuanian.Tries r) : r.Small := by
  obtain ⟨category, text, hmem, hother, hr⟩ := h
  simp only [lithuanian, List.mem_cons, Prod.mk.injEq, List.not_mem_nil, or_false] at hmem
  rcases hmem with ⟨rfl, rfl⟩ | ⟨rfl, rfl⟩
  · have hclauses : (Rule.read "n % 10 = 1 and n % 100 != 11..19").condition.clauses =
        [.relation ⟨'n', some 10, .equals, [.value 1]⟩,
          .relation ⟨'n', some 100, .notEquals, [.range 11 19]⟩] := by
      decide +kernel
    rw [hclauses] at hr
    simp only [List.mem_cons, Clause.relation.injEq, List.not_mem_nil, or_false] at hr
    rcases hr with rfl | rfl
    · exact ⟨by simp [Item.Small, Double.wholeBound], by simp [foldBase]⟩
    · exact ⟨by simp [Item.Small, Double.wholeBound], by simp [foldBase]⟩
  · exact absurd rfl hother

/-- The last two digits decide, however many there are. -/
theorem classify_eq_exact_lithuanian :
    ∃ o, Operands.ofText "100000000000000000000000000021" = .ok o ∧
      lithuanian.compile.classify o = .one := by
  have hread : Exact.ofText "100000000000000000000000000021" =
      some ⟨100000000000000000000000000021, 0, 0⟩ := by
    decide
  obtain ⟨o, ho⟩ : ∃ o, Operands.ofText "100000000000000000000000000021" = .ok o := ⟨_, rfl⟩
  obtain ⟨x, hx, hexact⟩ := classify_eq_exact ho
  rw [hread] at hx
  cases hx
  refine ⟨o, ho, (hexact lithuanian small_of_lithuanian (Or.inl rfl)).trans ?_⟩
  decide +kernel

end PluralForms
