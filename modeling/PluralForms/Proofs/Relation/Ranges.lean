import Mathlib.Data.List.Range
import Mathlib.Logic.Relation
import PluralForms.Proofs.Binary.Order
import PluralForms.Relation.Basic

/-!
# A range means its numbers

A value is compared with the two ends of a range, which are rounded, and with a single number,
which is rounded too. Past `2 ^ 53` rounding moves numbers, so an end may come to stand on a number
outside of the range. It makes no difference, because rounding keeps the order: a whole value
between the rounded ends is a number of the range, or one of the ends is rounded to it.

    contains_range_iff : first ≤ last →
      ((range first last).contains x ↔ some number from first to last, alone, contains x)

So a list may be edited in all ways that keep its numbers (`ListEdit`): a range cut in two or
spelled out, items put in another order or written again. No edit changes a verdict.
-/

namespace PluralForms

open Binary

/-! ### Ranges -/

namespace Item

theorem contains_value_iff {n : Nat} {x : Double} :
    (Item.value n).contains x = true ↔ x.isWhole = true ∧ x.eq (Double.ofNat n) = true := by
  simp [contains]

theorem contains_range_iff_ends {first last : Nat} {x : Double} :
    (Item.range first last).contains x = true ↔
      x.isWhole = true ∧ Double.le (Double.ofNat first) x = true ∧
        Double.le x (Double.ofNat last) = true := by
  simp [contains]

theorem contains_range_iff {first last : Nat} (h : first ≤ last) (x : Double) :
    (Item.range first last).contains x = true ↔
      ∃ k, first ≤ k ∧ k ≤ last ∧ (Item.value k).contains x = true := by
  simp only [contains_range_iff_ends, contains_value_iff, Double.eq_iff]
  constructor
  · rintro ⟨hwhole, hfirst, hlast⟩
    obtain ⟨k, hk⟩ := Double.exists_eq_ofNat hwhole hfirst
    obtain ⟨hxk, hkx⟩ := Double.eq_iff.1 hk
    rcases Nat.lt_or_ge k first with hlow | hlow
    · -- the first number is rounded down to the value
      have hxfirst := Double.le_trans hxk (Double.le_ofNat (Nat.le_of_lt hlow))
      exact ⟨first, Nat.le_refl _, h, hwhole, hxfirst, hfirst⟩
    · rcases Nat.lt_or_ge last k with hhigh | hhigh
      · -- the last number is rounded up to it
        have hlastx := Double.le_trans (Double.le_ofNat (Nat.le_of_lt hhigh)) hkx
        exact ⟨last, h, Nat.le_refl _, hwhole, hlast, hlastx⟩
      · exact ⟨k, hlow, hhigh, hwhole, hxk, hkx⟩
  · rintro ⟨k, hlow, hhigh, hwhole, hxk, hkx⟩
    refine ⟨hwhole, ?_, ?_⟩
    · exact Double.le_trans (Double.le_ofNat hlow) hkx
    · exact Double.le_trans hxk (Double.le_ofNat hhigh)

/-- The numbers from `first` to `last`, one by one. -/
def spelled (first last : Nat) : List Item :=
  (List.range' first (last + 1 - first)).map .value

theorem contains_range_spelled {first last : Nat} (h : first ≤ last) (x : Double) :
    (Item.range first last).contains x = (spelled first last).any (·.contains x) := by
  rw [Bool.eq_iff_iff, contains_range_iff h, List.any_eq_true]
  unfold spelled
  constructor
  · rintro ⟨k, hlow, hhigh, hk⟩
    refine ⟨.value k, List.mem_map_of_mem (List.mem_range'_1.2 ?_), hk⟩
    omega
  · rintro ⟨item, hitem, hcontains⟩
    obtain ⟨k, hk, rfl⟩ := List.mem_map.1 hitem
    have hbounds := List.mem_range'_1.1 hk
    exact ⟨k, by omega, by omega, hcontains⟩

theorem contains_range_cut {first mid last : Nat} (hmid : first ≤ mid) (hlast : mid < last)
    (x : Double) :
    (Item.range first last).contains x =
      ((Item.range first mid).contains x || (Item.range (mid + 1) last).contains x) := by
  rw [Bool.eq_iff_iff, Bool.or_eq_true, contains_range_iff (by omega), contains_range_iff hmid,
    contains_range_iff hlast]
  constructor
  · rintro ⟨k, hlow, hhigh, hk⟩
    rcases Nat.lt_or_ge mid k with hcut | hcut
    · exact Or.inr ⟨k, hcut, hhigh, hk⟩
    · exact Or.inl ⟨k, hlow, hcut, hk⟩
  · rintro (⟨k, hlow, hhigh, hk⟩ | ⟨k, hlow, hhigh, hk⟩)
    · exact ⟨k, hlow, by omega, hk⟩
    · exact ⟨k, by omega, hhigh, hk⟩

end Item

/-! ### Edits of a list -/

/-- An edit of a list of items that keeps its numbers. -/
inductive ListEdit : List Item → List Item → Prop
  /-- A range is cut in two behind one of its numbers. -/
  | cut {before after first mid last} : first ≤ mid → mid < last →
      ListEdit (before ++ .range first last :: after)
        (before ++ .range first mid :: .range (mid + 1) last :: after)
  /-- A range is replaced by all its numbers. -/
  | spell {before after first last} : first ≤ last →
      ListEdit (before ++ .range first last :: after)
        (before ++ (Item.spelled first last ++ after))
  /-- The same items in any order, each as often as one likes. -/
  | rearrange {items items'} : (∀ item, item ∈ items ↔ item ∈ items') → ListEdit items items'

theorem ListEdit.any_contains {items items' : List Item} (h : ListEdit items items') (x : Double) :
    items.any (·.contains x) = items'.any (·.contains x) := by
  cases h with
  | cut hmid hlast =>
    simp only [List.any_append, List.any_cons, Item.contains_range_cut hmid hlast, Bool.or_assoc]
  | spell hle =>
    simp only [List.any_append, List.any_cons, Item.contains_range_spelled hle]
  | rearrange hsame =>
    rw [Bool.eq_iff_iff, List.any_eq_true, List.any_eq_true]
    simp only [hsame]

/-- Edits may follow each other, and may be taken back. -/
theorem any_contains_of_edits {items items' : List Item}
    (h : Relation.EqvGen ListEdit items items') (x : Double) :
    items.any (·.contains x) = items'.any (·.contains x) := by
  induction h with
  | rel _ _ hedit => exact hedit.any_contains x
  | refl => rfl
  | symm _ _ _ ih => exact ih.symm
  | trans _ _ _ _ _ ih ih' => exact ih.trans ih'

namespace Relation

/-- A verdict depends on what is listed, not on how. -/
theorem holds_congr_items {r : Relation} {items : List Item}
    (h : ∀ x, items.any (·.contains x) = r.items.any (·.contains x)) (o : Operands) :
    ({ r with items := items } : Relation).holds o = r.holds o := by
  have haccepts : ({ r with items := items } : Relation).accepts = r.accepts := by
    funext x
    simp only [accepts, lists, h]
  show (r.value o).any _ = (r.value o).any _
  rw [haccepts]

/-- For every value, also one that is no number: a range contains it exactly if one of its numbers
does. And for every relation: edits of the list, one after the other, leave its verdicts alone. -/
theorem range_means_numbers :
    (∀ first last : Nat, first ≤ last → ∀ x : Double,
      ((Item.range first last).contains x = true ↔
        ∃ k, first ≤ k ∧ k ≤ last ∧ (Item.value k).contains x = true)) ∧
    ∀ (r : Relation) (items : List Item), Relation.EqvGen ListEdit r.items items →
      ∀ o : Operands, ({ r with items := items } : Relation).holds o = r.holds o :=
  ⟨fun _ _ h x => Item.contains_range_iff h x,
    fun _ _ h o => holds_congr_items (fun x => (any_contains_of_edits h x).symm) o⟩

/-- `2 ^ 53` lies in a range that begins above it: the first number of the range is rounded to it.
It still does when the numbers are written out, in another order and one of them twice. -/
theorem range_means_numbers_rounded :
    (9007199254740993 ≤ 9007199254740995 ∧
      ∃ k, 9007199254740993 ≤ k ∧ k ≤ 9007199254740995 ∧
        (Item.value k).contains (Double.ofNat 9007199254740992) = true) ∧
    Relation.EqvGen ListEdit [.range 9007199254740993 9007199254740995]
      [.value 9007199254740995, .value 9007199254740993, .value 9007199254740994,
        .value 9007199254740993] ∧
    Relation.holds ⟨'n', none, .equals, [.value 9007199254740995, .value 9007199254740993,
      .value 9007199254740994, .value 9007199254740993]⟩ (.ofNat 9007199254740992) =
      Relation.holds ⟨'n', none, .equals, [.range 9007199254740993 9007199254740995]⟩
        (.ofNat 9007199254740992) := by
  have hle : 9007199254740993 ≤ 9007199254740995 := by decide
  have hspell : ListEdit [.range 9007199254740993 9007199254740995]
      [.value 9007199254740993, .value 9007199254740994, .value 9007199254740995] :=
    @ListEdit.spell [] [] _ _ hle
  have hrearrange : ListEdit
      [.value 9007199254740993, .value 9007199254740994, .value 9007199254740995]
      [.value 9007199254740995, .value 9007199254740993, .value 9007199254740994,
        .value 9007199254740993] := by
    refine .rearrange fun item => ?_
    simp only [List.mem_cons, List.not_mem_nil]
    grind
  have hedits := Relation.EqvGen.trans _ _ _ (.rel _ _ hspell) (.rel _ _ hrearrange)
  refine ⟨⟨hle, ?_⟩, hedits, ?_⟩
  · exact (range_means_numbers.1 _ _ hle _).1 (by decide +kernel)
  · exact range_means_numbers.2 ⟨'n', none, .equals, _⟩ _ hedits _

end Relation

end PluralForms
