import PluralForms.Proofs.Operands.Fraction
import PluralForms.Relation.Basic

/-!
# Numbers with a fraction

A relation lists whole numbers, so of a number with a fraction `n` is never listed, with a modulus
or without one. But `n` is a rounded number, and what is left of it by a modulus is rounded again.
A number keeps its fraction in that as long as its digits make up a number below `2 ^ 52` and none
of them stands farther behind the point than place 323:

    holds_of_fraction : o.t ≠ 0 → n = … does not hold of o, and n != … does

Past that a fraction may be lost: eighteen nines behind the point make one.
-/

namespace PluralForms.Relation

open Binary

/-- What is not whole is not listed. -/
theorem lists_of_not_whole {r : Relation} {x : Double} (h : x.isWhole = false) :
    r.lists x = false := by
  unfold lists
  rw [List.any_eq_false]
  intro item _
  cases item <;> simp [Item.contains, h]

theorem holds_of_not_whole {r : Relation} {o : Operands} {x : Double} (hvalue : r.value o = some x)
    (hwhole : x.isWhole = false) : r.holds o = decide (r.comparison = .notEquals) := by
  unfold holds
  rw [hvalue, Option.any_some]
  unfold accepts
  rw [lists_of_not_whole hwhole]
  cases r.comparison <;> rfl

/-- A number with a fraction whose digits survive rounding is not listed. -/
theorem holds_of_fraction {text : String} {o : Operands} (hok : Operands.ofText text = .ok o)
    (ht : o.t ≠ 0) (hdigits : o.i * 10 ^ o.w + o.t < 2 ^ 52) (hplaces : o.w ≤ 323)
    {m : Option Nat} (hm : m ≠ some 0) (items : List Item) :
    Relation.holds ⟨'n', m, .equals, items⟩ o = false ∧
      Relation.holds ⟨'n', m, .notEquals, items⟩ o = true := by
  obtain ⟨x, -, rfl⟩ := exists_exact_of_ofText hok
  have hshort : x.Short := Exact.short_of_folded hdigits hplaces
  have hfraction : x.t ≠ 0 := fun hzero => ht (congrArg fold hzero)
  obtain ⟨value, hvalue, hwhole⟩ := hshort.exists_reduced_n hfraction hm
  exact ⟨holds_of_not_whole hvalue hwhole, holds_of_not_whole hvalue hwhole⟩

/-- Fifteen nines behind the point are not one. -/
theorem holds_of_fraction_nines :
    ∃ o, Operands.ofText "0.999999999999999" = .ok o ∧
      Relation.holds ⟨'n', some 10, .equals, [.value 1, .range 0 9]⟩ o = false ∧
        Relation.holds ⟨'n', some 10, .notEquals, [.value 1, .range 0 9]⟩ o = true := by
  have hok : Operands.ofText "0.999999999999999" =
      .ok (Exact.folded ⟨999999999999999, 15, 0⟩) := by
    decide +kernel
  refine ⟨_, hok, holds_of_fraction hok ?_ ?_ ?_ ?_ _⟩
  all_goals decide +kernel

/-- Eighteen nines are taken for one, with a modulus and without one. -/
theorem fraction_listed :
    ∃ o, Operands.ofText "0.999999999999999999" = .ok o ∧ o.t ≠ 0 ∧ ∀ m ∈ [none, some 10],
      Relation.holds ⟨'n', m, .equals, [.value 1]⟩ o = true ∧
        Relation.holds ⟨'n', m, .notEquals, [.value 1]⟩ o = false := by
  refine ⟨Exact.folded ⟨999999999999999999, 18, 0⟩, ?_, ?_, ?_⟩
  all_goals decide +kernel

end PluralForms.Relation
