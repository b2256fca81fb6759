import PluralForms.Number
import PluralForms.Proofs.Condition.Rereading
import PluralForms.Proofs.Rule.RoundTrip

/-!
# Rules read from their canonical text

Any text at all is read as a rule, broken clauses included, and the canonical text of that rule has
its samples still. Its condition gives the same verdicts, unless a clause of the text hides an `or`
behind a blank that is no space, as `\tor i = 2` does: the canonical text leaves the blank out, and
the `or` then joins what it did not join before.

    read_render_read : the samples are the same, and the verdicts, unless an `or` is hidden
    exists_read_render_ne : a text whose verdict on a number is another one then
-/

namespace PluralForms.Rule

theorem legible_read (text : String) : (read text).Legible where
  unmarked := by
    rw [condition_read]
    exact Condition.unmarked_render_readChars (Text.mark_not_mem_takeWhile text.toList)
  trimmed := by
    rw [condition_read]
    exact (Condition.trimmed_render_readChars _).1
  samples := isSamples_read text

/-- A clause of the rule hides an `or`. -/
def HidesOr (text : String) : Prop := Condition.HidesOr (conditionText text.toList)

instance (text : String) : Decidable (HidesOr text) := by
  unfold HidesOr
  infer_instance

/-- Reading a rule's canonical text gives its samples, and its verdicts as well if no `or` is
hidden; nothing is, where all blanks of the condition are spaces. -/
theorem read_render_read (text : String) :
    (read (read text).render).integerSamples = (read text).integerSamples ∧
    (read (read text).render).decimalSamples = (read text).decimalSamples ∧
    (¬HidesOr text → ∀ o : Operands,
      (read (read text).render).condition.holds o = (read text).condition.holds o) ∧
    (HidesOr text → ∃ c ∈ conditionText text.toList, Text.isBlank c = true ∧ c ≠ ' ') := by
  have hread := read_render_of_legible (legible_read text)
  have hcondition : (read (read text).render).condition =
      Condition.readChars (read text).condition.render.toList := by rw [hread]
  refine ⟨by rw [hread], by rw [hread], fun hhides o => ?_, fun hhides => ?_⟩
  · rw [hcondition, condition_read]
    exact Condition.holds_readChars_render hhides o
  · by_contra hspaces
    refine Condition.not_hidesOr_of_spaces (fun c hc hblank => ?_) hhides
    by_contra hspace
    exact hspaces ⟨c, hc, hblank, hspace⟩

/-- The clause `x and\t` loses its blank, and the clause behind it is cut off elsewhere; in another
text a tab hides an `or`. -/
theorem read_render_read_moved :
    (¬HidesOr "i = 1 and x and\t and i = 2 or v = 0 @integer 1" ∧
      read (read "i = 1 and x and\t and i = 2 or v = 0 @integer 1").render ≠
        read "i = 1 and x and\t and i = 2 or v = 0 @integer 1" ∧
      ∀ o, (read
          (read "i = 1 and x and\t and i = 2 or v = 0 @integer 1").render).condition.holds o =
        (read "i = 1 and x and\t and i = 2 or v = 0 @integer 1").condition.holds o) ∧
    HidesOr "v = 0 and or\t and i = 2" ∧
      ∃ c ∈ conditionText "v = 0 and or\t and i = 2".toList, Text.isBlank c = true ∧ c ≠ ' ' := by
  have hclear : ¬HidesOr "i = 1 and x and\t and i = 2 or v = 0 @integer 1" := by decide +kernel
  have hhidden : HidesOr "v = 0 and or\t and i = 2" := by decide +kernel
  exact ⟨⟨hclear, by decide +kernel, (read_render_read _).2.2.1 hclear⟩,
    hhidden, (read_render_read _).2.2.2 hhidden⟩

/-- The clause `\tor i = 2` is broken, so nothing holds of 2; without its blank it is none, and its
`or` sets `i = 2` free. -/
theorem exists_read_render_ne :
    HidesOr "i = 1 and \tor i = 2" ∧ ∃ o, Operands.ofText "2" = .ok o ∧
      (read "i = 1 and \tor i = 2").condition.holds o = false ∧
      (read (read "i = 1 and \tor i = 2").render).condition.holds o = true := by
  refine ⟨by decide +kernel, Operands.ofInt 2, ?_, ?_, ?_⟩
  all_goals decide +kernel

end PluralForms.Rule
