import PluralForms.Proofs.Operands.Written

/-!
# What becomes of a text

A text that is to be a number has one of three outcomes. Without the blanks around it, it has the
form of a numeral or it has not, which is told by the grammar; and if it has, the exponent is small
enough, or it is too large but fits a word, or it fits no word. Each outcome is known from this, and
errors show the text as it was given, blanks included:

    ofText_outcomes : when a text has operands, when its exponent is out of range, and when it is
      malformed
-/

namespace PluralForms

namespace Numeral

/-- The exponent fits a signed word of 64 bits. -/
def FitsWord (numeral : Numeral) : Prop :=
  -(2 ^ (63 : Nat)) ≤ numeral.power ∧ numeral.power < 2 ^ (63 : Nat)

/-- The exponent moves the point by no more than a thousand places. -/
def InRange (numeral : Numeral) : Prop := -1000 ≤ numeral.power ∧ numeral.power ≤ 1000

instance (numeral : Numeral) : Decidable numeral.FitsWord := by
  unfold FitsWord
  infer_instance

instance (numeral : Numeral) : Decidable numeral.InRange := by
  unfold InRange
  infer_instance

variable {numeral : Numeral}

theorem fitsSignedWord_iff : fitsSignedWord numeral.power = true ↔ numeral.FitsWord := by
  unfold fitsSignedWord FitsWord
  rw [Bool.and_eq_true, decide_eq_true_iff, decide_eq_true_iff]

theorem inRange_iff : numeral.InRange ↔ ¬exponentBound < numeral.power.natAbs := by
  unfold InRange exponentBound
  omega

theorem InRange.fitsWord (h : numeral.InRange) : numeral.FitsWord :=
  fitsSignedWord_iff.1 (fitsSignedWord_of_le (Nat.le_of_not_lt (inRange_iff.1 h)))

/-- An exponent out of range is a written one. -/
theorem exponent_eq_some (h : ¬numeral.InRange) : numeral.exponent = some numeral.power := by
  unfold InRange power at h
  unfold power
  cases hexponent : numeral.exponent with
  | none => simp [hexponent] at h
  | some e => rfl

end Numeral

/-! ### The three outcomes -/

section Written

variable {numeral : Numeral} {text : String} (h : numeral.Written text)

include h

theorem ofText_of_inRange (hrange : numeral.InRange) :
    Operands.ofText text = .ok numeral.exact.folded := by
  rw [ofText_of_written h, Numeral.fitsSignedWord_iff.2 hrange.fitsWord, if_neg (by decide),
    if_neg (Numeral.inRange_iff.1 hrange)]

theorem ofText_of_not_inRange (hfits : numeral.FitsWord) (hrange : ¬numeral.InRange) :
    Operands.ofText text = .error (.exponentOutOfRange text numeral.power) := by
  rw [ofText_of_written h, Numeral.fitsSignedWord_iff.2 hfits, if_neg (by decide),
    if_pos (by simpa [Numeral.inRange_iff] using hrange)]

theorem ofText_of_not_fitsWord (hfits : ¬numeral.FitsWord) :
    Operands.ofText text = .error (.malformed text) := by
  rw [← Numeral.fitsSignedWord_iff, Bool.not_eq_true] at hfits
  rw [ofText_of_written h, hfits]
  rfl

end Written

/-- A text either has no form of a numeral, or its numeral has an exponent of one of three kinds. -/
theorem written_cases (text : String) :
    (¬∃ numeral : Numeral, numeral.Written text) ∨
      ∃ numeral : Numeral, numeral.Written text ∧
        (numeral.InRange ∨ (numeral.FitsWord ∧ ¬numeral.InRange) ∨ ¬numeral.FitsWord) := by
  by_cases hwritten : ∃ numeral : Numeral, numeral.Written text
  · obtain ⟨numeral, h⟩ := hwritten
    refine Or.inr ⟨numeral, h, ?_⟩
    by_cases hrange : numeral.InRange
    · exact Or.inl hrange
    · by_cases hfits : numeral.FitsWord
      · exact Or.inr (Or.inl ⟨hfits, hrange⟩)
      · exact Or.inr (Or.inr hfits)
  · exact Or.inl hwritten

/-- A text has operands if it writes a numeral whose exponent is in range. If the exponent is out of
range and fits a word, the error names it; every other text is malformed. Both errors show the whole
text. -/
theorem ofText_outcomes (text : String) :
    ((∃ o, Operands.ofText text = .ok o) ↔
      ∃ numeral : Numeral, numeral.Written text ∧ numeral.InRange) ∧
    (∀ input e, Operands.ofText text = .error (.exponentOutOfRange input e) ↔
      input = text ∧ ∃ numeral : Numeral, numeral.Written text ∧ numeral.exponent = some e ∧
        numeral.FitsWord ∧ ¬numeral.InRange) ∧
    (∀ input, Operands.ofText text = .error (.malformed input) ↔
      input = text ∧ ∀ numeral : Numeral, numeral.Written text → ¬numeral.FitsWord) ∧
    ∀ x, Operands.ofText text ≠ .error (.nonFinite x) := by
  rcases written_cases text with hnone | ⟨numeral, h, hkind⟩
  · have hoff : ∀ numeral : Numeral, ¬numeral.Written text := fun numeral h => hnone ⟨numeral, h⟩
    simp [ofText_of_not_written hnone, hoff, eq_comm]
  · have hunique : ∀ {other : Numeral}, other.Written text ↔ other = numeral :=
      ⟨fun hother => Numeral.written_unique hother h, fun heq => heq ▸ h⟩
    rcases hkind with hrange | ⟨hfits, hrange⟩ | hfits
    · simp [ofText_of_inRange h hrange, hunique, hrange, hrange.fitsWord]
    · simp [ofText_of_not_inRange h hfits hrange, hunique, hrange, hfits,
        Numeral.exponent_eq_some hrange, eq_comm]
    · have hrange : ¬numeral.InRange := fun hrange => hfits hrange.fitsWord
      simp [ofText_of_not_fitsWord h hfits, hunique, hrange, hfits, eq_comm]

end PluralForms
