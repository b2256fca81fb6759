import PluralForms.Proofs.Operands.Written

/-!
# Plain numerals

A plain numeral has digits and perhaps a point with more digits behind it, but no sign and no
exponent. It writes its digits as one number, divided by ten as often as there are digits behind the
point, and its operands are those of this number:

    ofText_of_writesPlain :
      WritesPlain cs scaled places → Operands.ofText (String.ofList cs) =
        .ok (Exact.mk scaled places 0).folded
-/

namespace PluralForms.Numeral

/-- `cs` writes `scaled / 10 ^ places` in digits, with a point in front of the fraction. -/
inductive WritesPlain : List Char → Nat → Nat → Prop
  | mk {whole behind fraction} : whole ≠ [] → IsDigits whole → WritesFraction behind fraction →
      WritesPlain (whole ++ behind) (digitsValue (whole ++ fraction)) fraction.length

variable {cs : List Char} {scaled places : Nat}

theorem ofText_of_writesPlain (h : WritesPlain cs scaled places) :
    Operands.ofText (String.ofList cs) = .ok (Exact.mk scaled places 0).folded := by
  obtain @⟨whole, behind, fraction, hne, hwhole, hfraction⟩ := h
  have hwrites : Writes (whole ++ behind) ⟨⟨whole, fraction⟩, none⟩ := by
    simpa using Writes.mk .none hne hwhole hfraction .none
  refine ofText_eq_ok_iff.2 ⟨⟨⟨whole, fraction⟩, none⟩, written_ofList hwrites, Nat.zero_le _, ?_⟩
  unfold exact
  simp

end PluralForms.Numeral
