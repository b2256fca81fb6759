import PluralForms.Proofs.Binary.Fractions
import PluralForms.Proofs.Binary.TenPowers
import PluralForms.Proofs.Numeral.DecimalText
import PluralForms.Proofs.Sample.Tokens

/-!
# Samples and the tokens they are written with

A plain numeral in a list of samples becomes a multiple of its last decimal place, the multiple
becomes a double-precision number by a division, and the sample is that number written out again
with as many places. When the digits survive this, the new text may have other zeros in front, but
it has the operands of the token:

    operands_ofScaled : the operands of the sample are those of scaled / 10 ^ places
    expandToken_of_asWritten : the token stands for one sample, which has its operands

* `Sample.AsWritten` - the tokens that are taken as they are written;
* `Sample.IsMultiple` - what a sample for so many hundredths, thousandths and so on is.
-/

namespace PluralForms

open Binary

namespace Sample

/-! ### Samples -/

/-- The digits survive: they make up a number below `2 ^ 52` and reach twenty-two places behind the
point at most, or they make up a whole number that is exact. -/
def Kept (scaled places : Nat) : Prop :=
  (scaled < Double.digitsBound ∧ places ≤ Double.tenBound) ∨
    (scaled ≤ Double.wholeBound ∧ places = 0)

instance (scaled places : Nat) : Decidable (Kept scaled places) :=
  inferInstanceAs (Decidable (_ ∨ _))

/-- Tokens that are taken as they are written: "and so on", whatever has an exponent mark, and plain
numerals whose digits survive. -/
inductive AsWritten : List Char → Prop
  | ellipsis {token} : isEllipsis token = true → AsWritten token
  | marked {token} : 'c' ∈ token ∨ 'e' ∈ token → AsWritten token
  | plain {token scaled places} : Numeral.WritesPlain token scaled places → Kept scaled places →
      AsWritten token

variable {scaled places : Nat}

theorem Kept.le (h : Kept scaled places) :
    scaled ≤ Double.wholeBound ∧ places ≤ Double.tenBound := by
  have hbound : Double.digitsBound ≤ Double.wholeBound := by decide
  rcases h with ⟨hscaled, hplaces⟩ | ⟨hscaled, rfl⟩
  · exact ⟨by omega, hplaces⟩
  · exact ⟨hscaled, Nat.zero_le _⟩

/-- The value of a sample, cut at its last place, has the digits that it was written with. -/
theorem Kept.exists_units (h : Kept scaled places) : ∃ units exact,
    Double.nearest scaled (10 ^ places) = .finite false units exact ∧
      roundDiv (units * 10 ^ places) Double.one = scaled := by
  rcases h with ⟨hscaled, hplaces⟩ | ⟨hscaled, rfl⟩
  · have hpos : 0 < 10 ^ places := Nat.pow_pos (by decide)
    have hden : 10 ^ places < Double.one :=
      Double.ten_pow_lt_one (Nat.le_trans hplaces (by decide))
    obtain ⟨exact, hfinite⟩ := Double.exists_nearest hpos hscaled hden
    exact ⟨_, exact, hfinite, Double.roundDiv_nearest hpos hscaled hden⟩
  · refine ⟨_, _, Double.ofNat_eq hscaled, ?_⟩
    rw [Nat.pow_zero, Nat.mul_one, roundDiv_mul_self _ Double.one_pos]

/-- A sample that keeps its digits is written as the decimal fraction that it was made from. -/
theorem render_ofScaled (h : Kept scaled places) :
    (ofScaled scaled places).render = String.ofList (Numeral.decimalText scaled places) := by
  obtain ⟨hscaled, hplaces⟩ := h.le
  obtain ⟨units, exact, hvalue, hround⟩ := h.exists_units
  unfold ofScaled render
  dsimp only
  rw [Double.pow_ten hplaces, Double.div_ten_pow hscaled hplaces, hvalue, Double.fixed_eq, hround]

theorem operands_ofScaled (h : Kept scaled places) :
    (ofScaled scaled places).operands = .ok (Exact.mk scaled places 0).folded := by
  unfold operands
  rw [render_ofScaled h]
  exact Numeral.ofText_of_writesPlain (Numeral.writesPlain_decimalText places scaled)

end Sample

/-! ### Tokens -/

/-- A token that is taken as it is written stands for one sample, which has its operands. -/
theorem expandToken_of_asWritten {token : List Char} (h : Sample.AsWritten token)
    (hellipsis : isEllipsis token = false) :
    ∃ sample, (expandToken 0 token).samples = [sample] ∧
      sample.operands = Operands.ofText (String.ofList token) := by
  cases h with
  | ellipsis hdots =>
    rw [hdots] at hellipsis
    exact absurd hellipsis.symm Bool.false_ne_true
  | marked hmark =>
    rw [expandToken_of_marked hellipsis hmark]
    exact ⟨_, rfl, rfl⟩
  | plain hplain hkept =>
    have hfits := Nat.le_trans hkept.le.1 (by decide : Double.wholeBound ≤ maxWord)
    rw [expandToken_of_spells (spells_of_writesPlain hplain)]
    · rw [Nat.zero_max, unitsAt_self]
      refine ⟨_, rfl, ?_⟩
      rw [Sample.operands_ofScaled hkept, Numeral.ofText_of_writesPlain hplain]
    · rwa [Nat.zero_max, unitsAt_self]

end PluralForms
