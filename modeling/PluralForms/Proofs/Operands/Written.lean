import Mathlib.Order.Bounds.Basic
import PluralForms.Proofs.Binary.Nearest
import PluralForms.Proofs.Numeral.Grammar
import PluralForms.Proofs.Operands.Exact

/-!
# The operands of a written number

A numeral with the digits `I` before its point, the digits `F` behind it and the exponent `E` writes
the number `A / 10 ^ v`, where `v` places are left behind the point after it is moved by `E`, and
`A` is `I` followed by `F`, and by zeros if `E` reaches past them. All operands are quotients and
remainders of `A`, folded where they may be large, and `n` is the double-precision number nearest to
`A / 10 ^ v`. That is said by `Exact.Describes`, of the number `numeral.exact` that has `A` and `v`
as its parts; and the operands of a text are so described, whatever the text:

    ofText_describes : which texts have operands, what these are, and what they do not depend on
-/

namespace PluralForms

open Binary

/-! ### What the operands are -/

/-- The operands of the number `scaled / 10 ^ places`, by division only. -/
structure Exact.Describes (x : Exact) (o : Operands) : Prop where
  n : Double.IsNearest x.scaled (10 ^ x.places) o.n
  i : o.i = fold (x.scaled / 10 ^ x.places)
  v : o.v = x.places
  f : o.f = fold (x.scaled % 10 ^ x.places)
  /-- So few digits that only zeros are left out. -/
  w : IsLeast {w | w ≤ x.places ∧ 10 ^ (x.places - w) ∣ x.scaled % 10 ^ x.places} o.w
  t : o.t = fold (x.scaled % 10 ^ x.places / 10 ^ (x.places - o.w))
  c : o.c = x.compact

/-- Without the zeros it ends in, a fraction is divided by ten as often as there are zeros. -/
theorem stripZeros_value (places value : Nat) :
    (stripZeros places value).2 = value / 10 ^ (places - (stripZeros places value).1) := by
  induction places generalizing value with
  | zero => simp [stripZeros]
  | succ places ih =>
    unfold stripZeros
    split
    · rw [ih, Nat.div_div_eq_div_mul, Nat.succ_sub (stripZeros_le_places _ _), Nat.pow_succ,
        Nat.mul_comm]
    · simp

theorem Exact.isLeast_w (x : Exact) :
    IsLeast {w | w ≤ x.places ∧ 10 ^ (x.places - w) ∣ x.scaled % 10 ^ x.places} x.w := by
  constructor
  · have hw : x.w ≤ x.places := stripZeros_le_places _ _
    exact ⟨hw, (stripZeros_le_iff hw).1 (Nat.le_refl _)⟩
  · rintro w ⟨hw, hdvd⟩
    exact (stripZeros_le_iff hw).2 hdvd

theorem Exact.n_folded (x : Exact) : x.folded.n = Double.nearest x.scaled (10 ^ x.places) := by
  unfold folded
  dsimp only

theorem Exact.describes_folded (x : Exact) : x.Describes x.folded where
  n := by
    rw [x.n_folded]
    exact Double.isNearest_nearest x.scaled (Nat.pow_pos (by decide))
  i := rfl
  v := rfl
  f := rfl
  w := x.isLeast_w
  t := congrArg fold (stripZeros_value x.places (x.scaled % 10 ^ x.places))
  c := rfl

/-! ### Texts -/

/-- The numeral that a text writes, blanks around it ignored. -/
def Numeral.Written (numeral : Numeral) (text : String) : Prop :=
  Numeral.Writes (Text.trim text.toList) numeral

theorem Numeral.written_unique {numeral numeral' : Numeral} {text : String}
    (h : numeral.Written text) (h' : numeral'.Written text) : numeral = numeral' :=
  Option.some.inj ((Numeral.read_eq_some_iff.2 h).symm.trans (Numeral.read_eq_some_iff.2 h'))

theorem Numeral.written_ofList {cs : List Char} {numeral : Numeral}
    (h : Numeral.Writes cs numeral) : numeral.Written (String.ofList cs) := by
  unfold Written
  rwa [String.toList_ofList, Text.trim_of_not_isBlank (Numeral.not_isBlank_of_writes h)]

/-- How far the point is moved. -/
def Numeral.power (numeral : Numeral) : Int := numeral.exponent.getD 0

/-- A point that is moved so little is moved by a number that fits a signed word. -/
theorem fitsSignedWord_of_le {z : Int} (h : z.natAbs ≤ exponentBound) :
    fitsSignedWord z = true := by
  unfold exponentBound at h
  simp only [fitsSignedWord, Bool.and_eq_true, decide_eq_true_eq]
  omega

/-- Of a text that writes a numeral, the exponent decides. -/
theorem ofText_of_written {numeral : Numeral} {text : String} (h : numeral.Written text) :
    Operands.ofText text =
      if !fitsSignedWord numeral.power then .error (.malformed text)
      else if exponentBound < numeral.power.natAbs then
        .error (.exponentOutOfRange text numeral.power)
      else .ok numeral.exact.folded := by
  have hread := Numeral.read_eq_some_iff.2 h
  obtain ⟨hwhole, hfraction⟩ := Numeral.isDigits_of_read hread
  unfold Operands.ofText
  rw [hread, ← ofNumeral_eq_folded hwhole hfraction]
  rfl

theorem ofText_of_not_written {text : String} (h : ¬∃ numeral : Numeral, numeral.Written text) :
    Operands.ofText text = .error (.malformed text) := by
  have hread : Numeral.read (Text.trim text.toList) = none :=
    Option.eq_none_iff_forall_ne_some.2 fun numeral hnumeral =>
      h ⟨numeral, Numeral.read_eq_some_iff.1 hnumeral⟩
  unfold Operands.ofText
  rw [hread]

theorem ofText_eq_ok_iff {text : String} {o : Operands} :
    Operands.ofText text = .ok o ↔
      ∃ numeral : Numeral, numeral.Written text ∧ numeral.power.natAbs ≤ exponentBound ∧
        o = numeral.exact.folded := by
  constructor
  · intro h
    by_cases hwritten : ∃ numeral : Numeral, numeral.Written text
    · obtain ⟨numeral, hnumeral⟩ := hwritten
      rw [ofText_of_written hnumeral] at h
      split at h
      · simp at h
      · split at h
        · simp at h
        · next hbound =>
          exact ⟨numeral, hnumeral, Nat.le_of_not_lt hbound, (Except.ok.inj h).symm⟩
    · rw [ofText_of_not_written hwritten] at h
      simp at h
  · rintro ⟨numeral, hnumeral, hbound, rfl⟩
    rw [ofText_of_written hnumeral, fitsSignedWord_of_le hbound, if_neg (by decide),
      if_neg (Nat.not_lt_of_le hbound)]

/-- Zeros in front change neither the number nor its places. -/
theorem exact_zeros_append (zeros : Nat) (whole fraction : List Char) (exponent : Option Int) :
    Numeral.exact ⟨⟨List.replicate zeros '0' ++ whole, fraction⟩, exponent⟩ =
      Numeral.exact ⟨⟨whole, fraction⟩, exponent⟩ := by
  unfold Numeral.exact
  dsimp only
  rw [List.append_assoc, digitsValue_zeros_append]

/-- A text has operands if it writes a numeral whose point is moved by no more than a thousand
places, and they are those of the exact number that is written. A minus sign, the letter of the
exponent and zeros in front are nothing to them. -/
theorem ofText_describes :
    (∀ text, (∃ o, Operands.ofText text = .ok o) ↔
      ∃ numeral : Numeral, numeral.Written text ∧ numeral.power.natAbs ≤ 1000) ∧
    (∀ text o (numeral : Numeral), Operands.ofText text = .ok o → numeral.Written text →
      numeral.exact.Describes o) ∧
    (∀ text text' whole fraction exponent zeros,
      Numeral.Written ⟨⟨whole, fraction⟩, exponent⟩ text →
      Numeral.Written ⟨⟨List.replicate zeros '0' ++ whole, fraction⟩, exponent⟩ text' →
        ∀ o, Operands.ofText text = .ok o ↔ Operands.ofText text' = .ok o) := by
  have hwritten : ∀ {text o} {numeral : Numeral}, numeral.Written text →
      (Operands.ofText text = .ok o ↔
        numeral.power.natAbs ≤ exponentBound ∧ o = numeral.exact.folded) := by
    intro text o numeral h
    rw [ofText_eq_ok_iff]
    constructor
    · rintro ⟨numeral', h', hbound, ho⟩
      obtain rfl : numeral = numeral' := Numeral.written_unique h h'
      exact ⟨hbound, ho⟩
    · rintro ⟨hbound, ho⟩
      exact ⟨numeral, h, hbound, ho⟩
  refine ⟨fun text => ?_, fun text o numeral hok h => ?_, ?_⟩
  · constructor
    · rintro ⟨o, hok⟩
      obtain ⟨numeral, h, hbound, -⟩ := ofText_eq_ok_iff.1 hok
      exact ⟨numeral, h, hbound⟩
    · rintro ⟨numeral, h, hbound⟩
      exact ⟨_, (hwritten h).2 ⟨hbound, rfl⟩⟩
  · obtain ⟨-, rfl⟩ := (hwritten h).1 hok
    exact numeral.exact.describes_folded
  · intro text text' whole fraction exponent zeros h h' o
    rw [hwritten h, hwritten h', exact_zeros_append]
    rfl

end PluralForms
