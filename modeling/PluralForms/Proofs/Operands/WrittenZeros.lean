import PluralForms.Proofs.Operands.Coherent

/-!
# Zeros that are asked for and zeros that are written

To have a number counted with more fraction digits one can ask for them, or write zeros behind its
fraction. If the numeral has an exponent, that moves the point, so `digits` visible digits take a
fraction of `digits + exponent` digits behind the point that is written. Either way the operands are
the same:

    withFractionDigits_eq_written : the operands of a numeral, with more fraction digits asked for,
      are those of the numeral with the zeros written; with fewer asked for they stay

In the exact number that is written, the zeros behind the fraction go where `appendZeros` puts them
(`exact_fill`), and so do zeros that are asked for in two turns.
-/

namespace PluralForms

namespace Numeral

/-! ### Longer fractions -/

/-- How many fraction digits there are after the point is moved. -/
def visible (numeral : Numeral) : Nat :=
  ((numeral.decimal.fraction.length : Int) - numeral.power).toNat

/-- The numeral with zeros written behind its fraction until that has so many digits. -/
def fill (numeral : Numeral) (length : Nat) : Numeral where
  decimal := {
    whole := numeral.decimal.whole
    fraction := numeral.decimal.fraction ++
      List.replicate (length - numeral.decimal.fraction.length) '0' }
  exponent := numeral.exponent

variable {numeral : Numeral}

/-- Zeros behind the fraction are zeros behind the number. -/
theorem exact_fill {digits : Nat} (h : numeral.visible < digits) :
    (numeral.fill (digits + numeral.power).toNat).exact =
      numeral.exact.appendZeros (digits - numeral.visible) := by
  obtain ⟨⟨whole, fraction⟩, exponent⟩ := numeral
  unfold visible power at h
  unfold exact fill Exact.appendZeros visible power
  dsimp only at h ⊢
  generalize exponent.getD 0 = e at h ⊢
  have hlength : fraction.length + ((digits + e).toNat - fraction.length) = (digits + e).toNat := by
    omega
  -- the fraction is long enough for the exponent now
  have hreached : (e - ((digits + e).toNat : Int)).toNat = 0 := by omega
  have hplaces : (((digits + e).toNat : Int) - e).toNat =
      (fraction.length - e).toNat + (digits - (fraction.length - e).toNat) := by
    omega
  have hzeros : (digits + e).toNat - fraction.length =
      (e - fraction.length).toNat + (digits - (fraction.length - e).toNat) := by
    omega
  rw [← List.append_assoc, digitsValue_append, digitsValue_replicate_zero, List.length_append,
    List.length_replicate, hlength, hreached, hplaces, hzeros, Nat.pow_add]
  simp [Nat.mul_assoc]

/-! ### Texts -/

/-- A numeral that is written can be written with a longer fraction. -/
theorem exists_written_fill {text : String} (h : numeral.Written text) (length : Nat) :
    ∃ longer, (numeral.fill length).Written longer := by
  unfold Written at h
  generalize Text.trim text.toList = cs at h
  obtain @⟨_, whole, _, fraction, _, _, hsign, hne, hwhole, hfraction, hexponent⟩ := h
  have hdigits : IsDigits (fraction ++ List.replicate (length - fraction.length) '0') := by
    apply isDigits_append.2
    exact ⟨isDigits_of_writesFraction hfraction, isDigits_replicate_zero _⟩
  have hfilled : ∃ behind, WritesFraction behind
      (fraction ++ List.replicate (length - fraction.length) '0') := by
    by_cases hempty : fraction ++ List.replicate (length - fraction.length) '0' = []
    · rw [hempty]
      exact ⟨_, .none⟩
    · exact ⟨_, .some hempty hdigits⟩
  obtain ⟨behind', hbehind⟩ := hfilled
  exact ⟨_, written_ofList (.mk hsign hne hwhole hbehind hexponent)⟩

end Numeral

/-! ### Zeros in two turns -/

namespace Exact

theorem appendZeros_appendZeros (x : Exact) (a b : Nat) :
    (x.appendZeros a).appendZeros b = x.appendZeros (a + b) := by
  simp [appendZeros, Nat.pow_add, Nat.mul_assoc, Nat.add_assoc]

theorem withFractionDigits_max (x : Exact) (a b : Nat) :
    (x.folded.withFractionDigits a).withFractionDigits b =
      x.folded.withFractionDigits (max a b) := by
  have htotal : a - x.places + (b - (x.places + (a - x.places))) = max a b - x.places := by
    omega
  rw [withFractionDigits_folded, withFractionDigits_folded, withFractionDigits_folded,
    appendZeros_appendZeros]
  exact congrArg (fun zeros => (x.appendZeros zeros).folded) htotal

end Exact

namespace Operands

/-- More fraction digits are counted as if zeros were written behind the fraction, and fewer are not
counted. The most that were ever asked for count. -/
theorem withFractionDigits_eq_written :
    (∀ text o (numeral : Numeral), numeral.Written text → ofText text = .ok o → ∀ digits,
      (digits ≤ numeral.visible → o.withFractionDigits digits = o) ∧
      (numeral.visible < digits →
        (∃ longer, (numeral.fill (digits + numeral.power).toNat).Written longer) ∧
        ∀ longer, (numeral.fill (digits + numeral.power).toNat).Written longer →
          ofText longer = .ok (o.withFractionDigits digits))) ∧
    (∀ o, Obtained o → ∀ a b,
      (o.withFractionDigits a).withFractionDigits b = o.withFractionDigits (max a b)) := by
  constructor
  · intro text o numeral hwritten hok digits
    obtain ⟨numeral', hwritten', hbound, rfl⟩ := ofText_eq_ok_iff.1 hok
    obtain rfl : numeral = numeral' := Numeral.written_unique hwritten hwritten'
    constructor
    · intro hfew
      exact if_pos hfew
    · intro hmore
      refine ⟨Numeral.exists_written_fill hwritten _, fun longer hlonger => ?_⟩
      refine ofText_eq_ok_iff.2 ⟨_, hlonger, hbound, ?_⟩
      rw [Numeral.exact_fill hmore]
      exact numeral.exact.withFractionDigits_folded digits
  · intro o h a b
    obtain ⟨x, rfl⟩ := exists_exact h
    exact x.withFractionDigits_max a b

/-- A number of thousands: twenty visible digits take twenty-three that are written. -/
theorem withFractionDigits_eq_written_thousands :
    Numeral.Written ⟨⟨['1'], ['2', '5']⟩, some 3⟩ "-1.25c3" ∧
      ∃ o, ofText "-1.25c3" = .ok o ∧
        ofText "1.25000000000000000000000e3" = .ok (o.withFractionDigits 20) := by
  have hwritten : Numeral.Written ⟨⟨['1'], ['2', '5']⟩, some 3⟩ "-1.25c3" :=
    Numeral.read_eq_some_iff.1 (by decide +kernel)
  have hlonger : Numeral.Written (Numeral.fill ⟨⟨['1'], ['2', '5']⟩, some 3⟩ 23)
      "1.25000000000000000000000e3" :=
    Numeral.read_eq_some_iff.1 (by decide +kernel)
  have hok := ofText_eq_ok_iff.2 ⟨_, hwritten, by decide, rfl⟩
  exact ⟨hwritten, _, hok,
    ((withFractionDigits_eq_written.1 _ _ _ hwritten hok 20).2 (by decide)).2 _ hlonger⟩

end Operands

end PluralForms
