import PluralForms.Proofs.Numeral.Outcomes
import PluralForms.Proofs.Sample.Tokens
import PluralForms.Proofs.Word.Operands

/-!
# Numerals in words

The operands of a numeral are read off its digits after the point is moved among them: a sum of
signed words says where it stands then, and differences of sizes say how many zeros have to be
written. At most eighteen digits at a time are read as a word, and the whole number without an
exponent is read as a floating-point number. All of this is checked, and nothing goes wrong as long
as the texts can be held, the one that is given and the one that is written out for it:

    ofText_yields : the operands of a numeral, or the reason why it has none, are those that are
      computed with unbounded numbers
-/

namespace PluralForms

open Binary Checked Text

/-! ### Moving the point -/

/-- Digits with the point behind the first `point` of them, and zeros where the digits do not
reach. -/
def Decimal.pointed (digits : List Char) (point : Int) : Decimal :=
  if point ≤ 0 then ⟨['0'], List.replicate point.natAbs '0' ++ digits⟩
  else if digits.length ≤ point.toNat then
    ⟨digits ++ List.replicate (point.toNat - digits.length) '0', []⟩
  else ⟨digits.take point.toNat, digits.drop point.toNat⟩

theorem Decimal.shift_eq_pointed (d : Decimal) (exponent : Int) :
    d.shift exponent = pointed (d.whole ++ d.fraction) (d.whole.length + exponent) := rfl

namespace Word

/-- Digits with the point where a signed word says. -/
def pointed (digits : List Char) (point : Word) : Checked Decimal :=
  if point.toInt ≤ 0 then do
    return ⟨['0'], ← build ((← zeros point.abs) ++ digits)⟩
  else do
    let length ← size digits
    if length ≤ point.abs then
      return ⟨← build (digits ++ (← zeros (← sub point.abs length))), []⟩
    else
      let (whole, fraction) ← cut digits point.abs
      return ⟨whole, fraction⟩

/-- The number with its point moved by a signed word. -/
def shiftPoint (d : Decimal) (exponent : Word) : Checked Decimal := do
  let digits ← build (d.whole ++ d.fraction)
  let point ← addSigned (← toSigned (← size d.whole)) exponent
  pointed digits point

end Word

/-- The number without an exponent, as it is written. -/
def Decimal.positional (d : Decimal) : List Char :=
  if d.fraction = [] then d.whole else d.whole ++ '.' :: d.fraction

section Digits

variable {as bs : List Char}

theorem holdable_iff_of_isDigits (h : IsDigits as) : Holdable as ↔ as.length < 2 ^ (63 : Nat) := by
  unfold Holdable
  rw [byteLength_of_isDigits h]

theorem holdable_of_append (h : Holdable (as ++ bs)) : Holdable as ∧ Holdable bs := by
  unfold Holdable at *
  rw [byteLength_append] at h
  omega

/-- What is written has no fewer digits than the parts around the point. -/
theorem holdable_parts {d : Decimal} (h : Holdable d.positional) :
    Holdable d.whole ∧ Holdable d.fraction := by
  unfold Decimal.positional at h
  split at h
  · next hnone =>
    rw [hnone]
    exact ⟨h, by decide⟩
  · obtain ⟨hwhole, hbehind⟩ := holdable_of_append h
    rw [← List.singleton_append] at hbehind
    exact ⟨hwhole, (holdable_of_append hbehind).2⟩

/-- With fewer digits in front of its point, the number is written in a shorter text. -/
theorem holdable_positional {d : Decimal} (h : Holdable d.positional)
    (hle : byteLength as ≤ byteLength d.whole) :
    Holdable (Decimal.positional ⟨as, d.fraction⟩) := by
  unfold Decimal.positional Holdable at *
  dsimp only
  split
  · next hnone =>
    rw [if_pos hnone] at h
    omega
  · next hsome =>
    rw [if_neg hsome, byteLength_append] at h
    rw [byteLength_append]
    omega

end Digits

/-- A point behind the last digit is where the digits end, zeros included, so it can be counted. -/
theorem point_lt {digits : List Char} {point : Int} (hds : IsDigits digits)
    (hdigits : Holdable digits) (h : Holdable (Decimal.pointed digits point).whole) :
    point < 2 ^ (63 : Nat) := by
  by_contra hlarge
  rw [holdable_iff_of_isDigits hds] at hdigits
  unfold Decimal.pointed at h
  rw [if_neg (by omega), if_pos (by omega), holdable_iff_of_isDigits
    (isDigits_append.2 ⟨hds, isDigits_replicate_zero _⟩), List.length_append,
    List.length_replicate] at h
  omega

theorem Word.pointed_yields {digits : List Char} {point : Word} (hds : IsDigits digits)
    (hdigits : Holdable digits) (hpoint : point.toInt.natAbs < 2 ^ (63 : Nat))
    (hwhole : Holdable (Decimal.pointed digits point.toInt).whole)
    (hfraction : Holdable (Decimal.pointed digits point.toInt).fraction) :
    Yields (pointed digits point) (· = Decimal.pointed digits point.toInt) := by
  have habs : point.abs.toNat = point.toInt.natAbs := toNat_abs point
  unfold Decimal.pointed at hwhole hfraction ⊢
  unfold pointed
  split
  · next hleft =>
    rw [if_pos hleft, ← habs] at hfraction
    refine (zeros_yields (by omega)).bind fun zeros hzeros => ?_
    subst hzeros
    refine (build_yields hfraction).bind fun fraction hbuilt => yields_pure ?_
    rw [hbuilt, habs]
  · next hright =>
    have hnat : point.toInt.toNat = point.abs.toNat := by omega
    rw [if_neg hright, hnat] at hwhole
    refine (size_yields hdigits).bind fun length hlength => ?_
    rw [byteLength_of_isDigits hds] at hlength
    simp only [BitVec.le_def, hlength, hnat]
    split
    · next hreach =>
      rw [if_pos hreach] at hwhole
      refine (sub_yields (by omega)).bind fun missing hmissing => ?_
      rw [hlength] at hmissing
      refine (zeros_yields (by omega)).bind fun zeros hzeros => ?_
      rw [hmissing] at hzeros
      subst hzeros
      refine (build_yields hwhole).bind fun whole hbuilt => yields_pure ?_
      rw [hbuilt]
    · next hinside =>
      refine (cut_digits_yields hds (by omega)).bind fun parts hparts => yields_pure ?_
      rw [hparts]

theorem Word.shiftPoint_yields {d : Decimal} {exponent : Word} (hwhole : IsDigits d.whole)
    (hfraction : IsDigits d.fraction) (hdigits : Holdable (d.whole ++ d.fraction))
    (hexponent : exponent.toInt.natAbs ≤ exponentBound)
    (hshifted : Holdable (d.shift exponent.toInt).positional) :
    Yields (shiftPoint d exponent) (· = d.shift exponent.toInt) := by
  have hall : IsDigits (d.whole ++ d.fraction) := isDigits_append.2 ⟨hwhole, hfraction⟩
  have hheld := (holdable_of_append hdigits).1
  have hlength := (holdable_iff_of_isDigits hwhole).1 hheld
  obtain ⟨hshiftedWhole, hshiftedFraction⟩ := holdable_parts hshifted
  rw [Decimal.shift_eq_pointed] at hshiftedWhole hshiftedFraction ⊢
  have hpoint := point_lt hall hdigits hshiftedWhole
  unfold exponentBound at hexponent
  refine (build_yields hdigits).bind fun digits heq => ?_
  subst heq
  refine (size_yields hheld).bind fun width hwidth => ?_
  rw [byteLength_of_isDigits hwhole] at hwidth
  refine (toSigned_yields (by omega)).bind fun start hstart => ?_
  rw [hwidth] at hstart
  refine (addSigned_yields (by omega) (by omega)).bind fun point hsum => ?_
  rw [hstart] at hsum
  rw [← hsum] at hshiftedWhole hshiftedFraction ⊢
  exact pointed_yields hall hdigits (by omega) hshiftedWhole hshiftedFraction

/-! ### Reading digits -/

namespace Word

/-- The number of a list of digits, folded by counting them. -/
def foldDigits (digits : List Char) : Checked Word := do
  let counted := digits.dropWhile (· == '0')
  if counted = [] then return 0
  else
    let length ← size counted
    if length ≤ 18 then expect (read counted)
    else
      let (_, low) ← cut counted (← sub length 18)
      add foldBase (← expect (read low))

/-- Up to eighteen digits fit a word. -/
theorem read_yields {ds : List Char} (hne : ds ≠ []) (hds : IsDigits ds) (hfew : ds.length ≤ 18) :
    Yields (expect (read ds)) fun r => r.toNat = digitsValue ds ∧
      digitsValue ds < PluralForms.foldBase := by
  have hlt : digitsValue ds < PluralForms.foldBase :=
    Nat.lt_of_lt_of_le (digitsValue_lt hds) (Nat.pow_le_pow_right (by decide) hfew)
  have hbound : PluralForms.foldBase < 2 ^ 64 := by decide
  have hfits : digitsValue ds ≤ maxWord := Nat.le_sub_one_of_lt (Nat.lt_trans hlt hbound)
  have hread := read_of_isDigits hne hds
  rw [if_pos hfits] at hread
  refine (expect_yields hread).imp fun r hr => ⟨?_, hlt⟩
  rw [hr, BitVec.toNat_ofNat, Nat.mod_eq_of_lt (Nat.lt_trans hlt hbound)]

theorem foldDigits_yields {ds : List Char} (hds : IsDigits ds) (h : Holdable ds) :
    Yields (foldDigits ds) (·.toNat = PluralForms.fold (digitsValue ds)) := by
  rw [← foldDigits_eq_fold hds]
  obtain ⟨count, hcount⟩ := exists_zeros_append ds
  unfold foldDigits PluralForms.foldDigits
  dsimp only
  generalize ds.dropWhile (· == '0') = counted at hcount ⊢
  subst hcount
  have hcounted : IsDigits counted := (isDigits_append.1 hds).2
  split
  · next hnone =>
    rw [hnone]
    exact yields_pure rfl
  · next hsome =>
    refine (size_yields (holdable_of_append h).2).bind fun length hlength => ?_
    rw [byteLength_of_isDigits hcounted] at hlength
    have hfew : length ≤ 18 ↔ counted.length ≤ 18 := by
      rw [BitVec.le_def, hlength]
      rfl
    simp only [hfew]
    split
    · next hfew => exact (read_yields hsome hcounted hfew).imp fun r hr => hr.1
    · next hmany =>
      have h18 : (18 : Word).toNat = 18 := rfl
      refine (sub_yields (by omega)).bind fun place hplace => ?_
      rw [hlength, h18] at hplace
      have hlow : (counted.drop (counted.length - 18)).length = 18 := by
        rw [List.length_drop]
        omega
      refine (cut_digits_yields hcounted (by omega)).bind fun parts hparts => ?_
      rw [hplace] at hparts
      subst hparts
      refine (read_yields (List.ne_nil_of_length_pos (by omega))
        (fun c hc => hcounted c (List.mem_of_mem_drop hc)) (Nat.le_of_eq hlow)).bind
        fun low hvalue => ?_
      rw [← hvalue.1]
      exact add_foldBase_yields (by omega)

end Word

/-- The floating-point number nearest to a number in digits, which may have a point among them or at
one of their ends. -/
def readDouble (cs : List Char) : Option Double :=
  let (whole, fraction) := pointParts cs
  if whole ++ fraction ≠ [] ∧ (whole ++ fraction).all Char.isDigit then
    some (Double.nearest (digitsValue (whole ++ fraction)) (10 ^ fraction.length))
  else none

theorem readDouble_of_spells {cs : List Char} {digits width : Nat} (h : Spells cs digits width) :
    readDouble cs = some (Double.nearest digits (10 ^ width)) := by
  obtain ⟨whole, fraction, hparts, hne, hwhole, hfraction, rfl, rfl⟩ := exists_pointParts h
  have hall : (whole ++ fraction).all Char.isDigit = true :=
    List.all_eq_true.2 (isDigits_append.2 ⟨hwhole, hfraction⟩)
  unfold readDouble
  rw [hparts]
  exact if_pos ⟨List.append_ne_nil_of_left_ne_nil hne _, hall⟩

theorem spells_positional {d : Decimal} (hne : d.whole ≠ []) (hwhole : IsDigits d.whole)
    (hfraction : IsDigits d.fraction) :
    Spells d.positional (digitsValue (d.whole ++ d.fraction)) d.fraction.length := by
  unfold Decimal.positional
  split
  · next hnone =>
    rw [hnone, List.append_nil]
    exact .whole hne hwhole
  · exact .pointed hne hwhole hfraction

/-! ### Operands of numerals -/

/-- The digits without the zeros in front of them, and a zero if there are no others. -/
def withoutLead (digits : List Char) : List Char :=
  if digits.dropWhile (· == '0') = [] then ['0'] else digits.dropWhile (· == '0')

/-- Without the zeros in front there are still digits, which count as much. -/
theorem withoutLead_spec {ds : List Char} (hne : ds ≠ []) (hds : IsDigits ds) :
    withoutLead ds ≠ [] ∧ IsDigits (withoutLead ds) ∧ (withoutLead ds).length ≤ ds.length ∧
      ∀ behind, digitsValue (withoutLead ds ++ behind) = digitsValue (ds ++ behind) := by
  obtain ⟨count, hcount⟩ := exists_zeros_append ds
  unfold withoutLead
  generalize ds.dropWhile (· == '0') = counted at hcount ⊢
  subst hcount
  split
  · next hnone =>
    subst hnone
    refine ⟨List.cons_ne_nil _ _, isDigits_replicate_zero 1, List.length_pos_of_ne_nil hne, ?_⟩
    intro behind
    rw [List.append_nil, digitsValue_zeros_append]
    exact digitsValue_zeros_append 1 behind
  · next hsome =>
    refine ⟨hsome, (isDigits_append.1 hds).2, by simp, fun behind => ?_⟩
    rw [List.append_assoc, digitsValue_zeros_append]

/-- The zeros that are left out stand behind the other digits. -/
theorem prefix_significant (d : Decimal) : d.significant <+: d.fraction := by
  have hsuffix := List.dropWhile_suffix (· == '0') (l := d.fraction.reverse)
  unfold Decimal.significant
  rw [← List.reverse_suffix, List.reverse_reverse]
  exact hsuffix

theorem isDigits_significant {d : Decimal} (h : IsDigits d.fraction) : IsDigits d.significant :=
  fun c hc => h c ((prefix_significant d).subset hc)

theorem holdable_significant {d : Decimal} (h : Holdable d.fraction) :
    Holdable d.significant := by
  obtain ⟨zeros, hzeros⟩ := prefix_significant d
  rw [← hzeros] at h
  exact (holdable_of_append h).1

/-- There are digits in front of the point wherever it is moved. -/
theorem shift_whole_ne_nil {d : Decimal} (hne : d.whole ≠ []) (exponent : Int) :
    (d.shift exponent).whole ≠ [] := by
  have hdigits : d.whole ++ d.fraction ≠ [] := List.append_ne_nil_of_left_ne_nil hne _
  rw [Decimal.shift_eq_pointed]
  unfold Decimal.pointed
  split
  · exact List.cons_ne_nil _ _
  · split
    · exact List.append_ne_nil_of_left_ne_nil hdigits _
    · intro htake
      rcases List.take_eq_nil_iff.1 htake with hnone | hnil
      · omega
      · exact hdigits hnil

namespace WordOperands

/-- The operands of a written number with its point moved by a signed word. -/
def ofDecimal (d : Decimal) (exponent : Word) : Checked WordOperands := do
  let shifted ← Word.shiftPoint d exponent
  let whole := withoutLead shifted.whole
  let n ← expect (readDouble (← build (Decimal.positional ⟨whole, shifted.fraction⟩)))
  let i ← Word.foldDigits whole
  let v ← size shifted.fraction
  let w ← size shifted.significant
  let f ← Word.foldDigits shifted.fraction
  let t ← Word.foldDigits shifted.significant
  let c ← expect (toUnsigned? (if exponent.toInt ≤ 0 then 0 else exponent))
  return ⟨n, i, v, w, f, t, c⟩

/-- The operands of a text, or the reason why it has none. -/
def ofText (input : String) : Checked (Except NumberError WordOperands) :=
  match Numeral.read (trim input.toList) with
  | none => return .error (.malformed input)
  | some numeral =>
    if fitsSignedWord numeral.power then
      let exponent : Word := BitVec.ofInt 64 numeral.power
      if BitVec.ofNat 64 exponentBound < exponent.abs then
        return .error (.exponentOutOfRange input exponent.toInt)
      else do return .ok (← ofDecimal numeral.decimal exponent)
    else return .error (.malformed input)

/-- The compact exponent is there, whatever the exponent. -/
theorem compact_yields (exponent : Word) :
    Yields (expect (toUnsigned? (if exponent.toInt ≤ 0 then 0 else exponent)))
      (·.toNat = exponent.toInt.toNat) := by
  split
  · next hneg =>
    refine (expect_yields rfl).imp fun c hc => ?_
    rw [hc, Int.toNat_of_nonpos hneg]
    rfl
  · next hpos =>
    obtain ⟨hsome, hvalue⟩ := toUnsigned?_of_nonneg (a := exponent) (by omega)
    refine (expect_yields hsome).imp fun c hc => ?_
    rw [hc]
    omega

theorem ofDecimal_yields {d : Decimal} {exponent : Word} (hne : d.whole ≠ [])
    (hwhole : IsDigits d.whole) (hfraction : IsDigits d.fraction)
    (hdigits : Holdable (d.whole ++ d.fraction))
    (hexponent : exponent.toInt.natAbs ≤ exponentBound)
    (hshifted : Holdable (d.shift exponent.toInt).positional) :
    Yields (ofDecimal d exponent) (·.operands =
      Operands.ofDecimal (d.shift exponent.toInt) exponent.toInt.toNat) := by
  refine (Word.shiftPoint_yields hwhole hfraction hdigits hexponent hshifted).bind
    fun shifted heq => ?_
  obtain ⟨hwhole, hfraction, -, -⟩ := shift_spec d exponent.toInt hwhole hfraction
  have hne := shift_whole_ne_nil hne exponent.toInt
  rw [← heq] at hshifted hwhole hfraction hne ⊢
  obtain ⟨hne', hlead, hshorter, hvalue⟩ := withoutLead_spec hne hwhole
  obtain ⟨hheldWhole, hheldFraction⟩ := holdable_parts hshifted
  have hsignificant := isDigits_significant hfraction
  have hheldSignificant := holdable_significant hheldFraction
  have hbytes : byteLength (withoutLead shifted.whole) ≤ byteLength shifted.whole := by
    rwa [byteLength_of_isDigits hlead, byteLength_of_isDigits hwhole]
  refine (build_yields (holdable_positional hshifted hbytes)).bind fun written hbuilt => ?_
  subst hbuilt
  have hspells := spells_positional (d := ⟨withoutLead shifted.whole, shifted.fraction⟩)
    hne' hlead hfraction
  refine (expect_yields (readDouble_of_spells hspells)).bind fun n hn => ?_
  refine (Word.foldDigits_yields hlead (Nat.lt_of_le_of_lt hbytes hheldWhole)).bind
    fun i hi => ?_
  refine (size_yields hheldFraction).bind fun v hv => ?_
  refine (size_yields hheldSignificant).bind fun w hw => ?_
  refine (Word.foldDigits_yields hfraction hheldFraction).bind fun f hf => ?_
  refine (Word.foldDigits_yields hsignificant hheldSignificant).bind fun t ht => ?_
  refine (compact_yields exponent).bind fun c hc => yields_pure ?_
  have hwhole0 := hvalue []
  rw [List.append_nil, List.append_nil] at hwhole0
  rw [hvalue] at hn
  rw [hwhole0] at hi
  rw [byteLength_of_isDigits hfraction] at hv
  rw [byteLength_of_isDigits hsignificant] at hw
  unfold operands Operands.ofDecimal
  dsimp only
  rw [hn, hi, hv, hw, hf, ht, hc]

/-- A numeral has digits in front of its point. -/
theorem whole_ne_nil_of_writes {cs : List Char} {numeral : Numeral}
    (h : Numeral.Writes cs numeral) : numeral.decimal.whole ≠ [] := by
  obtain ⟨-, hne, -, -, -⟩ := h
  exact hne

/-- The digits of a numeral are part of the text that writes it. -/
theorem byteLength_digits_le {numeral : Numeral} {text : String} (h : numeral.Written text) :
    byteLength (numeral.decimal.whole ++ numeral.decimal.fraction) ≤ byteLength text.toList := by
  obtain ⟨front, back, -, -, htrim⟩ := exists_trim text.toList
  have hbytes := congrArg byteLength htrim
  rw [byteLength_append, byteLength_append] at hbytes
  unfold Numeral.Written at h
  generalize trim text.toList = cs at h hbytes
  obtain ⟨-, -, -, hfraction, -⟩ := h
  simp only [byteLength_append] at hbytes ⊢
  cases hfraction with
  | none =>
    rw [byteLength_nil]
    omega
  | some =>
    rw [byteLength_cons] at hbytes
    omega

/-- The texts that are read for the operands of a text can be held: the text itself, and the number
without an exponent that is written out for it. -/
def Readable (text : String) : Prop :=
  Holdable text.toList ∧ ∀ numeral : Numeral, numeral.Written text → numeral.InRange →
    Holdable (numeral.decimal.shift numeral.power).positional

/-- A signed word holds each exponent that fits one. -/
theorem toInt_power {numeral : Numeral} (h : numeral.FitsWord) :
    (BitVec.ofInt 64 numeral.power).toInt = numeral.power :=
  BitVec.toInt_ofInt_eq_self (by decide) h.1 h.2

theorem ofText_yields {text : String} (h : Readable text) :
    Yields (ofText text) (·.map operands = Operands.ofText text) := by
  unfold ofText
  rcases written_cases text with hnone | ⟨numeral, hwritten, hkind⟩
  · rw [ofText_of_not_written hnone]
    have hread : Numeral.read (trim text.toList) = none := by
      rw [Option.eq_none_iff_forall_ne_some]
      exact fun numeral hread => hnone ⟨numeral, Numeral.read_eq_some_iff.1 hread⟩
    rw [hread]
    exact yields_pure rfl
  · have hread := Numeral.read_eq_some_iff.2 hwritten
    rw [hread]
    dsimp only
    have hbound : BitVec.ofNat 64 exponentBound < (BitVec.ofInt 64 numeral.power).abs ↔
        exponentBound < (BitVec.ofInt 64 numeral.power).toInt.natAbs := by
      rw [BitVec.lt_def, toNat_abs]
      rfl
    simp only [hbound]
    rcases hkind with hrange | ⟨hfits, hrange⟩ | hfits
    · have hexponent := toInt_power hrange.fitsWord
      have hinside := Numeral.inRange_iff.1 hrange
      rw [if_pos (Numeral.fitsSignedWord_iff.2 hrange.fitsWord), if_neg (by rwa [hexponent])]
      obtain ⟨hwhole, hfraction⟩ := Numeral.isDigits_of_read hread
      have hdigits : Holdable (numeral.decimal.whole ++ numeral.decimal.fraction) :=
        Nat.lt_of_le_of_lt (byteLength_digits_le hwritten) h.1
      have hne := whole_ne_nil_of_writes hwritten
      refine (ofDecimal_yields hne hwhole hfraction hdigits (by rw [hexponent]; omega)
        (by rw [hexponent]; exact h.2 numeral hwritten hrange)).bind fun x hx => yields_pure ?_
      rw [ofText_of_inRange hwritten hrange, ← ofNumeral_eq_folded hwhole hfraction]
      rw [hexponent] at hx
      exact congrArg Except.ok hx
    · have hexponent := toInt_power hfits
      rw [if_pos (Numeral.fitsSignedWord_iff.2 hfits), if_pos, hexponent,
        ofText_of_not_inRange hwritten hfits hrange]
      · exact yields_pure rfl
      · rw [hexponent]
        rw [Numeral.inRange_iff] at hrange
        omega
    · rw [if_neg (by rwa [Numeral.fitsSignedWord_iff]), ofText_of_not_fitsWord hwritten hfits]
      exact yields_pure rfl

/-! ### How long a text may be -/

/-- An exponent in range makes a number longer by no more than a thousand digits and a point. -/
theorem length_shift_le (d : Decimal) {exponent : Int} (h : exponent.natAbs ≤ exponentBound) :
    (d.shift exponent).whole.length + (d.shift exponent).fraction.length ≤
      (d.whole ++ d.fraction).length + 1001 := by
  unfold exponentBound at h
  have hlength : d.whole.length ≤ (d.whole ++ d.fraction).length := by simp
  rw [Decimal.shift_eq_pointed]
  unfold Decimal.pointed
  split
  · simp only [List.length_singleton, List.length_append, List.length_replicate]
    omega
  · split
    · simp only [List.length_nil, List.length_append, List.length_replicate]
      omega
    · simp only [List.length_take, List.length_drop]
      omega

/-- Every text can be read that is a thousand bytes shorter than the longest one. -/
theorem readable_of_byteLength_lt {text : String}
    (h : byteLength text.toList + 1002 < 2 ^ (63 : Nat)) : Readable text := by
  refine ⟨Nat.lt_of_le_of_lt (Nat.le_add_right _ _) h, fun numeral hwritten hrange => ?_⟩
  obtain ⟨hwhole, hfraction⟩ := Numeral.isDigits_of_read (Numeral.read_eq_some_iff.2 hwritten)
  have hdigits := byteLength_digits_le hwritten
  rw [byteLength_of_isDigits (isDigits_append.2 ⟨hwhole, hfraction⟩)] at hdigits
  have hshift := length_shift_le numeral.decimal
    (Nat.le_of_not_lt (Numeral.inRange_iff.1 hrange))
  obtain ⟨hwhole, hfraction, -, -⟩ := shift_spec numeral.decimal numeral.power hwhole hfraction
  have hone : ('.' : Char).utf8Size = 1 := rfl
  unfold Decimal.positional Holdable
  split
  · rw [byteLength_of_isDigits hwhole]
    omega
  · rw [byteLength_append, byteLength_cons, byteLength_of_isDigits hwhole,
      byteLength_of_isDigits hfraction]
    omega

end WordOperands

end PluralForms
