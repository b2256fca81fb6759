import PluralForms.Proofs.Word.Numerals

/-!
# Ranges of samples in words

The ends of a range are read as multiples of its last decimal place. Zeros are written behind their
digits for this, so many as a difference of sizes says, and a number that does not fit a word is
none. From the first multiple the range is gone through by adding one, and this stops in front of
the word behind the last multiple: there may be none.

    through_yields : the words from one to another, up to the greatest one
    expandRange_yields : the samples of a range are those that are computed with unbounded numbers

Together with the operands of numerals and integers, their zeros and their moduli this makes up
`words_suffice`.
-/

namespace PluralForms

open Binary Checked Text

/-! ### Multiples -/

/-- The digits that are read of a token if it is to have so many places, zeros behind them. -/
def paddedDigits? (token : List Char) (places : Nat) : Option (List Char) :=
  let (whole, fraction) := pointParts token
  if whole ≠ [] ∧ whole.all Char.isDigit ∧ fraction.all Char.isDigit ∧ fraction.length ≤ places then
    some (whole ++ fraction ++ List.replicate (places - fraction.length) '0')
  else none

/-- The parts around the point are no longer than the token. -/
theorem byteLength_pointParts_le (token : List Char) :
    byteLength (pointParts token).1 + byteLength (pointParts token).2 ≤ byteLength token := by
  rcases pointParts_cases token with ⟨hwhole, hnone⟩ | hparts
  · rw [hnone, ← hwhole]
    exact Nat.le_refl _
  · have hbytes := congrArg byteLength hparts
    rw [byteLength_append, byteLength_cons] at hbytes
    omega

theorem holdable_fraction {token : List Char} (h : Holdable token) :
    Holdable (pointParts token).2 :=
  Nat.lt_of_le_of_lt (Nat.le_trans (Nat.le_add_left _ _) (byteLength_pointParts_le token)) h

/-- No digits are read besides those of the token and the zeros in its places. -/
theorem holdable_of_mem_paddedDigits? {token ds : List Char} {places : Nat}
    (hlength : byteLength token + places < 2 ^ (63 : Nat)) (h : ds ∈ paddedDigits? token places) :
    Holdable ds := by
  have hparts := byteLength_pointParts_le token
  unfold paddedDigits? at h
  generalize pointParts token = parts at h hparts
  obtain ⟨whole, fraction⟩ := parts
  dsimp only at h hparts
  obtain ⟨⟨-, -, -, hshort⟩, hds⟩ := Option.ite_none_right_eq_some.1 h
  obtain rfl := Option.some.inj hds
  unfold Holdable
  rw [byteLength_append, byteLength_append, byteLength_of_isDigits (isDigits_replicate_zero _),
    List.length_replicate]
  omega

theorem paddedDigits?_eq_some {token ds : List Char} {places : Nat}
    (h : paddedDigits? token places = some ds) : ds ≠ [] ∧ IsDigits ds := by
  unfold paddedDigits? at h
  obtain ⟨⟨hne, hwhole, hfraction, -⟩, hds⟩ := Option.ite_none_right_eq_some.1 h
  obtain rfl := Option.some.inj hds
  refine ⟨List.append_ne_nil_of_left_ne_nil (List.append_ne_nil_of_left_ne_nil hne _) _, ?_⟩
  exact isDigits_append.2 ⟨isDigits_append.2
    ⟨List.all_eq_true.1 hwhole, List.all_eq_true.1 hfraction⟩, isDigits_replicate_zero _⟩

/-- A multiple is the number that these digits make up, if it fits a word. -/
theorem scaledValue_eq_bind (token : List Char) (places : Nat) :
    scaledValue token places = (paddedDigits? token places).bind fun ds =>
      if digitsValue ds ≤ maxWord then some (digitsValue ds) else none := by
  unfold scaledValue paddedDigits?
  generalize pointParts token = parts
  dsimp only
  split
  · have hvalue := digitsValue_append (parts.1 ++ parts.2)
      (List.replicate (places - parts.2.length) '0')
    rw [digitsValue_replicate_zero, List.length_replicate, Nat.add_zero] at hvalue
    rw [Option.bind_some, hvalue]
  · rfl

namespace Word

/-- The digits of a token, with zeros behind them for the places that it is to have. -/
def paddedDigits (token : List Char) (places : Word) : Checked (Option (List Char)) :=
  let (whole, fraction) := pointParts token
  if whole ≠ [] ∧ whole.all Char.isDigit ∧ fraction.all Char.isDigit then do
    let width ← size fraction
    if places < width then return none
    else
      let behind ← zeros (← sub places width)
      return some (← build (whole ++ fraction ++ behind))
  else return none

/-- A token as a multiple of `10 ^ (-places)`, if it is one. -/
def scaled (token : List Char) (places : Word) : Checked (Option Word) := do
  return (← paddedDigits token places).bind read

theorem paddedDigits_yields {token : List Char} {places : Word} (htoken : Holdable token)
    (hpadded : ∀ ds ∈ paddedDigits? token places.toNat, Holdable ds) :
    Yields (paddedDigits token places) (· = paddedDigits? token places.toNat) := by
  have hheld := holdable_fraction htoken
  unfold paddedDigits? at hpadded ⊢
  unfold paddedDigits
  generalize pointParts token = parts at hheld hpadded ⊢
  obtain ⟨whole, fraction⟩ := parts
  dsimp only at hheld hpadded ⊢
  by_cases hdigits : whole ≠ [] ∧ whole.all Char.isDigit ∧ fraction.all Char.isDigit
  · obtain ⟨hne, hwhole, hfraction⟩ := hdigits
    rw [if_pos ⟨hne, hwhole, hfraction⟩]
    refine (size_yields hheld).bind fun width hwidth => ?_
    rw [byteLength_of_isDigits (List.all_eq_true.1 hfraction)] at hwidth
    simp only [BitVec.lt_def, hwidth]
    split
    · next hlong =>
      rw [if_neg fun h => Nat.not_le_of_lt hlong h.2.2.2]
      exact yields_pure rfl
    · next hshort =>
      have hle : fraction.length ≤ places.toNat := Nat.le_of_not_lt hshort
      have hfits := hpadded _ (if_pos ⟨hne, hwhole, hfraction, hle⟩)
      have hzeros := (holdable_of_append hfits).2
      rw [holdable_iff_of_isDigits (isDigits_replicate_zero _), List.length_replicate] at hzeros
      rw [if_pos ⟨hne, hwhole, hfraction, hle⟩]
      refine (sub_yields (by omega)).bind fun missing hmissing => ?_
      rw [hwidth] at hmissing
      refine (zeros_yields (by omega)).bind fun behind hbehind => ?_
      rw [hmissing] at hbehind
      subst hbehind
      exact (build_yields hfits).bind fun digits hbuilt => yields_pure (congrArg some hbuilt)
  · rw [if_neg hdigits, if_neg fun h => hdigits ⟨h.1, h.2.1, h.2.2.1⟩]
    exact yields_pure rfl

/-- A number in digits is none if it does not fit a word. -/
theorem map_toNat_read {ds : List Char} (hne : ds ≠ []) (hds : IsDigits ds) :
    (read ds).map BitVec.toNat =
      if digitsValue ds ≤ maxWord then some (digitsValue ds) else none := by
  have hbound : maxWord < 2 ^ 64 := by decide
  rw [read_of_isDigits hne hds]
  split
  · rw [Option.map_some, BitVec.toNat_ofNat, Nat.mod_eq_of_lt (by omega)]
  · rfl

theorem scaled_yields {token : List Char} {places : Word} (htoken : Holdable token)
    (hpadded : ∀ ds ∈ paddedDigits? token places.toNat, Holdable ds) :
    Yields (scaled token places) (·.map BitVec.toNat = scaledValue token places.toNat) := by
  refine (paddedDigits_yields htoken hpadded).bind fun digits hdigits => yields_pure ?_
  rw [scaledValue_eq_bind, ← hdigits]
  cases digits with
  | none => rfl
  | some ds =>
    obtain ⟨hne, hds⟩ := paddedDigits?_eq_some hdigits.symm
    exact map_toNat_read hne hds

/-! ### Going through a range -/

/-- The first so many words from `first` to `last`; the word behind `last` is not computed. -/
def through : Nat → Word → Word → Checked (List Word)
  | 0, _, _ => return []
  | count + 1, first, last =>
    if first < last then do
      let next ← add first 1
      return first :: (← through count next last)
    else if first = last then return [first]
    else return []

theorem through_yields (count : Nat) (first last : Word) :
    Yields (through count first last) (·.map BitVec.toNat =
      (List.range (min (last.toNat + 1 - first.toNat) count)).map (first.toNat + ·)) := by
  induction count generalizing first with
  | zero =>
    rw [Nat.min_zero]
    exact yields_pure rfl
  | succ count ih =>
    unfold through
    simp only [BitVec.lt_def, BitVec.toNat_eq]
    split
    · next hless =>
      have hone : (1 : Word).toNat = 1 := rfl
      have hlast := last.isLt
      refine (add_yields (by omega)).bind fun next hnext => ?_
      refine (ih next).bind fun others hothers => yields_pure ?_
      have hcount : min (last.toNat + 1 - first.toNat) (count + 1) =
          min (last.toNat + 1 - next.toNat) count + 1 := by omega
      rw [List.map_cons, hothers, hcount, List.range_succ_eq_map, List.map_cons, List.map_map,
        Nat.add_zero]
      congr 1
      apply List.map_congr_left
      intro k _
      rw [hnext, hone, Function.comp_apply]
      omega
    · split
      · next hsame =>
        have hcount : min (last.toNat + 1 - first.toNat) (count + 1) = 1 := by omega
        rw [hcount]
        exact yields_pure rfl
      · have hcount : min (last.toNat + 1 - first.toNat) (count + 1) = 0 := by omega
        rw [hcount]
        exact yields_pure rfl

/-- The samples from one multiple to another, and what there is to tell about the range. -/
def rangeExpansion (start stop : List Char) (first last places : Word) : Checked Expansion :=
  let startText := String.ofList start
  let stopText := String.ofList stop
  if last < first then return ⟨[], [.emptySampleRange startText stopText]⟩
  else do
    let width ← sub last first
    let values ← through maxRangeSamples first last
    let samples := values.map fun value => Sample.ofScaled value.toNat places.toNat
    if BitVec.ofNat 64 maxRangeSamples ≤ width then
      return ⟨samples, [.truncatedSampleRange startText stopText]⟩
    else return ⟨samples, []⟩

/-- The greater one of two words. -/
def larger (a b : Word) : Word := if a ≤ b then b else a

/-- The samples of the range between two tokens; `none` if one of them is no number. -/
def expandRange (start stop : List Char) (least : Word) : Checked (Option Expansion) := do
  let startWidth ← size (pointParts start).2
  let stopWidth ← size (pointParts stop).2
  let places := larger least (larger startWidth stopWidth)
  match ← scaled start places with
  | none => return none
  | some first =>
    match ← scaled stop places with
    | none => return none
    | some last => return some (← rangeExpansion start stop first last places)

theorem toNat_larger (a b : Word) : (larger a b).toNat = max a.toNat b.toNat := by
  unfold larger
  simp only [BitVec.le_def]
  split <;> omega

end Word

/-- The samples from one multiple to another, in unbounded numbers. -/
def rangeBetween (start stop : List Char) (first last places : Nat) : Expansion :=
  let startText := String.ofList start
  let stopText := String.ofList stop
  if last < first then ⟨[], [.emptySampleRange startText stopText]⟩
  else if maxRangeSamples ≤ last - first then
    ⟨rangeSamples first last places, [.truncatedSampleRange startText stopText]⟩
  else ⟨rangeSamples first last places, []⟩

/-- What is no digit behind the point makes the token no number, whatever the places. -/
theorem scaledValue_eq_none {token : List Char} (h : ¬IsDigits (pointParts token).2)
    (places : Nat) : scaledValue token places = none := by
  unfold scaledValue
  generalize pointParts token = parts at h ⊢
  obtain ⟨whole, fraction⟩ := parts
  exact if_neg fun hdigits => h (List.all_eq_true.1 hdigits.2.2.1)

/-- The places that a range has, counted in bytes. Digits are bytes, and it does not matter how many
places there are if anything else stands behind the points. -/
def bytePlaces (start stop : List Char) (least : Nat) : Nat :=
  max least (max (byteLength (pointParts start).2) (byteLength (pointParts stop).2))

theorem expandRange_eq_bind (start stop : List Char) (least : Nat) :
    expandRange start stop least = (scaledValue start (bytePlaces start stop least)).bind
      fun first => (scaledValue stop (bytePlaces start stop least)).bind fun last =>
        some (rangeBetween start stop first last (bytePlaces start stop least)) := by
  unfold expandRange rangeBetween fractionWidth
  dsimp only
  by_cases hstart : IsDigits (pointParts start).2
  · by_cases hstop : IsDigits (pointParts stop).2
    · unfold bytePlaces
      rw [byteLength_of_isDigits hstart, byteLength_of_isDigits hstop]
      split
      · next hfirst hlast =>
        rw [hfirst, hlast, Option.bind_some, Option.bind_some]
        split_ifs <;> rfl
      · next hnone =>
        symm
        rw [Option.bind_eq_none_iff]
        intro first hfirst
        rw [Option.bind_eq_none_iff]
        intro last hlast
        exact absurd hlast (hnone first last hfirst)
    · have hnone := scaledValue_eq_none hstop
      simp only [hnone, Option.bind_none, Option.bind_fun_none]
      cases scaledValue start _ <;> rfl
  · have hnone := scaledValue_eq_none hstart
    simp only [hnone, Option.bind_none]

/-- The texts that are read for the samples of a range can be held: its ends, and the digits of each
end that is a number, with zeros up to the places that the range has. -/
structure ReadableRange (start stop : List Char) (least : Nat) : Prop where
  holdable_start : Holdable start
  holdable_stop : Holdable stop
  holdable_padded : ∀ token ∈ [start, stop],
    ∀ ds ∈ paddedDigits? token (bytePlaces start stop least), Holdable ds

/-- Ends and places up to half of what can be held always make a range that can be read. -/
theorem readableRange_of_byteLength_lt {start stop : List Char} {least : Nat}
    (hstart : byteLength start < 2 ^ (62 : Nat)) (hstop : byteLength stop < 2 ^ (62 : Nat))
    (hleast : least < 2 ^ (62 : Nat)) : ReadableRange start stop least := by
  have hstartParts := byteLength_pointParts_le start
  have hstopParts := byteLength_pointParts_le stop
  have hplaces : bytePlaces start stop least < 2 ^ (62 : Nat) := by
    unfold bytePlaces
    omega
  refine ⟨?_, ?_, fun token htoken ds hds => holdable_of_mem_paddedDigits? ?_ hds⟩
  · unfold Holdable
    omega
  · unfold Holdable
    omega
  · rcases List.mem_pair.1 htoken with rfl | rfl <;> omega

namespace Word

theorem rangeExpansion_yields (start stop : List Char) (first last places : Word) :
    Yields (rangeExpansion start stop first last places)
      (· = rangeBetween start stop first.toNat last.toNat places.toNat) := by
  unfold rangeExpansion rangeBetween
  dsimp only
  simp only [BitVec.lt_def]
  split
  · exact yields_pure rfl
  · next horder =>
    refine (sub_yields (Nat.le_of_not_lt horder)).bind fun width hwidth => ?_
    refine (through_yields maxRangeSamples first last).bind fun values hvalues => ?_
    have hsamples : (values.map fun value => Sample.ofScaled value.toNat places.toNat) =
        rangeSamples first.toNat last.toNat places.toNat := by
      have hcount : last.toNat + 1 - first.toNat = last.toNat - first.toNat + 1 := by omega
      have hmap := congrArg (List.map fun n => Sample.ofScaled n places.toNat) hvalues
      rw [List.map_map, List.map_map, hcount] at hmap
      exact hmap
    have hmany : BitVec.ofNat 64 maxRangeSamples ≤ width ↔
        maxRangeSamples ≤ last.toNat - first.toNat := by
      rw [BitVec.le_def, hwidth]
      rfl
    simp only [hmany, hsamples]
    split
    · exact yields_pure rfl
    · exact yields_pure rfl

theorem expandRange_yields {start stop : List Char} {least : Word}
    (h : ReadableRange start stop least.toNat) :
    Yields (expandRange start stop least)
      (· = PluralForms.expandRange start stop least.toNat) := by
  rw [expandRange_eq_bind]
  have hpadded := h.holdable_padded
  refine (size_yields (holdable_fraction h.holdable_start)).bind fun startWidth hstart => ?_
  refine (size_yields (holdable_fraction h.holdable_stop)).bind fun stopWidth hstop => ?_
  have hplaces : bytePlaces start stop least.toNat =
      (larger least (larger startWidth stopWidth)).toNat := by
    rw [toNat_larger, toNat_larger, hstart, hstop]
    rfl
  rw [hplaces] at hpadded ⊢
  dsimp only
  generalize larger least (larger startWidth stopWidth) = places at hpadded
  refine (scaled_yields h.holdable_start (hpadded start (by simp))).bind fun first hfirst => ?_
  rw [← hfirst]
  cases first with
  | none => exact yields_pure rfl
  | some first =>
    refine (scaled_yields h.holdable_stop (hpadded stop (by simp))).bind fun last hlast => ?_
    rw [← hlast]
    cases last with
    | none => exact yields_pure rfl
    | some last =>
      refine (rangeExpansion_yields start stop first last places).bind fun e he => ?_
      exact yields_pure (congrArg some he)

end Word

/-! ### Words suffice -/

/-- Nothing goes wrong when operands and samples are computed in words, and what comes out is what
is computed in unbounded numbers, as long as the texts can be held: of texts, of integers of any
width up to sixty-four bits, after zeros are written again and again, modulo any word, and of
multiples and ranges. -/
theorem words_suffice :
    (∀ text, WordOperands.Readable text → Yields (WordOperands.ofText text)
      (·.map WordOperands.operands = Operands.ofText text)) ∧
    (∀ bits ≤ 64, ∀ value : BitVec bits,
      Yields (WordOperands.ofUnsigned value) (·.operands = Operands.ofNat value.toNat) ∧
      Yields (WordOperands.ofSigned value) (·.operands = Operands.ofInt value.toInt)) ∧
    (∀ (x : WordOperands) (digits : List Word), Yields (x.padded digits) (·.operands =
      digits.foldl (fun o more => o.withFractionDigits more.toNat) x.operands)) ∧
    (∀ (x : WordOperands) (operand : Operand) (modulus : Option Word),
      Yields (x.reduced operand modulus)
        (· = x.operands.reduced operand (modulus.map BitVec.toNat))) ∧
    (∀ (token : List Char) (places : Word), Holdable token →
      (∀ ds ∈ paddedDigits? token places.toNat, Holdable ds) →
        Yields (Word.scaled token places) (·.map BitVec.toNat = scaledValue token places.toNat)) ∧
    ∀ (start stop : List Char) (least : Word), ReadableRange start stop least.toNat →
      Yields (Word.expandRange start stop least) (· = expandRange start stop least.toNat) := by
  refine ⟨fun text h => WordOperands.ofText_yields h, fun bits hbits value => ?_, ?_, ?_, ?_, ?_⟩
  · exact ⟨WordOperands.ofUnsigned_yields hbits value, WordOperands.ofSigned_yields hbits value⟩
  · exact WordOperands.padded_yields
  · exact WordOperands.reduced_yields
  · exact fun token places htoken hpadded => Word.scaled_yields htoken hpadded
  · exact fun start stop least h => Word.expandRange_yields h

/-- A number past eighteen digits, the least signed word, and a range that ends at the greatest
word. -/
theorem words_suffice_greatest :
    WordOperands.Readable "-1234567890123456789.5c3" ∧
    Yields (WordOperands.ofText "-1234567890123456789.5c3")
      (·.map WordOperands.operands = Operands.ofText "-1234567890123456789.5c3") ∧
    Yields (WordOperands.ofSigned (BitVec.intMin 64)) (·.operands = Operands.ofInt (-2 ^ 63)) ∧
    (∀ ds ∈ paddedDigits? ['1', '.', '5'] 19, Holdable ds) ∧
    Yields (Word.scaled ['1', '.', '5'] 19)
      (·.map BitVec.toNat = some 15000000000000000000) ∧
    ReadableRange "18446744073709551614".toList "18446744073709551615".toList 0 ∧
    Yields (Word.expandRange "18446744073709551614".toList "18446744073709551615".toList 0)
      (·.map Expansion.samples =
        some [Sample.ofScaled (2 ^ 64 - 2) 0, Sample.ofScaled (2 ^ 64 - 1) 0]) := by
  obtain ⟨htext, hinteger, -, -, hscaled, hrange⟩ := words_suffice
  have hreadable : WordOperands.Readable "-1234567890123456789.5c3" :=
    WordOperands.readable_of_byteLength_lt (by decide +kernel)
  have hpadded : ∀ ds ∈ paddedDigits? ['1', '.', '5'] 19, Holdable ds :=
    fun _ => holdable_of_mem_paddedDigits? (by decide +kernel)
  have hends : ReadableRange "18446744073709551614".toList "18446744073709551615".toList 0 :=
    readableRange_of_byteLength_lt (by decide +kernel) (by decide +kernel) (by decide +kernel)
  refine ⟨hreadable, htext _ hreadable, (hinteger 64 (Nat.le_refl 64) _).2, hpadded,
    (hscaled _ 19 (by decide +kernel) hpadded).imp fun r hr => ?_, hends,
    (hrange _ _ 0 hends).imp fun r hr => ?_⟩
  · rw [hr]
    decide +kernel
  · rw [hr]
    decide +kernel

end PluralForms
