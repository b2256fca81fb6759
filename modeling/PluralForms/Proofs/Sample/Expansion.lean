import PluralForms.Proofs.Sample.AsWritten

/-!
# What a list of samples stands for

A number or a range in a list spans the multiples of a decimal place from a first to a last one.
The samples are these multiples as double-precision numbers, each divided by a power of ten and then
written with so many places. With at most twenty-two places and multiples below `10 ^ 15`, nothing
of this is seen in the texts: they are those of the decimal fractions themselves, in order,

    0.98 0.99 1.00 1.01   for   0.98~1.01

and so the operands are theirs, too. A list stands for what its tokens stand for, one behind the
other.

* `Spans` - the numbers and ranges, with the multiples that they span;
* `expandSamples_eq_decimalTexts` - what their samples are written as, and the samples of a list.
-/

namespace PluralForms

open Binary

/-- The token spans the multiples of the last of `places` decimal places from `first` to `last`: a
number spans one, a range those between its ends. There are as many places as asked for, or as are
written if that is more. -/
inductive Spans (least : Nat) : List Char → Nat → Nat → Nat → Prop
  | number {token digits width places} : Spells token digits width → places = max least width →
      Spans least token places (unitsAt places digits width) (unitsAt places digits width)
  | range {start stop a b v w places} : Spells (Text.trim start) a v →
      Spells (Text.trim stop) b w → places = max least (max v w) →
      Spans least (start ++ '~' :: stop) places (unitsAt places a v) (unitsAt places b w)

/-- The texts of so many decimal fractions in a row. -/
def decimalTexts (first count places : Nat) : List String :=
  (List.range count).map fun k => String.ofList (Numeral.decimalText (first + k) places)

/-! ### Tokens -/

section

variable {least places first last : Nat} {token : List Char}

/-- The samples are the multiples that the token spans, of which no more are taken than allowed. -/
theorem samples_of_spans (h : Spans least token places first last) (hlast : last ≤ maxWord) :
    (expandToken least token).samples =
      (List.range (min (last + 1 - first) maxRangeSamples)).map fun k =>
        Sample.ofScaled (first + k) places := by
  cases h with
  | @number _ digits width _ hspells hplaces =>
    subst hplaces
    have hcount : min (unitsAt (max least width) digits width + 1 -
        unitsAt (max least width) digits width) maxRangeSamples = 1 := by
      rw [Nat.add_sub_cancel_left]
      rfl
    rw [expandToken_of_spells hspells hlast, hcount]
    rfl
  | range hstart hstop hplaces => exact expandToken_of_range hstart hstop hplaces hlast

/-- The multiples survive: fifteen digits are less than fifty-two bits. -/
theorem kept_of_lt (hplaces : places ≤ 22) (hlast : last < 10 ^ 15) {k : Nat}
    (hk : k < min (last + 1 - first) maxRangeSamples) : Sample.Kept (first + k) places := by
  have hbits : 10 ^ 15 ≤ Double.digitsBound := by decide
  exact Or.inl ⟨by omega, hplaces⟩

theorem render_of_spans (h : Spans least token places first last) (hplaces : places ≤ 22)
    (hlast : last < 10 ^ 15) :
    (expandToken least token).samples.map Sample.render =
      decimalTexts first (min (last + 1 - first) maxRangeSamples) places := by
  have hfits : 10 ^ 15 ≤ maxWord := by decide
  rw [samples_of_spans h (by omega), List.map_map]
  apply List.map_congr_left
  intro k hk
  exact Sample.render_ofScaled (kept_of_lt hplaces hlast (List.mem_range.1 hk))

end

/-! ### Lists -/

theorem samples_nil (least : Nat) : (expandToken least []).samples = [] := rfl

/-- A list is cut at its commas, and what is blank between them stands for nothing. -/
theorem samples_eq_flatMap (text : String) (least : Nat) :
    (expandSamples text least).samples = (Text.splitOn [','] text.toList).flatMap fun piece =>
      (expandToken least (Text.trim piece)).samples := by
  unfold expandSamples sampleTokens
  dsimp only
  generalize Text.splitOn [','] text.toList = pieces
  induction pieces with
  | nil => rfl
  | cons piece pieces ih =>
    by_cases hblank : Text.trim piece = []
    · simpa [hblank, samples_nil] using ih
    · simpa [hblank] using ih

theorem exists_pieces (text : String) : ∃ pieces, pieces ≠ [] ∧ (∀ piece ∈ pieces, ',' ∉ piece) ∧
    text = String.ofList ([','].intercalate pieces) ∧ Text.splitOn [','] text.toList = pieces := by
  refine ⟨_, Text.splitOn_ne_nil [','] text.toList, ?_, ?_, rfl⟩
  · intro piece hpiece
    exact Text.of_mem_splitOn_mark hpiece
  · rw [Text.intercalate_splitOn_mark, String.ofList_toList]

/-- A list between commas has the samples of its tokens, one token behind the other. A number or a
range has one sample for each multiple that it spans, up to ten thousand of them, and these are
written, and read again, as the decimal fractions themselves. -/
theorem expandSamples_eq_decimalTexts :
    (∀ text least, ∃ pieces : List (List Char), pieces ≠ [] ∧ (∀ piece ∈ pieces, ',' ∉ piece) ∧
      text = String.ofList ([','].intercalate pieces) ∧
      (expandSamples text least).samples =
        pieces.flatMap fun piece => (expandToken least (Text.trim piece)).samples) ∧
    (∀ least token places first last, Spans least token places first last →
      places ≤ 22 → last < 10 ^ 15 →
      (expandToken least token).samples.map Sample.render =
        decimalTexts first (min (last + 1 - first) 10000) places ∧
      (expandToken least token).samples.map Sample.operands =
        (decimalTexts first (min (last + 1 - first) 10000) places).map Operands.ofText) ∧
    ∀ n places, Numeral.WritesPlain (Numeral.decimalText n places) n places := by
  refine ⟨?_, ?_, fun n places => Numeral.writesPlain_decimalText places n⟩
  · intro text least
    obtain ⟨pieces, hne, hcomma, htext, hcut⟩ := exists_pieces text
    exact ⟨pieces, hne, hcomma, htext, hcut ▸ samples_eq_flatMap text least⟩
  · intro least token places first last h hplaces hlast
    have hrender := render_of_spans h hplaces hlast
    refine ⟨hrender, ?_⟩
    -- the operands are those of the text
    have hoperands : Sample.operands = Operands.ofText ∘ Sample.render := rfl
    rw [hoperands, ← List.map_map, hrender]
    rfl

/-- A range that widens on the way, with blanks around its mark. -/
theorem expandSamples_eq_decimalTexts_widening :
    Spans 1 "9.98 ~ 10.0".toList 2 998 1000 ∧
      (expandToken 1 "9.98 ~ 10.0".toList).samples.map Sample.render =
        ["9.98", "9.99", "10.00"] := by
  have hspans : Spans 1 "9.98 ~ 10.0".toList 2 998 1000 :=
    @Spans.range 1 "9.98 ".toList " 10.0".toList 998 100 2 1 2
      (@Spells.pointed ['9'] ['9', '8'] (by decide) (by decide) (by decide))
      (@Spells.pointed ['1', '0'] ['0'] (by decide) (by decide) (by decide)) rfl
  refine ⟨hspans, ?_⟩
  rw [(expandSamples_eq_decimalTexts.2.1 1 _ 2 998 1000 hspans (by decide) (by decide)).1]
  decide +kernel

end PluralForms
