import PluralForms.Proofs.Digits

/-!
# The grammar of numerals

What a numeral is, as a relation between texts and numerals, apart from how one is read:

    numeral  = ["-"] digits ["." digits] [("c" | "e" | "E") ["+" | "-"] digits]

The minus sign in front and the letter of the exponent leave no trace in the numeral. Texts and
numerals are related as the reader relates them:

    read_eq_some_iff : read cs = some numeral ↔ Writes cs numeral
-/

namespace PluralForms.Numeral

/-! ### The grammar -/

/-- A number with an optional sign. -/
inductive WritesSigned : List Char → Int → Prop
  | plain {ds} : ds ≠ [] → IsDigits ds → WritesSigned ds (digitsValue ds)
  | plus {ds} : ds ≠ [] → IsDigits ds → WritesSigned ('+' :: ds) (digitsValue ds)
  | minus {ds} : ds ≠ [] → IsDigits ds → WritesSigned ('-' :: ds) (-(digitsValue ds : Int))

/-- An exponent behind its letter, or nothing. -/
inductive WritesExponent : List Char → Option Int → Prop
  | none : WritesExponent [] none
  | some {mark cs e} : mark ∈ ['c', 'e', 'E'] → WritesSigned cs e →
      WritesExponent (mark :: cs) (some e)

/-- Digits behind a point, or nothing. -/
inductive WritesFraction : List Char → List Char → Prop
  | none : WritesFraction [] []
  | some {ds} : ds ≠ [] → IsDigits ds → WritesFraction ('.' :: ds) ds

/-- A minus sign, or nothing. -/
inductive IsMinus : List Char → Prop
  | none : IsMinus []
  | minus : IsMinus ['-']

/-- `cs` writes the numeral. -/
inductive Writes : List Char → Numeral → Prop
  | mk {sign whole behind fraction es exponent} : IsMinus sign → whole ≠ [] → IsDigits whole →
      WritesFraction behind fraction → WritesExponent es exponent →
      Writes (sign ++ (whole ++ (behind ++ es))) ⟨⟨whole, fraction⟩, exponent⟩

/-! ### Exponents -/

theorem digits_iff {cs : List Char} :
    (cs ≠ [] ∧ cs.all Char.isDigit = true) ↔ cs ≠ [] ∧ IsDigits cs :=
  and_congr_right fun _ => List.all_eq_true

theorem head_ne_of_isDigits {ds cs : List Char} {c : Char} (h : IsDigits ds)
    (hc : c.isDigit = false) : ds ≠ c :: cs := by
  rintro rfl
  rw [h c List.mem_cons_self] at hc
  exact absurd hc (by decide)

theorem readSigned_eq_some_iff {cs : List Char} {e : Int} :
    readSigned cs = some e ↔ WritesSigned cs e := by
  constructor
  · intro h
    unfold readSigned at h
    split at h
    all_goals
      rw [Option.ite_none_right_eq_some] at h
      obtain ⟨hdigits, heq⟩ := h
      obtain ⟨hne, hds⟩ := digits_iff.1 hdigits
      cases heq
    · exact .minus hne hds
    · exact .plus hne hds
    · exact .plain hne hds
  · intro h
    cases h with
    | plain hne hds =>
      unfold readSigned
      split
      · exact absurd rfl (head_ne_of_isDigits hds (by decide))
      · exact absurd rfl (head_ne_of_isDigits hds (by decide))
      · exact if_pos (digits_iff.2 ⟨hne, hds⟩)
    | plus hne hds => exact if_pos (digits_iff.2 ⟨hne, hds⟩)
    | minus hne hds => exact if_pos (digits_iff.2 ⟨hne, hds⟩)

theorem isExponentMark_iff {c : Char} : isExponentMark c = true ↔ c ∈ ['c', 'e', 'E'] := by
  simp [isExponentMark, or_assoc]

theorem readExponent_eq_some_iff {d : Decimal} {cs : List Char} {numeral : Numeral} :
    readExponent d cs = some numeral ↔
      ∃ exponent, WritesExponent cs exponent ∧ numeral = ⟨d, exponent⟩ := by
  constructor
  · intro h
    unfold readExponent at h
    split at h
    · exact ⟨none, .none, (Option.some.inj h).symm⟩
    · rw [Option.ite_none_right_eq_some] at h
      obtain ⟨hmark, h⟩ := h
      obtain ⟨e, he, rfl⟩ := Option.map_eq_some_iff.1 h
      exact ⟨some e, .some (isExponentMark_iff.1 hmark) (readSigned_eq_some_iff.1 he), rfl⟩
  · rintro ⟨exponent, hwrites, rfl⟩
    cases hwrites with
    | none => rfl
    | @some mark cs e hmark he =>
      have hread : readExponent d (mark :: cs) =
          if isExponentMark mark then (readSigned cs).map fun e => Numeral.mk d (some e)
          else none :=
        rfl
      rw [hread, if_pos (isExponentMark_iff.2 hmark), readSigned_eq_some_iff.2 he]
      rfl

/-- An exponent begins with its letter, which is no digit and no point. -/
theorem head_writesExponent {cs : List Char} {exponent : Option Int}
    (h : WritesExponent cs exponent) : ∀ c ∈ cs.head?, c.isDigit = false ∧ c ≠ '.' := by
  intro c hc
  cases h with
  | none => simp at hc
  | @some mark cs e hmark he =>
    obtain rfl : mark = c := by simpa using hc
    simp only [List.mem_cons, List.not_mem_nil, or_false] at hmark
    rcases hmark with rfl | rfl | rfl <;> decide

/-! ### Numerals -/

theorem readUnsigned_sound {cs : List Char} {numeral : Numeral}
    (h : readUnsigned cs = some numeral) : ∃ whole behind fraction es exponent,
      cs = whole ++ (behind ++ es) ∧ whole ≠ [] ∧ IsDigits whole ∧
        WritesFraction behind fraction ∧ WritesExponent es exponent ∧
        numeral = ⟨⟨whole, fraction⟩, exponent⟩ := by
  unfold readUnsigned at h
  obtain ⟨⟨whole, rest⟩, hwhole, hrest⟩ := Option.bind_eq_some_iff.1 h
  obtain ⟨hne, hds, rfl, -⟩ := digits1_eq_some_iff.1 hwhole
  dsimp only at hrest
  split at hrest
  · obtain ⟨⟨fraction, es⟩, hfraction, hes⟩ := Option.bind_eq_some_iff.1 hrest
    obtain ⟨hne', hds', rfl, -⟩ := digits1_eq_some_iff.1 hfraction
    obtain ⟨exponent, hexponent, rfl⟩ := readExponent_eq_some_iff.1 hes
    exact ⟨whole, '.' :: fraction, fraction, es, exponent, rfl, hne, hds, .some hne' hds',
      hexponent, rfl⟩
  · obtain ⟨exponent, hexponent, rfl⟩ := readExponent_eq_some_iff.1 hrest
    exact ⟨whole, [], [], rest, exponent, rfl, hne, hds, .none, hexponent, rfl⟩

theorem readUnsigned_complete {whole behind fraction es : List Char} {exponent : Option Int}
    (hne : whole ≠ []) (hds : IsDigits whole) (hfraction : WritesFraction behind fraction)
    (hexponent : WritesExponent es exponent) :
    readUnsigned (whole ++ (behind ++ es)) = some ⟨⟨whole, fraction⟩, exponent⟩ := by
  have hes := head_writesExponent hexponent
  have hread : ∀ d, readExponent d es = some ⟨d, exponent⟩ := fun d =>
    readExponent_eq_some_iff.2 ⟨exponent, hexponent, rfl⟩
  unfold readUnsigned
  cases hfraction with
  | none =>
    rw [List.nil_append, digits1_eq_some_iff.2 ⟨hne, hds, rfl, fun c hc => (hes c hc).1⟩]
    dsimp only [Option.bind_some]
    split
    · exact absurd rfl (hes '.' rfl).2
    · exact hread _
  | some hne' hds' =>
    have hpoint : ∀ c ∈ ('.' :: (fraction ++ es)).head?, c.isDigit = false := by
      intro c hc
      obtain rfl : '.' = c := by simpa using hc
      rfl
    rw [List.cons_append, digits1_eq_some_iff.2 ⟨hne, hds, rfl, hpoint⟩]
    show ((digits1 (fraction ++ es)).bind fun parts =>
      readExponent ⟨whole, parts.1⟩ parts.2) = _
    rw [digits1_eq_some_iff.2 ⟨hne', hds', rfl, fun c hc => (hes c hc).1⟩]
    exact hread _

theorem read_eq_some_iff {cs : List Char} {numeral : Numeral} :
    read cs = some numeral ↔ Writes cs numeral := by
  constructor
  · intro h
    unfold read at h
    split at h
    all_goals
      obtain ⟨whole, behind, fraction, es, exponent, rfl, hne, hds, hfraction, hexponent, rfl⟩ :=
        readUnsigned_sound h
    · exact .mk .minus hne hds hfraction hexponent
    · exact .mk .none hne hds hfraction hexponent
  · intro h
    obtain @⟨sign, whole, behind, fraction, es, exponent, hsign, hne, hds, hfraction,
      hexponent⟩ := h
    cases hsign with
    | minus => exact readUnsigned_complete hne hds hfraction hexponent
    | none =>
      rw [List.nil_append]
      unfold read
      split
      · next whole' heq =>
        cases whole with
        | nil => exact absurd rfl hne
        | cons c whole =>
          obtain rfl : c = '-' := (List.cons.inj heq).1
          exact absurd (hds '-' List.mem_cons_self) (by decide)
      · exact readUnsigned_complete hne hds hfraction hexponent

/-! ### Characters -/

theorem isDigits_of_writesFraction {behind fraction : List Char}
    (h : WritesFraction behind fraction) : IsDigits fraction := by
  cases h with
  | none => exact isDigits_nil
  | some _ hds => exact hds

theorem not_isBlank_of_writesSigned {cs : List Char} {e : Int} (h : WritesSigned cs e) :
    ∀ c ∈ cs, Text.isBlank c = false := by
  have hsigned : ∀ sign : Char, Text.isBlank sign = false → ∀ ds : List Char, IsDigits ds →
      ∀ c ∈ sign :: ds, Text.isBlank c = false := by
    intro sign hsign ds hds c hc
    rcases List.mem_cons.1 hc with rfl | hc
    · exact hsign
    · exact not_isBlank_of_isDigit (hds c hc)
  cases h with
  | plain _ hds => exact fun c hc => not_isBlank_of_isDigit (hds c hc)
  | plus _ hds => exact hsigned '+' rfl _ hds
  | minus _ hds => exact hsigned '-' rfl _ hds

/-- A numeral has no blanks inside. -/
theorem not_isBlank_of_writes {cs : List Char} {numeral : Numeral} (h : Writes cs numeral) :
    ∀ c ∈ cs, Text.isBlank c = false := by
  obtain ⟨hsign, -, hwhole, hfraction, hexponent⟩ := h
  simp only [List.mem_append]
  rintro c (hc | hc | hc | hc)
  · cases hsign with
    | none => simp at hc
    | minus => rw [List.mem_singleton.1 hc]; rfl
  · exact not_isBlank_of_isDigit (hwhole c hc)
  · cases hfraction with
    | none => simp at hc
    | some _ hds =>
      rcases List.mem_cons.1 hc with rfl | hc
      · rfl
      · exact not_isBlank_of_isDigit (hds c hc)
  · cases hexponent with
    | none => simp at hc
    | some hmark he =>
      rcases List.mem_cons.1 hc with rfl | hc
      · simp only [List.mem_cons, List.not_mem_nil, or_false] at hmark
        rcases hmark with rfl | rfl | rfl <;> rfl
      · exact not_isBlank_of_writesSigned he c hc

end PluralForms.Numeral
