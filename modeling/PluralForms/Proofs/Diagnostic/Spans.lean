import Mathlib.Data.String.Basic
import PluralForms.Proofs.Diagnostic.Clauses
import PluralForms.Proofs.Diagnostic.Samples
import PluralForms.Proofs.Text.ByteOrder
import PluralForms.Proofs.Word.Arithmetic

/-!
# Spans that can be shown

A report cuts the text of a diagnostic where the span begins and where it ends. It fails if one of
these places is beyond the end of the text or inside of a character:

    labels_mark : what a span cuts out of its text is the clause, the symbol, the rule label or the
      sample

The searches walk a text by characters and then look at the bytes next to what they have come upon.
They may do so, since a class of characters of ASCII is a class of bytes that are parts of no other
character; and no byte that they look at is missing:

    symbolSearch_eq, sampleSearch_eq : the searches with bytes do not fail, and find the same spans
-/

namespace PluralForms

open Text

/-! ### Parts of a text -/

/-- The span is the place of a word: it ends inside the text, and cuts no character. -/
structure Text.Span.Marks (span : Span) (text word : String) : Prop where
  end_le : span.offset + span.length ≤ text.utf8ByteSize
  start_valid : String.Pos.Raw.IsValid text ⟨span.offset⟩
  end_valid : String.Pos.Raw.IsValid text ⟨span.offset + span.length⟩
  extract_eq : String.Pos.Raw.extract text ⟨span.offset⟩ ⟨span.offset + span.length⟩ = word

theorem utf8Len_eq_byteLength (cs : List Char) : String.utf8Len cs = byteLength cs := by
  induction cs with
  | nil => rfl
  | cons c cs ih => rw [String.utf8Len_cons, ih, byteLength_cons, Nat.add_comm]

/-- A text can be cut behind its first characters. -/
theorem isValid_byteLength (front back : List Char) :
    String.Pos.Raw.IsValid (String.ofList (front ++ back)) ⟨byteLength front⟩ := by
  rw [String.Pos.Raw.isValid_iff_exists_append]
  refine ⟨String.ofList front, String.ofList back, String.ofList_append, ?_⟩
  rw [String.rawEndPos_ofList, utf8Len_eq_byteLength]

theorem Text.Stretch.span_marks {s : Stretch} {text : String} (htext : s.text = text.toList) :
    s.span.Marks text (String.ofList s.word) := by
  obtain ⟨front, word, back⟩ := s
  have hcut : String.ofList (front ++ word ++ back) = text := by
    rw [List.append_assoc]
    exact (congrArg String.ofList htext).trans String.ofList_toList
  subst hcut
  refine ⟨?_, ?_, ?_, ?_⟩
  · rw [String.utf8ByteSize_ofList, utf8Len_eq_byteLength, byteLength_append, byteLength_append]
    exact Nat.le_add_right _ _
  · rw [List.append_assoc]
    exact isValid_byteLength front (word ++ back)
  · show String.Pos.Raw.IsValid _ ⟨byteLength front + byteLength word⟩
    rw [← byteLength_append]
    exact isValid_byteLength (front ++ word) back
  · show String.Pos.Raw.extract _ ⟨byteLength front⟩ ⟨byteLength front + byteLength word⟩ = _
    rw [← utf8Len_eq_byteLength, ← utf8Len_eq_byteLength]
    exact String.extract_of_valid front word back

/-! ### Bytes next to a part -/

namespace Checked

/-- The byte at a place. -/
def byteAt (text : List UInt8) (place : Nat) : Checked UInt8 :=
  match text[place]? with
  | some byte => .ok byte
  | none => .error .outside

/-- The byte in front of a place, unless the text begins there. -/
def byteBefore (text : List UInt8) : Nat → Checked (Option UInt8)
  | 0 => .ok none
  | place + 1 => (byteAt text place).map some

/-- The bytes in front of a span and behind it. -/
def bytesBeside (text : List UInt8) (span : Span) : Checked (Option UInt8 × Option UInt8) := do
  let before ← byteBefore text span.offset
  pure (before, text[span.offset + span.length]?)

theorem byteBefore_length (as bs : List UInt8) :
    byteBefore (as ++ bs) as.length = .ok as.getLast? := by
  cases hlength : as.length with
  | zero =>
    rw [List.eq_nil_of_length_eq_zero hlength]
    rfl
  | succ k =>
    have hk : k < as.length := by omega
    have hbyte : (as ++ bs)[k]? = some as[k] := by
      rw [List.getElem?_append_left hk, List.getElem?_eq_getElem hk]
    have hlast : as.getLast? = some as[k] := by
      rw [List.getLast?_eq_getElem?, hlength, Nat.add_sub_cancel, List.getElem?_eq_getElem hk]
    rw [byteBefore, byteAt, hbyte, hlast]
    rfl

theorem bytesBeside_append (as ws bs : List UInt8) :
    bytesBeside (as ++ (ws ++ bs)) ⟨as.length, ws.length⟩ = .ok (as.getLast?, bs.head?) := by
  have hbehind : (as ++ (ws ++ bs))[as.length + ws.length]? = bs.head? := by
    rw [← List.append_assoc, ← List.length_append, List.getElem?_append_right (Nat.le_refl _),
      Nat.sub_self, List.head?_eq_getElem?]
  unfold bytesBeside
  dsimp only
  rw [byteBefore_length, hbehind]
  rfl

/-- A search whose check never fails is a plain search. -/
theorem findM?_eq_find? {α : Type} {check : α → Checked Bool} {q : α → Bool} {l : List α}
    (h : ∀ a ∈ l, check a = .ok (q a)) : l.findM? check = .ok (l.find? q) := by
  induction l with
  | nil => rfl
  | cons a l ih =>
    rw [List.findM?, h a List.mem_cons_self, List.find?_cons,
      ih fun b hb => h b (List.mem_cons_of_mem a hb)]
    cases q a <;> rfl

end Checked

namespace Text

theorem bytesOfChars_append (as bs : List Char) :
    bytesOfChars (as ++ bs) = bytesOfChars as ++ bytesOfChars bs :=
  List.flatMap_append

theorem length_bytesOfChars (cs : List Char) : (bytesOfChars cs).length = byteLength cs := by
  induction cs with
  | nil => rfl
  | cons c cs ih =>
    rw [byteLength_cons, ← ih, ← String.length_utf8EncodeChar c, ← List.length_append]
    rfl

/-- The bytes beside a stretch are there: the last one in front of it and the first one behind. -/
theorem bytesBeside_span (s : Stretch) :
    Checked.bytesBeside (bytesOfChars s.text) s.span =
      .ok ((bytesOfChars s.front).getLast?, (bytesOfChars s.back).head?) := by
  unfold Stretch.text Stretch.span
  rw [bytesOfChars_append, bytesOfChars_append, ← length_bytesOfChars, ← length_bytesOfChars]
  exact Checked.bytesBeside_append _ _ _

/-! ### Classes of bytes -/

/-- The bytes of a character beyond ASCII are beyond ASCII as well. -/
theorem le_toNat_of_mem_utf8EncodeChar {c : Char} {b : UInt8} (hc : 128 ≤ c.toNat)
    (hb : b ∈ String.utf8EncodeChar c) : 128 ≤ b.toNat := by
  have hlong : ¬c.val.toNat ≤ 127 := Nat.not_le_of_lt hc
  have hnat : ∀ {n : Nat}, b = UInt8.ofNat n → b.toNat = n % 256 := by
    rintro n rfl
    exact UInt8.toNat_ofNat'
  unfold String.utf8EncodeChar at hb
  dsimp only at hb
  rw [if_neg hlong] at hb
  split_ifs at hb <;> simp only [List.mem_cons, List.not_mem_nil, or_false] at hb
  · rcases hb with hb | hb <;> (rw [hnat hb]; omega)
  · rcases hb with hb | hb | hb <;> (rw [hnat hb]; omega)
  · rcases hb with hb | hb | hb | hb <;> (rw [hnat hb]; omega)

/-- A class of characters of ASCII is told by bytes: no byte beyond ASCII belongs to it. -/
structure Tells (p : UInt8 → Bool) (q : Char → Bool) : Prop where
  ascii : ∀ n < 128, p (UInt8.ofNat n) = q (Char.ofNat n)
  byte : ∀ n < 256, p (UInt8.ofNat n) = true → n < 128
  char : ∀ c : Char, q c = true → c.toNat < 128

namespace Tells

variable {p : UInt8 → Bool} {q : Char → Bool}

theorem eq_of_mem (h : Tells p q) {c : Char} {b : UInt8} (hb : b ∈ String.utf8EncodeChar c) :
    p b = q c := by
  by_cases hascii : c.toNat < 128
  · have hle : c.val.toNat ≤ 127 := Nat.le_of_lt_succ hascii
    rw [String.utf8EncodeChar, if_pos hle, List.mem_singleton] at hb
    have hsame := h.ascii c.toNat hascii
    rw [Char.ofNat_toNat] at hsame
    rw [hb]
    exact hsame
  · have hbeyond := le_toNat_of_mem_utf8EncodeChar (Nat.le_of_not_lt hascii) hb
    have hbyte := h.byte b.toNat b.toNat_lt
    rw [UInt8.ofNat_toNat] at hbyte
    have hp : p b = false := by
      rw [← Bool.not_eq_true]
      exact fun htrue => Nat.not_lt_of_le hbeyond (hbyte htrue)
    have hq : q c = false := by
      rw [← Bool.not_eq_true]
      exact fun htrue => hascii (h.char c htrue)
    rw [hp, hq]

theorem map_head? (h : Tells p q) (cs : List Char) :
    (bytesOfChars cs).head?.map p = cs.head?.map q := by
  cases cs with
  | nil => rfl
  | cons c cs =>
    obtain ⟨b, bs, hbytes⟩ := List.exists_cons_of_ne_nil (@String.utf8EncodeChar_ne_nil c)
    have hb : b ∈ String.utf8EncodeChar c := by
      rw [hbytes]
      exact List.mem_cons_self
    show (String.utf8EncodeChar c ++ bytesOfChars cs).head?.map p = some (q c)
    rw [hbytes, ← h.eq_of_mem hb]
    rfl

theorem map_getLast? (h : Tells p q) (cs : List Char) :
    (bytesOfChars cs).getLast?.map p = cs.getLast?.map q := by
  induction cs using List.reverseRec with
  | nil => rfl
  | append_singleton cs c _ =>
    have hne : String.utf8EncodeChar c ≠ [] := String.utf8EncodeChar_ne_nil
    have hbytes : bytesOfChars [c] = String.utf8EncodeChar c := List.append_nil _
    rw [bytesOfChars_append, hbytes, List.getLast?_append_of_ne_nil _ hne,
      List.getLast?_eq_getLast_of_ne_nil hne, List.getLast?_concat, Option.map_some,
      Option.map_some, h.eq_of_mem (List.getLast_mem hne)]

theorem any_eq_of_map_eq {b : Option UInt8} {c : Option Char} (h : b.map p = c.map q) :
    b.any p = c.any q := by
  have hany := congrArg (Option.any id) h
  rwa [Option.any_map, Option.any_map] at hany

theorem all_eq_of_map_eq {b : Option UInt8} {c : Option Char} (h : b.map p = c.map q) :
    b.all p = c.all q := by
  have hall := congrArg (Option.all id) h
  rwa [Option.all_map, Option.all_map] at hall

end Tells

end Text

/-- A blank of ASCII. -/
def isBlankByte (b : UInt8) : Bool :=
  b == 0x09 || b == 0x0A || b == 0x0C || b == 0x0D || b == 0x20

/-- A space, or a byte of `%`, `=` or `!`. -/
def followsSymbolByte (b : UInt8) : Bool := b == 0x20 || b == 0x25 || b == 0x3D || b == 0x21

/-- A digit, a point or a tilde. -/
def isNumeralByte (b : UInt8) : Bool := (0x30 ≤ b && b ≤ 0x39) || b == 0x2E || b == 0x7E

theorem isBlankByte_tells : Tells isBlankByte isAsciiBlank where
  ascii := by decide +kernel
  byte := by decide +kernel
  char c h := by
    simp only [isAsciiBlank, Bool.or_eq_true, beq_iff_eq] at h
    rcases h with (((rfl | rfl) | rfl) | rfl) | rfl <;> decide

theorem followsSymbolByte_tells : Tells followsSymbolByte followsSymbol where
  ascii := by decide +kernel
  byte := by decide +kernel
  char c h := by
    simp only [followsSymbol, Bool.or_eq_true, beq_iff_eq] at h
    rcases h with ((rfl | rfl) | rfl) | rfl <;> decide

theorem isNumeralByte_tells : Tells isNumeralByte isNumeralChar where
  ascii := by decide +kernel
  byte := by decide +kernel
  char c h := by
    simp only [isNumeralChar, Bool.or_eq_true, beq_iff_eq] at h
    rcases h with (hdigit | rfl) | rfl
    · have hrange : 48 ≤ c.toNat ∧ c.toNat ≤ 57 := Char.isDigit_iff_toNat.1 hdigit
      omega
    · decide
    · decide

/-! ### The searches with bytes -/

/-- The first relation that reads a symbol: each character is looked at with the bytes beside it. -/
def symbolSearch (symbol : Char) (text : String) : Checked (Option Span) := do
  let found ← (places text.toList).findM? fun p =>
    match p.rest with
    | [] => pure false
    | c :: _ => do
      let (before, behind) ← Checked.bytesBeside (bytes text) (p.span [c])
      pure (c == symbol && before.all isBlankByte && behind.all followsSymbolByte)
  pure (found.map (·.span [symbol]))

/-- The first occurrence of a sample behind the condition: each is looked at with the bytes beside
it. -/
def sampleSearch (sample text : String) : Checked (Option Span) :=
  match cutAt '@' text.toList with
  | none => pure none
  | some (condition, _) => do
    let later := (occurrences sample.toList text.toList).filter fun p =>
      byteLength condition < p.offset
    let found ← later.findM? fun p => do
      let (before, behind) ← Checked.bytesBeside (bytes text) (p.span sample.toList)
      pure (!before.any isNumeralByte && !behind.any isNumeralByte)
    pure (found.map (·.span sample.toList))

/-- No byte is missing, and the span is the same. -/
theorem symbolSearch_eq (symbol : Char) (text : String) :
    symbolSearch symbol text = .ok (symbolSpan symbol text.toList) := by
  unfold symbolSearch symbolSpan
  rw [Checked.findM?_eq_find? (q := (·.hasSymbol symbol))]
  · rfl
  intro p hp
  obtain ⟨front, htext, hoffset, hbefore⟩ := mem_places hp
  obtain ⟨before, offset, rest⟩ := p
  dsimp only at htext hoffset hbefore ⊢
  subst hoffset hbefore
  cases rest with
  | nil => rfl
  | cons c back =>
    have hbeside : Checked.bytesBeside (bytes text) ⟨byteLength front, byteLength [c]⟩ =
        .ok ((bytesOfChars front).getLast?, (bytesOfChars back).head?) := by
      rw [bytes_eq, htext]
      exact bytesBeside_span ⟨front, [c], back⟩
    unfold Place.span Place.hasSymbol
    dsimp only
    rw [hbeside, ← Tells.all_eq_of_map_eq (isBlankByte_tells.map_getLast? front),
      ← Tells.all_eq_of_map_eq (followsSymbolByte_tells.map_head? back)]
    rfl

/-- No byte is missing, and the span is the same. -/
theorem sampleSearch_eq (sample text : String) :
    sampleSearch sample text = .ok (sampleSpan sample.toList text.toList) := by
  unfold sampleSearch sampleSpan
  cases cutAt '@' text.toList with
  | none => rfl
  | some parts =>
    dsimp only
    rw [Checked.findM?_eq_find? (q := (·.isolates sample.toList)), List.find?_filter]
    · simp only [Bool.decide_and, Bool.decide_eq_true, decide_eq_true_eq]
      rfl
    intro p hp
    obtain ⟨s, htext, hword, rfl⟩ := exists_of_mem_occurrences (List.mem_filter.1 hp).1
    have hrest : s.place.rest.drop s.word.length = s.back := List.drop_left
    have hbefore : s.place.before = s.front.getLast? := rfl
    rw [bytes_eq, ← htext, ← hword, Stretch.span_place, bytesBeside_span, Place.isolates, hrest,
      hbefore, ← Tells.any_eq_of_map_eq (isNumeralByte_tells.map_getLast? s.front),
      ← Tells.any_eq_of_map_eq (isNumeralByte_tells.map_head? s.back)]
    rfl

/-! ### Spans that are found -/

section Found

variable {word : List Char} {text : String} {span : Span}

theorem find?_places_marks {q : Place → Bool} (hword : ∀ p, q p = true → word <+: p.rest)
    (h : ((places text.toList).find? q).map (·.span word) = some span) :
    span.Marks text (String.ofList word) := by
  obtain ⟨p, hfind, rfl⟩ := Option.map_eq_some_iff.1 h
  obtain ⟨s, htext, rfl, rfl, -⟩ :=
    exists_of_find?_places (P := fun s => q s.place = true) hword (fun _ _ => Iff.rfl) hfind
  exact Stretch.span_marks htext

theorem wordSpan_marks (h : wordSpan word text.toList = some span) :
    span.Marks text (String.ofList word) :=
  find?_places_marks (fun _ => List.isPrefixOf_iff_prefix.1) h

/-- A word is found if, and only if, it is a part of the text. -/
theorem isSome_wordSpan_iff {cs : List Char} : (wordSpan word cs).isSome = true ↔ word <:+: cs := by
  constructor
  · intro h
    unfold wordSpan at h
    rw [Option.isSome_map, List.find?_isSome] at h
    obtain ⟨p, hp, hword⟩ := h
    obtain ⟨front, rfl, -, -⟩ := mem_places hp
    have hpart : word <:+: p.rest := (List.isPrefixOf_iff_prefix.1 hword).isInfix
    exact hpart.trans (List.suffix_append front p.rest).isInfix
  · rintro ⟨front, back, hparts⟩
    exact isSome_wordSpan (s := ⟨front, word, back⟩) (by rw [← hparts, List.append_assoc]; rfl)

theorem symbolSpan_marks {symbol : Char} (h : symbolSpan symbol text.toList = some span) :
    span.Marks text (String.singleton symbol) :=
  find?_places_marks prefix_of_hasSymbol h

theorem sampleSpan_marks (h : sampleSpan word text.toList = some span) :
    span.Marks text (String.ofList word) := by
  obtain ⟨s, htext, rfl, -, -, rfl⟩ := exists_of_sampleSpan h
  exact Stretch.span_marks htext

/-- The span of a whole text. -/
theorem whole_marks (text : String) : Span.Marks ⟨0, byteLength text.toList⟩ text text := by
  have hmarks := Stretch.span_marks (Stretch.text_whole text.toList)
  rwa [Stretch.whole, String.ofList_toList] at hmarks

end Found

/-- What a warning shows of a text: the clause, the symbol or the rule label. -/
def Warning.subject : Warning → String
  | brokenClause _ _ clause _ => clause
  | unknownOperand _ _ symbol => String.singleton symbol
  | unknownRuleKey _ key => key

namespace Diagnostic

theorem ofWarning_marks {w : Warning} {rule : Option String} {span : Span}
    (h : (ofWarning w rule).span = some span) : span.Marks (ofWarning w rule).text w.subject := by
  cases w with
  | brokenClause language category clause message =>
    have hmarks : span.Marks (rule.getD clause) (String.ofList clause.toList) := wordSpan_marks h
    rwa [String.ofList_toList] at hmarks
  | unknownOperand language category symbol => exact symbolSpan_marks h
  | unknownRuleKey language key =>
    cases h
    exact whole_marks key

theorem ofMismatch_marks {language : String} {m : Mismatch} {rule : String} {span : Span}
    (h : (ofMismatch language m rule).span = some span) :
    span.Marks (ofMismatch language m rule).text m.sample.render := by
  have hmarks : span.Marks rule (String.ofList m.sample.render.toList) := sampleSpan_marks h
  rwa [String.ofList_toList] at hmarks

/-- Every span can be cut out of the text of its diagnostic, and is what the warning or the mismatch
is about. A clause has a span if it is a part of the text. The spans of symbols and samples are
found by searches with bytes, and no byte that they look at is beyond the text. -/
theorem labels_mark :
    (∀ w rule span, (ofWarning w rule).span = some span →
      span.Marks (ofWarning w rule).text w.subject) ∧
    (∀ language m rule span, (ofMismatch language m rule).span = some span →
      span.Marks (ofMismatch language m rule).text m.sample.render) ∧
    (∀ language category clause message rule,
      (ofWarning (.brokenClause language category clause message) rule).span.isSome = true ↔
        clause.toList <:+:
          (ofWarning (.brokenClause language category clause message) rule).text.toList) ∧
    (∀ language category symbol rule,
      symbolSearch symbol (ofWarning (.unknownOperand language category symbol) rule).text =
        .ok (ofWarning (.unknownOperand language category symbol) rule).span) ∧
    ∀ language m rule,
      sampleSearch m.sample.render (ofMismatch language m rule).text =
        .ok (ofMismatch language m rule).span := by
  refine ⟨fun _ _ _ => ofWarning_marks, fun _ _ _ _ => ofMismatch_marks, ?_, ?_, ?_⟩
  · intro language category clause message rule
    exact isSome_wordSpan_iff
  · intro language category symbol rule
    exact symbolSearch_eq symbol _
  · intro language m rule
    exact sampleSearch_eq _ _

/-- Characters of two bytes in front of a symbol of two bytes, and behind a sample. -/
theorem labels_mark_accented :
    Span.Marks ⟨11, 2⟩ "ñ = 1 and é = 3" "é" ∧
    symbolSearch 'é' "ñ = 1 and é = 3" = .ok (some ⟨11, 2⟩) ∧
    Span.Marks ⟨20, 3⟩ "ñ = 1 @integer 21, 1c6é" "1c6" ∧
    sampleSearch "1c6" "ñ = 1 @integer 21, 1c6é" = .ok (some ⟨20, 3⟩) := by
  obtain ⟨hwarning, hmismatch, -, hsymbol, hsample⟩ := labels_mark
  have hfound : (ofWarning (.unknownOperand "xx" .one 'é') (some "ñ = 1 and é = 3")).span =
      some ⟨11, 2⟩ := by decide +kernel
  have hcompact : (ofMismatch "xx" ⟨.one, none, .compact "1c6"⟩ "ñ = 1 @integer 21, 1c6é").span =
      some ⟨20, 3⟩ := by decide +kernel
  refine ⟨hwarning _ _ _ hfound, ?_, hmismatch _ _ _ _ hcompact, ?_⟩
  · rw [← hfound]
    exact hsymbol "xx" .one 'é' (some _)
  · rw [← hcompact]
    exact hsample "xx" ⟨.one, none, .compact "1c6"⟩ _

end Diagnostic

end PluralForms
