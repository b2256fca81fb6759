import PluralForms.Proofs.Json.Recognition
import PluralForms.Proofs.Operands.Floats

/-!
# What is written as JSON

A value that is handed to other programs is written as a document, which says what the value is: its
strings decode to the texts, its numbers are the digits of the numbers, and it has the same items
and members in the same order.

    exists_quoted : a text between its quotation marks is a string that decodes to the text
    isNumber_toString, isNumber_withSign : what is written of a number is the spelling of one
    exists_writes_pretty : ∃ v, Spells v j ∧ v.Writes (j.pretty ++ blanks)

* `Spells` - a document says what a value is;
* `Covers` - a text lays out tokens, whatever stands behind it.
-/

namespace PluralForms.Json

open Binary

/-! ### Strings -/

/-- The letter adds `c` to what the letters behind it stand for. -/
def Letter.StandsFor (letter : Letter) (c : Char) : Prop :=
  ∀ letters, decode (letter :: letters) = (decode letters).map (c :: ·)

theorem hexValue_digitChar {d : Nat} (h : d < 16) : hexValue (Nat.digitChar d) = some d := by
  revert d
  decide

/-- The hexadecimal digit of a number below sixteen. -/
def hexDigit (d : Nat) (h : d < 16) : HexDigit :=
  ⟨Nat.digitChar d, Option.isSome_of_eq_some (hexValue_digitChar h)⟩

theorem get_hexDigit {d : Nat} (h : d < 16) :
    (hexValue (hexDigit d h).1).get (hexDigit d h).2 = d :=
  Option.get_of_eq_some _ (hexValue_digitChar h)

/-- A control character is written as its code. -/
theorem exists_letter_of_control {c : Char} (h : c.toNat < 0x20) :
    ∃ letter : Letter, letter.text =
      ['\\', 'u', '0', '0', Nat.digitChar (c.toNat / 16), Nat.digitChar (c.toNat % 16)] ∧
      letter.StandsFor c := by
  have hhigh : c.toNat / 16 < 16 := by omega
  have hlow : c.toNat % 16 < 16 := by omega
  refine ⟨.code (hexDigit 0 (by decide)) (hexDigit 0 (by decide)) (hexDigit _ hhigh)
    (hexDigit _ hlow), rfl, ?_⟩
  -- two digits are enough, and the number is below all surrogates
  have hcode : codeOf (hexDigit 0 (by decide)) (hexDigit 0 (by decide)) (hexDigit _ hhigh)
      (hexDigit _ hlow) = c.toNat := by
    unfold codeOf
    simp only [get_hexDigit]
    omega
  have hlead : isLead c.toNat = false := by simp [isLead]; omega
  have htrail : isTrail c.toNat = false := by simp [isTrail]; omega
  intro letters
  rw [decode.eq_def]
  simp [hcode, hlead, htrail]

theorem exists_letter_of_mark {mark c d : Char} (hc : c = d) (h : simpleEscape mark = some d) :
    ∃ letter : Letter, letter.text = ['\\', mark] ∧ letter.StandsFor c :=
  hc ▸ ⟨.escape mark d h, rfl, fun _ => rfl⟩

/-- However a character is escaped, what is written is one letter, which stands for it. -/
theorem exists_letter (c : Char) :
    ∃ letter : Letter, letter.text = escape c ∧ letter.StandsFor c := by
  unfold escape
  split_ifs with hquote hbackslash hnewline hreturn htab hbackspace hfeed hcontrol
  · exact exists_letter_of_mark hquote rfl
  · exact exists_letter_of_mark hbackslash rfl
  · exact exists_letter_of_mark hnewline rfl
  · exact exists_letter_of_mark hreturn rfl
  · exact exists_letter_of_mark htab rfl
  · exact exists_letter_of_mark hbackspace rfl
  · exact exists_letter_of_mark hfeed rfl
  · exact exists_letter_of_control hcontrol
  · exact ⟨.plain c ⟨Nat.le_of_not_lt hcontrol, hquote, hbackslash⟩, rfl, fun _ => rfl⟩

theorem exists_letters (cs : List Char) :
    ∃ letters, letters.flatMap Letter.text = cs.flatMap escape ∧ decode letters = some cs := by
  induction cs with
  | nil => exact ⟨[], rfl, rfl⟩
  | cons c cs ih =>
    obtain ⟨letters, htext, hdecode⟩ := ih
    obtain ⟨letter, hletter, hstands⟩ := exists_letter c
    refine ⟨letter :: letters, ?_, ?_⟩
    · rw [List.flatMap_cons, List.flatMap_cons, hletter, htext]
    · rw [hstands, hdecode]
      rfl

/-- A text between its quotation marks is a string that decodes to the text. -/
theorem exists_quoted (s : String) :
    ∃ letters, (quote s).toList = quoted letters ∧ textOf letters = some s := by
  obtain ⟨letters, htext, hdecode⟩ := exists_letters s.toList
  refine ⟨letters, ?_, ?_⟩
  · simp [quote, quoted, htext]
  · simp [textOf, hdecode]

/-! ### Numbers -/

theorem isWhole_append {c : Char} {cs ds : List Char} (hc : c ≠ '0') (h : IsDigits (c :: cs))
    (hds : IsDigits ds) : IsWhole (c :: (cs ++ ds)) :=
  .digits hc (isDigits_append.2 ⟨h, hds⟩)

theorem isNumber_whole {whole : List Char} (h : IsWhole whole) : IsNumber whole := by
  have hnumber := IsNumber.mk .none h .none .none
  rwa [List.append_nil, List.append_nil] at hnumber

theorem isNumber_toString (n : Nat) : IsNumber (toString n).toList := by
  apply isNumber_whole
  rw [toList_toString]
  by_cases hn : n = 0
  · rw [hn]
    exact .zero
  · obtain ⟨c, cs, htext, hc⟩ := exists_toDigits_eq_cons (Nat.pos_of_ne_zero hn)
    have hdigits := isDigits_toDigits n
    rw [htext] at hdigits ⊢
    exact .digits hc hdigits

/-- A number without a sign. -/
inductive IsUnsigned : List Char → Prop
  | mk {whole behind fraction power} : IsWhole whole → Numeral.WritesFraction behind fraction →
      IsPower power → IsUnsigned (whole ++ (behind ++ power))

theorem isNumber_withSign {cs : List Char} (h : IsUnsigned cs) (negative : Bool) :
    IsNumber (withSign negative cs) := by
  cases h with
  | mk hwhole hfraction hpower =>
    cases negative with
    | false => exact .mk .none hwhole hfraction hpower
    | true => exact .mk .minus hwhole hfraction hpower

section ShortDecimal

variable {c : Char} {cs : List Char} {exponent : Int}

theorem isUnsigned_whole {ds : List Char} (hc : c ≠ '0') (h : IsDigits (c :: cs))
    (hds : IsDigits ds) : IsUnsigned (c :: (cs ++ ds) ++ ['.', '0']) := by
  have hfraction : Numeral.WritesFraction ['.', '0'] ['0'] :=
    .some (List.cons_ne_nil _ _) (isDigits_replicate_zero 1)
  exact .mk (isWhole_append hc h hds) hfraction .none

/-- With a negative exponent there is a digit on each side of the point, and in front of it no zero
but a lone one. -/
theorem isUnsigned_positional (hc : c ≠ '0') (h : IsDigits (c :: cs)) (hexponent : exponent < 0) :
    IsUnsigned (ShortDecimal.positional ⟨c :: cs, exponent⟩) := by
  unfold ShortDecimal.positional
  dsimp only
  rw [if_neg (Int.not_le.2 hexponent)]
  split
  · next hplaces =>
    rw [List.length_cons] at hplaces ⊢
    obtain ⟨taken, htaken⟩ : ∃ taken, cs.length + 1 - (-exponent).toNat = taken + 1 :=
      Nat.exists_eq_add_one_of_ne_zero (by omega)
    rw [htaken, List.take_succ_cons, List.drop_succ_cons]
    have hwhole : IsWhole (c :: cs.take taken) := by
      refine .digits hc fun d hd => h d ?_
      rw [← List.take_succ_cons] at hd
      exact List.mem_of_mem_take hd
    have hfraction : Numeral.WritesFraction ('.' :: cs.drop taken) (cs.drop taken) := by
      apply Numeral.WritesFraction.some
      · apply List.ne_nil_of_length_pos
        rw [List.length_drop]
        omega
      · exact fun d hd => h d (List.mem_cons_of_mem c (List.mem_of_mem_drop hd))
    rw [← List.append_nil ('.' :: cs.drop taken)]
    exact .mk hwhole hfraction .none
  · generalize (-exponent).toNat - (c :: cs).length = zeros
    have hfraction := Numeral.WritesFraction.some
      (List.append_ne_nil_of_right_ne_nil (List.replicate zeros '0') (List.cons_ne_nil c cs))
      (isDigits_append.2 ⟨isDigits_replicate_zero zeros, h⟩)
    have hzero := IsUnsigned.mk .zero hfraction .none
    rwa [List.append_nil] at hzero

theorem isPower_toDigits (sign : Char) (hsign : sign = '+' ∨ sign = '-') (n : Nat) :
    IsPower ('e' :: sign :: Nat.toDigits 10 n) := by
  have hne : Nat.toDigits 10 n ≠ [] := Nat.toDigits_ne_nil
  rcases hsign with rfl | rfl
  · exact .some (by simp) (.plus hne (isDigits_toDigits n))
  · exact .some (by simp) (.minus hne (isDigits_toDigits n))

theorem isUnsigned_scientific (hc : c ≠ '0') (h : IsDigits (c :: cs)) :
    IsUnsigned (ShortDecimal.scientific ⟨c :: cs, exponent⟩) := by
  have hwhole : IsWhole [c] :=
    .digits hc (by simpa [IsDigits] using h c List.mem_cons_self)
  unfold ShortDecimal.scientific
  dsimp only
  generalize ShortDecimal.leading ⟨c :: cs, exponent⟩ = leading
  have hpower := isPower_toDigits (if leading < 0 then '-' else '+')
    (by split <;> simp) leading.natAbs
  cases cs with
  | nil => exact .mk hwhole .none hpower
  | cons d ds =>
    have hfraction : Numeral.WritesFraction ('.' :: d :: ds) (d :: ds) :=
      .some (List.cons_ne_nil d ds) fun e he => h e (List.mem_cons_of_mem c he)
    exact .mk hwhole hfraction hpower

end ShortDecimal

/-- The digits of a decimal, wherever the point is, are a number. -/
theorem isUnsigned_jsonText {x : ShortDecimal} (h : x.Normal) : IsUnsigned x.jsonText := by
  cases h with
  | zero =>
    exact .mk .zero (.some (List.cons_ne_nil '0' []) (isDigits_replicate_zero 1)) .none
  | @digits c cs exponent hc hdigits =>
    unfold ShortDecimal.jsonText
    dsimp only
    split_ifs with hplain hwhole
    · unfold ShortDecimal.positional
      rw [if_pos hwhole]
      exact isUnsigned_whole hc hdigits (isDigits_replicate_zero _)
    · exact isUnsigned_positional hc hdigits (Int.not_le.1 hwhole)
    · exact isUnsigned_scientific hc hdigits

theorem isNumber_json {x : Double} (h : x.isFinite = true) : IsNumber x.json.toList := by
  cases x with
  | nan => exact absurd h Bool.false_ne_true
  | infinite => exact absurd h Bool.false_ne_true
  | finite negative units exact =>
    unfold Double.json
    rw [String.toList_ofList]
    exact isNumber_withSign (isUnsigned_jsonText (Format.normal_shortest (by decide) .even units))
      negative

/-! ### What a document says -/

mutual

/-- The document says what the value is. A number that is not finite is null. -/
inductive Spells : Value → Json → Prop
  | null : Spells .null .null
  | bool (value : Bool) : Spells (.bool value) (.bool value)
  | natural {n digits} (h : IsNumber digits) : digits = Nat.toDigits 10 n →
      Spells (.number digits h) (.natural n)
  | real {x : Double} {digits} (h : IsNumber digits) : x.isFinite = true →
      digits = x.json.toList → Spells (.number digits h) (.real x)
  | notFinite {x : Double} : x.isFinite = false → Spells .null (.real x)
  | string {letters s} : textOf letters = some s → Spells (.string letters) (.string s)
  | array {values items} : List.Forall₂ Spells values items →
      Spells (.array values) (.array items)
  | object {members entries} : List.Forall₂ SpellsMember members entries →
      Spells (.object members) (.object entries)

/-- The member of a document has the key, and says what the value is. -/
inductive SpellsMember : List Letter × Value → String × Json → Prop
  | mk {letters key value item} : textOf letters = some key → Spells value item →
      SpellsMember (letters, value) (key, item)

end

/-! ### Layouts -/

/-- `cs` lays out the tokens, whatever stands behind it. -/
def Covers (front : List (List Char)) (cs : List Char) : Prop :=
  ∀ rest, Fronts front (cs ++ rest) rest

theorem Covers.append {front back : List (List Char)} {cs ds : List Char} (h : Covers front cs)
    (h' : Covers back ds) : Covers (front ++ back) (cs ++ ds) := by
  intro rest
  rw [List.append_assoc]
  exact (h (ds ++ rest)).append (h' rest)

theorem covers_token (token : List Char) : Covers [token] token := by
  intro rest tokens hlays
  have hblanks : IsSpaceRun [] := fun c hc => absurd hc List.not_mem_nil
  exact .cons hblanks hlays

theorem covers_blanks {blanks : List Char} (h : IsSpaceRun blanks) : Covers [] blanks := by
  intro rest tokens hlays
  exact lays_blanks h hlays

/-- Blanks may also stand behind a document. -/
theorem Covers.writes {v : Value} {text blanks : String} (h : Covers v.tokens text.toList)
    (hblanks : IsSpaceRun blanks.toList) : v.Writes (text ++ blanks) := by
  unfold Value.Writes
  rw [String.toList_append, ← List.append_nil v.tokens]
  exact h _ _ (.nil hblanks)

/-- What stands between commas is laid out item by item. -/
theorem covers_intercalate {fronts : List (List (List Char))} {lines : List (List Char)}
    {separator : List Char} (hseparator : Covers [[',']] separator)
    (h : List.Forall₂ Covers fronts lines) :
    Covers ([[',']].intercalate fronts) (separator.intercalate lines) := by
  induction h with
  | nil => exact fun rest => fronts_nil
  | @cons front line fronts lines hline hlines ih =>
    cases hlines with
    | nil => simpa using hline
    | cons =>
      rw [List.intercalate_cons_cons, List.intercalate_cons_cons]
      exact (hline.append hseparator).append ih

theorem isSpaceRun_lineEnd : IsSpaceRun "\n".toList := by
  simp [IsSpaceRun, isSpace]

theorem isSpaceRun_newline (level : Nat) : IsSpaceRun (newline level).toList := by
  intro c hc
  simp only [newline, String.toList_append, String.toList_ofList, List.mem_append,
    List.mem_replicate] at hc
  rcases hc with hc | ⟨-, rfl⟩
  · exact isSpaceRun_lineEnd c hc
  · rfl

/-- Lines between brackets are laid out with the brackets. -/
theorem covers_block {fronts : List (List (List Char))} {lines : List String}
    (h : List.Forall₂ Covers fronts (lines.map String.toList)) (level : Nat)
    (opening closing : String) :
    Covers (opening.toList :: ([[',']].intercalate fronts ++ [closing.toList]))
      (block level opening closing lines).toList := by
  have hopening := covers_token opening.toList
  have hclosing := covers_token closing.toList
  have hnewline := fun level => covers_blanks (isSpaceRun_newline level)
  cases lines with
  | nil =>
    cases h with
    | nil =>
      rw [block, String.toList_append]
      exact hopening.append hclosing
  | cons line lines =>
    -- between two lines there is a comma, and all the rest are blanks
    have hseparator : Covers [[',']] ("," ++ newline (level + 1)).toList := by
      rw [String.toList_append]
      exact (covers_token [',']).append (hnewline (level + 1))
    have hlines := covers_intercalate hseparator h
    rw [← String.toList_intercalate] at hlines
    have hblock := (((hopening.append (hnewline (level + 1))).append hlines).append
      (hnewline level)).append hclosing
    simpa [block] using hblock

/-! ### Tokens between commas -/

theorem tokens_append_itemTokens (item : Value) (items : List Value) :
    item.tokens ++ Value.itemTokens items =
      [[',']].intercalate ((item :: items).map Value.tokens) ++ [[']']] := by
  induction items generalizing item with
  | nil => simp [Value.itemTokens]
  | cons next items ih => simp [Value.itemTokens, ih, List.intercalate_cons_cons]

theorem tokens_array (items : List Value) : (Value.array items).tokens =
    ['['] :: ([[',']].intercalate (items.map Value.tokens) ++ [[']']]) := by
  cases items with
  | nil => rfl
  | cons item items => rw [Value.tokens, tokens_append_itemTokens]

/-- The tokens of a member of an object. -/
def ownTokens (member : List Letter × Value) : List (List Char) :=
  quoted member.1 :: [':'] :: member.2.tokens

theorem tokens_append_memberTokens (member : List Letter × Value)
    (members : List (List Letter × Value)) :
    ownTokens member ++ Value.memberTokens members =
      [[',']].intercalate ((member :: members).map ownTokens) ++ [['\x7d']] := by
  induction members generalizing member with
  | nil => simp [Value.memberTokens]
  | cons next members ih =>
    rw [List.map_cons, List.map_cons, List.intercalate_cons_cons, ← List.map_cons,
      List.append_assoc, ← ih]
    simp [Value.memberTokens, ownTokens]

theorem tokens_object (members : List (List Letter × Value)) : (Value.object members).tokens =
    ['\x7b'] :: ([[',']].intercalate (members.map ownTokens) ++ [['\x7d']]) := by
  cases members with
  | nil => rfl
  | cons member members =>
    rw [← tokens_append_memberTokens]
    rfl

/-! ### Values -/

/- The level only says how many blanks there are, so it is free to change from a value to its items.
The induction is on the value, its items and its members, as the text is put together. -/
mutual

/-- What is written of a value lays out a document that says what the value is. -/
theorem exists_covers_prettyAt : ∀ (j : Json) (level : Nat),
    ∃ v, Spells v j ∧ Covers v.tokens (prettyAt level j).toList
  | .null, _ => ⟨.null, .null, covers_token _⟩
  | .bool true, _ => ⟨.bool true, .bool true, covers_token _⟩
  | .bool false, _ => ⟨.bool false, .bool false, covers_token _⟩
  | .natural n, _ =>
    ⟨.number _ (isNumber_toString n), .natural _ (toList_toString n), covers_token _⟩
  | .real x, _ => by
    cases hfinite : x.isFinite with
    | true =>
      exact ⟨.number _ (isNumber_json hfinite), .real _ hfinite rfl, covers_token _⟩
    | false =>
      refine ⟨.null, .notFinite hfinite, ?_⟩
      cases x with
      | finite => exact absurd hfinite.symm Bool.false_ne_true
      | _ => exact covers_token _
  | .string s, level => by
    obtain ⟨letters, hquoted, htext⟩ := exists_quoted s
    refine ⟨.string letters, .string htext, ?_⟩
    rw [prettyAt, hquoted]
    exact covers_token _
  | .array items, level => by
    obtain ⟨values, hvalues, hlines⟩ := exists_covers_prettyItems items (level + 1)
    refine ⟨.array values, .array hvalues, ?_⟩
    rw [tokens_array, prettyAt]
    exact covers_block hlines level "[" "]"
  | .object entries, level => by
    obtain ⟨members, hmembers, hlines⟩ := exists_covers_prettyMembers entries (level + 1)
    refine ⟨.object members, .object hmembers, ?_⟩
    rw [tokens_object, prettyAt]
    exact covers_block hlines level "\x7b" "\x7d"

theorem exists_covers_prettyItems : ∀ (items : List Json) (level : Nat),
    ∃ values, List.Forall₂ Spells values items ∧
      List.Forall₂ Covers (values.map Value.tokens)
        ((prettyItems level items).map String.toList)
  | [], _ => ⟨[], .nil, .nil⟩
  | item :: items, level => by
    obtain ⟨value, hvalue, hline⟩ := exists_covers_prettyAt item level
    obtain ⟨values, hvalues, hlines⟩ := exists_covers_prettyItems items level
    exact ⟨value :: values, .cons hvalue hvalues, .cons hline hlines⟩

theorem exists_covers_prettyMembers : ∀ (entries : List (String × Json)) (level : Nat),
    ∃ members, List.Forall₂ SpellsMember members entries ∧
      List.Forall₂ Covers (members.map ownTokens)
        ((prettyMembers level entries).map String.toList)
  | [], _ => ⟨[], .nil, .nil⟩
  | (key, item) :: entries, level => by
    obtain ⟨letters, hquoted, htext⟩ := exists_quoted key
    obtain ⟨value, hvalue, hline⟩ := exists_covers_prettyAt item level
    obtain ⟨members, hmembers, hlines⟩ := exists_covers_prettyMembers entries level
    refine ⟨(letters, value) :: members, .cons (.mk htext hvalue) hmembers, .cons ?_ hlines⟩
    rw [String.toList_append, String.toList_append, hquoted]
    have hspace : Covers [] [' '] := covers_blanks (by simp [IsSpaceRun, isSpace])
    have hcolon : Covers [[':']] ": ".toList := (covers_token [':']).append hspace
    exact ((covers_token (quoted letters)).append hcolon).append hline

end

/-- What is written of a value is a document that says what the value is, also with blanks behind
it. -/
theorem exists_writes_pretty (j : Json) {blanks : String} (h : IsSpaceRun blanks.toList) :
    ∃ v, Spells v j ∧ v.Writes (j.pretty ++ blanks) := by
  obtain ⟨v, hspells, hcovers⟩ := exists_covers_prettyAt j 0
  exact ⟨v, hspells, hcovers.writes h⟩

end PluralForms.Json
