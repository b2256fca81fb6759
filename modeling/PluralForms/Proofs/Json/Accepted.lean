import PluralForms.Proofs.Json.Skipping

/-!
# What is passed over is JSON

The other half of what is known of the readers: they make nothing up. What is taken off a text is a
string, a number or a value as a whole, so that blanks apart its tokens stand at the front of the
text, and what is left stands behind them:

    exists_letters_of_readString, exists_letters_of_skipString : letters up to a closing mark
    exists_scalar : a word, a number or a string
    exists_value  : a value, however deep, and what closes the brackets around it
-/

namespace PluralForms.Json

variable {α β σ : Type} {cs ds rest : List Char}

/-! ### Results -/

theorem exists_of_bind {r : Except Fault α} {next : α → Except Fault β} {b : β}
    (h : (r >>= next) = .ok b) : ∃ a, r = .ok a ∧ next a = .ok b := by
  cases r with
  | error fault => cases h
  | ok a => exact ⟨a, rfl, h⟩

theorem exists_of_map {r : Except Fault α} {f : α → β} {b : β} (h : r.map f = .ok b) :
    ∃ a, r = .ok a ∧ f a = b := by
  cases r with
  | error fault => cases h
  | ok a => exact ⟨a, rfl, Except.ok.inj h⟩

/-! ### Fronts -/

/-- The tokens stand at the front of `cs`, and behind them there is `rest`. -/
def Fronts (front : List (List Char)) (cs rest : List Char) : Prop :=
  ∀ tokens : List (List Char), Lays tokens rest → Lays (front ++ tokens) cs

theorem Fronts.append {front back : List (List Char)} (h : Fronts front cs ds)
    (h' : Fronts back ds rest) : Fronts (front ++ back) cs rest := by
  intro tokens hlays
  rw [List.append_assoc]
  exact h _ (h' _ hlays)

theorem fronts_nil : Fronts [] cs cs := fun _ hlays => hlays

/-- A token stands in front of what is behind it. -/
theorem fronts_token {token : List Char} (h : skipSpace cs = token ++ rest) :
    Fronts [token] cs rest := by
  intro tokens hlays
  have hcs : cs = cs.takeWhile isSpace ++ (token ++ rest) := by
    rw [← h]
    exact List.takeWhile_append_dropWhile.symm
  rw [hcs]
  exact .cons (Text.run_takeWhile cs) hlays

theorem fronts_mark {c : Char} (h : skipSpace cs = c :: rest) : Fronts [[c]] cs rest :=
  @fronts_token cs rest [c] h

/-! ### Strings -/

theorem exists_hexDigits {t : Taken Nat cs} (h : readHex cs = .ok t) :
    ∃ a b c d : HexDigit, cs = a.1 :: b.1 :: c.1 :: d.1 :: t.rest := by
  unfold readHex at h
  split at h
  · cases h
  · split at h
    · split at h
      · next ha hb hc hd =>
        cases h
        exact ⟨⟨_, Option.isSome_of_eq_some ha⟩, ⟨_, Option.isSome_of_eq_some hb⟩,
          ⟨_, Option.isSome_of_eq_some hc⟩, ⟨_, Option.isSome_of_eq_some hd⟩, rfl⟩
      · cases h
    · cases h

/-- A code behind a backslash. -/
theorem exists_code {t : Taken Nat cs} (h : readHex cs = .ok t) :
    ∃ letter : Letter, '\\' :: 'u' :: cs = letter.text ++ t.rest := by
  obtain ⟨a, b, c, d, hcs⟩ := exists_hexDigits h
  exact ⟨.code a b c d, congrArg ('\\' :: 'u' :: ·) hcs⟩

theorem exists_letter_of_readLowSurrogate {high : Nat} {t : Taken Char cs}
    (h : readLowSurrogate high cs = .ok t) : ∃ letter : Letter, cs = letter.text ++ t.rest := by
  unfold readLowSurrogate at h
  split at h
  · cases h
  · cases h
  · obtain ⟨low, hlow, h⟩ := exists_of_bind h
    split at h
    · obtain rfl := Except.ok.inj h
      exact exists_code hlow
    · cases h
  · cases h

theorem exists_letters_of_readEscape {t : Taken Char cs} (h : readEscape cs = .ok t) :
    ∃ letters : List Letter, '\\' :: cs = letters.flatMap Letter.text ++ t.rest := by
  unfold readEscape at h
  split at h
  · cases h
  · obtain ⟨⟨code, rest, shorter⟩, hcode, h⟩ := exists_of_bind h
    obtain ⟨letter, hletter⟩ := exists_code hcode
    dsimp only at h hletter
    split at h
    · cases h
    · split at h
      · obtain ⟨low, hlow, h⟩ := exists_of_bind h
        obtain ⟨letter', hletter'⟩ := exists_letter_of_readLowSurrogate hlow
        obtain rfl := Except.ok.inj h
        refine ⟨[letter, letter'], hletter.trans ?_⟩
        rw [congrArg (letter.text ++ ·) hletter']
        simp [Taken.widen]
      · obtain rfl := Except.ok.inj h
        exact ⟨[letter], by simpa using hletter⟩
  · split at h
    · next hmark =>
      obtain rfl := Except.ok.inj h
      exact ⟨[.escape _ _ hmark], rfl⟩
    · cases h

theorem exists_letter_of_skipEscape {t : Taken Unit cs} (h : skipEscape cs = .ok t) :
    ∃ letter : Letter, '\\' :: cs = letter.text ++ t.rest := by
  unfold skipEscape at h
  split at h
  · cases h
  · obtain ⟨code, hcode, h⟩ := exists_of_bind h
    obtain rfl := Except.ok.inj h
    exact exists_code hcode
  · split at h
    · next hmark =>
      obtain rfl := Except.ok.inj h
      exact ⟨.escape _ _ (Option.some_get hmark).symm, rfl⟩
    · cases h

theorem unquoted_append (letters letters' : List Letter) (rest : List Char) :
    unquoted (letters ++ letters') rest =
      letters.flatMap Letter.text ++ unquoted letters' rest := by
  simp [unquoted]

theorem exists_letters_of_readString {t : Taken (List Char) cs} (h : readString cs = .ok t) :
    ∃ letters, cs = unquoted letters t.rest := by
  induction cs using readString.induct with
  | case1 =>
    rw [readString] at h
    cases h
  | case2 cs =>
    rw [readString] at h
    obtain rfl := Except.ok.inj h
    exact ⟨[], rfl⟩
  | case3 cs ih =>
    rw [readString] at h
    obtain ⟨⟨c, rest, shorter⟩, hescape, h⟩ := exists_of_bind h
    obtain ⟨tail, hstring, h⟩ := exists_of_bind h
    obtain ⟨front, hfront⟩ := exists_letters_of_readEscape hescape
    obtain ⟨letters, hletters⟩ := ih rest shorter hstring
    obtain rfl := Except.ok.inj h
    refine ⟨front ++ letters, hfront.trans ?_⟩
    rw [unquoted_append]
    exact congrArg (front.flatMap Letter.text ++ ·) hletters
  | case4 c cs hquote hbackslash hcontrol =>
    rw [readString, if_pos hcontrol] at h
    · cases h
    · exact hquote
    · exact hbackslash
  | case5 c cs hquote hbackslash hprinted ih =>
    rw [readString, if_neg hprinted] at h
    · obtain ⟨tail, hstring, h⟩ := exists_of_bind h
      obtain ⟨letters, hletters⟩ := ih hstring
      obtain rfl := Except.ok.inj h
      exact ⟨.plain c ⟨Nat.le_of_not_lt hprinted, hquote, hbackslash⟩ :: letters,
        congrArg (c :: ·) hletters⟩
    · exact hquote
    · exact hbackslash

theorem exists_letters_of_skipString {t : Taken Unit cs} (h : skipString cs = .ok t) :
    ∃ letters, cs = unquoted letters t.rest := by
  induction cs using skipString.induct with
  | case1 =>
    rw [skipString] at h
    cases h
  | case2 cs =>
    rw [skipString] at h
    obtain rfl := Except.ok.inj h
    exact ⟨[], rfl⟩
  | case3 cs ih =>
    rw [skipString] at h
    obtain ⟨⟨⟨⟩, rest, shorter⟩, hescape, h⟩ := exists_of_bind h
    obtain ⟨tail, hstring, h⟩ := exists_of_bind h
    obtain ⟨letter, hletter⟩ := exists_letter_of_skipEscape hescape
    obtain ⟨letters, hletters⟩ := ih rest shorter hstring
    obtain rfl := Except.ok.inj h
    refine ⟨letter :: letters, hletter.trans ?_⟩
    rw [← List.singleton_append, unquoted_append, List.flatMap_singleton]
    exact congrArg (letter.text ++ ·) hletters
  | case4 c cs hquote hbackslash hcontrol =>
    rw [skipString, if_pos hcontrol] at h
    · cases h
    · exact hquote
    · exact hbackslash
  | case5 c cs hquote hbackslash hprinted ih =>
    rw [skipString, if_neg hprinted] at h
    · obtain ⟨tail, hstring, h⟩ := exists_of_bind h
      obtain ⟨letters, hletters⟩ := ih hstring
      obtain rfl := Except.ok.inj h
      exact ⟨.plain c ⟨Nat.le_of_not_lt hprinted, hquote, hbackslash⟩ :: letters,
        congrArg (c :: ·) hletters⟩
    · exact hquote
    · exact hbackslash

theorem fronts_quoted {letters : List Letter} (h : skipSpace cs = '"' :: ds)
    (hds : ds = unquoted letters rest) : Fronts [quoted letters] cs rest := by
  apply fronts_token
  rw [h, hds, quoted_append]

/-! ### Words and numbers -/

theorem eq_append_of_readWord {word : List Char} {r : Rest cs} (h : readWord word cs = .ok r) :
    cs = word ++ r.1 := by
  induction word generalizing cs with
  | nil =>
    rw [readWord] at h
    obtain rfl := Except.ok.inj h
    rfl
  | cons w word ih =>
    cases cs with
    | nil => cases h
    | cons c cs =>
      rw [readWord] at h
      split at h
      · next hletter =>
        obtain ⟨rest, hrest, h⟩ := exists_of_map h
        obtain rfl := h
        rw [hletter]
        exact congrArg (c :: ·) (ih hrest)
      · cases h

theorem exists_fraction {atEnd : Fault}
    {p : { p : List Char × List Char // p.2.length ≤ cs.length }}
    (h : readFraction atEnd cs = .ok p) :
    ∃ behind, Numeral.WritesFraction behind p.1.1 ∧ cs = behind ++ p.1.2 := by
  unfold readFraction at h
  split at h
  · next cs =>
    split at h
    · cases h
    · next hne =>
      obtain rfl := Except.ok.inj h
      refine ⟨'.' :: cs.takeWhile Char.isDigit, .some hne (Text.run_takeWhile cs), ?_⟩
      exact congrArg ('.' :: ·) List.takeWhile_append_dropWhile.symm
  · obtain rfl := Except.ok.inj h
    exact ⟨[], .none, rfl⟩

/-- What is dropped is a sign, which may stand in front of any digits. -/
theorem exists_sign (cs : List Char) : ∃ sign, cs = sign ++ dropSign cs ∧
    ∀ ds, ds ≠ [] → IsDigits ds → ∃ e, Numeral.WritesSigned (sign ++ ds) e := by
  unfold dropSign
  split
  · exact ⟨['+'], rfl, fun ds hne hds => ⟨_, .plus hne hds⟩⟩
  · exact ⟨['-'], rfl, fun ds hne hds => ⟨_, .minus hne hds⟩⟩
  · exact ⟨[], rfl, fun ds hne hds => ⟨_, .plain hne hds⟩⟩

theorem exists_power {atEnd : Fault} {p : { p : Int × List Char // p.2.length ≤ cs.length }}
    (h : readExponent atEnd cs = .ok p) : ∃ power, IsPower power ∧ cs = power ++ p.1.2 := by
  unfold readExponent at h
  split at h
  · obtain rfl := Except.ok.inj h
    exact ⟨[], .none, rfl⟩
  · next mark cs =>
    split at h
    · next hmark =>
      dsimp only at h
      split at h
      · cases h
      · next hne =>
        obtain rfl := Except.ok.inj h
        obtain ⟨sign, hsign, hsigned⟩ := exists_sign cs
        obtain ⟨e, he⟩ := hsigned _ hne (Text.run_takeWhile (dropSign cs))
        refine ⟨_, .some (by simpa using hmark) he, ?_⟩
        have hcs : cs = (sign ++ (dropSign cs).takeWhile Char.isDigit) ++
            (dropSign cs).dropWhile Char.isDigit := by
          rw [List.append_assoc, List.takeWhile_append_dropWhile, ← hsign]
        exact congrArg (mark :: ·) hcs
    · obtain rfl := Except.ok.inj h
      exact ⟨[], .none, rfl⟩

theorem isWhole_of_run {c : Char} {more : List Char} (hc : c.isDigit = true)
    (hzero : ¬(c = '0' ∧ more ≠ [])) (hmore : IsDigits more) : IsWhole (c :: more) := by
  by_cases hc0 : c = '0'
  · obtain rfl : more = [] := by
      by_contra hne
      exact hzero ⟨hc0, hne⟩
    rw [hc0]
    exact .zero
  · exact .digits hc0 (List.forall_mem_cons.2 ⟨hc, hmore⟩)

/-- With a minus sign in front, or with none, it is the spelling of a number. -/
theorem exists_isNumber {atEnd : Fault} {t : Taken Number cs} (h : readNumber atEnd cs = .ok t) :
    ∃ digits, (∀ sign, Numeral.IsMinus sign → IsNumber (sign ++ digits)) ∧
      cs = digits ++ t.rest := by
  unfold readNumber at h
  split at h
  · cases h
  · next c cs =>
    split at h
    · cases h
    · next hc =>
      dsimp only at h
      split at h
      · cases h
      · next hzero =>
        obtain ⟨⟨⟨fraction, rest⟩, h₁⟩, hfraction, h⟩ := exists_of_bind h
        dsimp only at h
        obtain ⟨⟨⟨exponent, rest'⟩, h₂⟩, hpower, h⟩ := exists_of_bind h
        obtain ⟨behind, hbehind, hrest⟩ := exists_fraction hfraction
        obtain ⟨power, hisPower, hrest'⟩ := exists_power hpower
        obtain rfl := Except.ok.inj h
        have hcs : cs = cs.takeWhile Char.isDigit ++ (behind ++ (power ++ rest')) := by
          rw [← hrest', ← hrest, List.takeWhile_append_dropWhile]
        refine ⟨_, fun sign hsign => .mk hsign (isWhole_of_run (by simpa using hc) hzero
          (Text.run_takeWhile cs)) hbehind hisPower, ?_⟩
        simpa using congrArg (c :: ·) hcs

theorem exists_scalar {t : Taken Unit cs} (h : skipScalar cs = .ok t) :
    ∃ (v : Value) (token : List Char), v.tokens = [token] ∧ cs = token ++ t.rest := by
  unfold skipScalar at h
  split at h
  · cases h
  · obtain ⟨tail, hstring, rfl⟩ := exists_of_map h
    obtain ⟨letters, hletters⟩ := exists_letters_of_skipString hstring
    refine ⟨.string letters, _, rfl, ?_⟩
    rw [quoted_append]
    exact congrArg ('"' :: ·) hletters
  · obtain ⟨r, hword, rfl⟩ := exists_of_map h
    exact ⟨.null, _, rfl, congrArg ('n' :: ·) (eq_append_of_readWord hword)⟩
  · obtain ⟨r, hword, rfl⟩ := exists_of_map h
    exact ⟨.bool true, _, rfl, congrArg ('t' :: ·) (eq_append_of_readWord hword)⟩
  · obtain ⟨r, hword, rfl⟩ := exists_of_map h
    exact ⟨.bool false, _, rfl, congrArg ('f' :: ·) (eq_append_of_readWord hword)⟩
  · obtain ⟨tail, hnumber, rfl⟩ := exists_of_map h
    obtain ⟨digits, hdigits, hcs⟩ := exists_isNumber hnumber
    exact ⟨.number _ (hdigits _ .minus), _, rfl, congrArg ('-' :: ·) hcs⟩
  · obtain ⟨tail, hnumber, rfl⟩ := exists_of_map h
    obtain ⟨digits, hdigits, hcs⟩ := exists_isNumber hnumber
    exact ⟨.number _ (hdigits _ .none), _, rfl, hcs⟩

/-! ### Values that are passed over -/

theorem fronts_readColon {t : Taken Unit cs} (h : readColon cs = .ok t) :
    Fronts [[':']] cs t.rest := by
  unfold readColon at h
  split at h
  · cases h
  · next heq =>
    obtain rfl := Except.ok.inj h
    exact fronts_mark heq
  · cases h

theorem exists_key {t : Taken Unit cs} (h : skipKey cs = .ok t) :
    ∃ key, Fronts [quoted key, [':']] cs t.rest := by
  unfold skipKey at h
  split at h
  · cases h
  · next heq =>
    obtain ⟨tail, hstring, h⟩ := exists_of_bind h
    obtain ⟨colon, hcolon, h⟩ := exists_of_bind h
    obtain ⟨key, hkey⟩ := exists_letters_of_skipString hstring
    obtain rfl := Except.ok.inj h
    exact ⟨key, (fronts_quoted heq hkey).append (fronts_readColon hcolon)⟩
  · cases h

/-- The tokens close the brackets, from the innermost one on. -/
inductive Closes : List Bracket → List (List Char) → Prop
  | nil : Closes [] []
  | array {outer ends} (items : List Value) :
      Closes outer ends → Closes (.array :: outer) (Value.itemTokens items ++ ends)
  | object {outer ends} (members : List (List Letter × Value)) :
      Closes outer ends → Closes (.object :: outer) (Value.memberTokens members ++ ends)

/- The reader keeps a list of open brackets in place of a call for each of them. So behind a value
it has gone on to the end of the outermost bracket, and the values that stand in the brackets around
it are those that close them. The induction is on the length of the text. -/
mutual

theorem exists_value (outer : List Bracket) (cs : List Char) {t : Taken Unit cs}
    (h : skipInside outer cs = .ok t) :
    ∃ (v : Value) (ends : List (List Char)), Closes outer ends ∧
      Fronts (v.tokens ++ ends) cs t.rest := by
  rw [skipInside] at h
  split at h
  · cases h
  · next rest heq =>
    have h₁ := length_lt_of_skipSpace heq
    split at h
    · cases h
    · next heq' =>
      have h₂ := length_lt_of_skipSpace heq'
      obtain ⟨r, hclosing, rfl⟩ := exists_of_map h
      obtain ⟨ends, hends, hfronts⟩ := exists_closing outer _ hclosing
      exact ⟨.array [], ends, hends, (fronts_mark heq).append ((fronts_mark heq').append hfronts)⟩
    · obtain ⟨tail, hitem, rfl⟩ := exists_of_map h
      obtain ⟨item, _, hends, hfronts⟩ := exists_value (.array :: outer) rest hitem
      cases hends with
      | @array _ ends items hends =>
        refine ⟨.array (item :: items), ends, hends, ?_⟩
        have hall := (fronts_mark heq).append hfronts
        rw [← List.append_assoc item.tokens] at hall
        exact hall
  · next rest heq =>
    have h₁ := length_lt_of_skipSpace heq
    split at h
    · cases h
    · next heq' =>
      have h₂ := length_lt_of_skipSpace heq'
      obtain ⟨r, hclosing, rfl⟩ := exists_of_map h
      obtain ⟨ends, hends, hfronts⟩ := exists_closing outer _ hclosing
      exact ⟨.object [], ends, hends, (fronts_mark heq).append ((fronts_mark heq').append hfronts)⟩
    · obtain ⟨⟨⟨⟩, rest', h₂⟩, hkey, h⟩ := exists_of_bind h
      obtain ⟨tail, hvalue, h⟩ := exists_of_bind h
      obtain ⟨key, hkey⟩ := exists_key hkey
      obtain ⟨value, _, hends, hfronts⟩ := exists_value (.object :: outer) rest' hvalue
      obtain rfl := Except.ok.inj h
      cases hends with
      | @object _ ends members hends =>
        refine ⟨.object ((key, value) :: members), ends, hends, ?_⟩
        have hall := (fronts_mark heq).append (hkey.append hfronts)
        rw [← List.append_assoc value.tokens] at hall
        exact hall
  · next c rest _ _ heq =>
    obtain ⟨⟨⟨⟩, rest', h₂⟩, hscalar, h⟩ := exists_of_bind h
    obtain ⟨r, hclosing, h⟩ := exists_of_bind h
    obtain ⟨v, token, htokens, hcs⟩ := exists_scalar hscalar
    have h₃ : rest'.length < cs.length :=
      Nat.lt_of_lt_of_le h₂ (heq ▸ length_skipSpace_le cs)
    obtain ⟨ends, hends, hfronts⟩ := exists_closing outer rest' hclosing
    obtain rfl := Except.ok.inj h
    refine ⟨v, ends, hends, ?_⟩
    rw [htokens]
    exact (fronts_token (heq.trans hcs)).append hfronts
termination_by cs.length

theorem exists_closing (outer : List Bracket) (cs : List Char) {r : Rest cs}
    (h : skipClosing outer cs = .ok r) :
    ∃ ends, Closes outer ends ∧ Fronts ends cs r.1 := by
  rw [skipClosing.eq_def] at h
  split at h
  · obtain rfl := Except.ok.inj h
    exact ⟨[], .nil, fronts_nil⟩
  · split at h
    · cases h
    · next heq =>
      have h₁ := length_lt_of_skipSpace heq
      obtain ⟨tail, hitem, rfl⟩ := exists_of_map h
      obtain ⟨item, _, hends, hfronts⟩ := exists_value _ _ hitem
      cases hends with
      | @array _ ends items hends =>
        refine ⟨_, .array (item :: items) hends, ?_⟩
        have hall := (fronts_mark heq).append hfronts
        rw [← List.append_assoc item.tokens] at hall
        exact hall
    · next heq =>
      have h₁ := length_lt_of_skipSpace heq
      obtain ⟨r, hclosing, rfl⟩ := exists_of_map h
      obtain ⟨ends, hends, hfronts⟩ := exists_closing _ _ hclosing
      exact ⟨_, .array [] hends, (fronts_mark heq).append hfronts⟩
    · cases h
  · split at h
    · cases h
    · next heq =>
      have h₁ := length_lt_of_skipSpace heq
      obtain ⟨⟨⟨⟩, rest', h₂⟩, hkey, h⟩ := exists_of_bind h
      obtain ⟨tail, hvalue, h⟩ := exists_of_bind h
      obtain ⟨key, hkey⟩ := exists_key hkey
      obtain ⟨value, _, hends, hfronts⟩ := exists_value _ rest' hvalue
      obtain rfl := Except.ok.inj h
      cases hends with
      | @object _ ends members hends =>
        refine ⟨_, .object ((key, value) :: members) hends, ?_⟩
        have hall := (fronts_mark heq).append (hkey.append hfronts)
        rw [← List.append_assoc value.tokens] at hall
        exact hall
    · next heq =>
      have h₁ := length_lt_of_skipSpace heq
      obtain ⟨r, hclosing, rfl⟩ := exists_of_map h
      obtain ⟨ends, hends, hfronts⟩ := exists_closing _ _ hclosing
      exact ⟨_, .object [] hends, (fronts_mark heq).append hfronts⟩
    · cases h
termination_by cs.length

end

end PluralForms.Json
