import PluralForms.Proofs.Json.Documents

/-!
# Reading strings

A string that is wanted is decoded, and one that is not is passed over. The first fails where halves
of surrogate pairs do not meet, the second never does:

    outcome_readString :
      outcome (readString (unquoted letters rest)) = (decode letters).map fun cs => (cs, rest)
    outcome_skipString :
      outcome (skipString (unquoted letters rest)) = some ((), rest)
-/

namespace PluralForms.Json

variable {α β : Type} {cs : List Char}

/-! ### Outcomes -/

/-- What a reader takes and what it leaves, if it finds no fault. -/
def outcome (r : Reading α cs) : Option (α × List Char) :=
  match r with
  | .error _ => none
  | .ok t => some (t.value, t.rest)

theorem outcome_eq_some {r : Reading α cs} {value : α} {rest : List Char}
    (h : outcome r = some (value, rest)) : ∃ shorter, r = .ok ⟨value, rest, shorter⟩ := by
  cases r with
  | error fault => exact absurd h.symm (Option.some_ne_none _)
  | ok t =>
    obtain ⟨rfl, rfl⟩ := Prod.mk.inj (Option.some.inj h)
    exact ⟨t.shorter, rfl⟩

theorem outcome_eq_none {r : Reading α cs} (h : outcome r = none) : ∃ fault, r = .error fault := by
  cases r with
  | error fault => exact ⟨fault, rfl⟩
  | ok t => exact absurd h (Option.some_ne_none _)

/-- The outcome of a part of a reader that does not count as a reader, since it may take nothing. -/
def parted {P : α → Prop} (r : Except Fault (Subtype P)) : Option α :=
  match r with
  | .error _ => none
  | .ok t => some t.1

theorem parted_eq_some {P : α → Prop} {r : Except Fault (Subtype P)} {value : α}
    (h : parted r = some value) : ∃ property, r = .ok ⟨value, property⟩ := by
  cases r with
  | error fault => exact absurd h.symm (Option.some_ne_none _)
  | ok t =>
    obtain rfl := Option.some.inj h
    exact ⟨t.2, rfl⟩

/-- The reader takes the value off a text, if there is one, and leaves a layout of the tokens behind
it. -/
def Agrees (r : Reading α cs) (value? : Option α) (tokens : List (List Char)) : Prop :=
  match value? with
  | none => outcome r = none
  | some value => ∃ rest, outcome r = some (value, rest) ∧ Lays tokens rest

/-- A reader that goes on behind what another one has taken. -/
theorem outcome_bind {ds : List Char} {r : Reading α cs} {next : Taken α cs → Reading β ds}
    {g : α → List Char → Option (β × List Char)}
    (h : ∀ t, outcome (next t) = g t.value t.rest) :
    outcome (r >>= next) = (outcome r).bind fun p => g p.1 p.2 := by
  cases r with
  | error fault => rfl
  | ok t => exact h t

/-! ### Escapes -/

theorem utf8Size_hexDigit (d : HexDigit) : d.1.utf8Size = 1 := by
  obtain ⟨c, hc⟩ := d
  have hle : c.toNat ≤ 127 := by
    unfold hexValue at hc
    split at hc
    · next hdigit => exact Nat.le_trans (Char.isDigit_iff_toNat.1 hdigit).2 (by decide)
    · split at hc
      · next hlower => exact Nat.le_trans (UInt32.le_iff_toNat_le.1 hlower.2) (by decide)
      · split at hc
        · next hupper => exact Nat.le_trans (UInt32.le_iff_toNat_le.1 hupper.2) (by decide)
        · exact absurd hc Bool.false_ne_true
  exact if_pos (UInt32.le_iff_toNat_le.2 (show c.val.toNat ≤ 127 from hle))

theorem readHex_code (a b c d : HexDigit) (rest : List Char) :
    outcome (readHex (a.1 :: b.1 :: c.1 :: d.1 :: rest)) = some (codeOf a b c d, rest) := by
  have hvalue : ∀ digit : HexDigit, hexValue digit.1 = some ((hexValue digit.1).get digit.2) :=
    fun digit => (Option.some_get digit.2).symm
  have hlength : ¬Text.byteLength ((a.1 :: b.1 :: c.1 :: d.1 :: rest).take 4) < 4 := by
    simp [utf8Size_hexDigit]
  unfold readHex
  rw [if_neg hlength]
  dsimp only
  split
  · next ha hb hc hd =>
    rw [hvalue] at ha hb hc hd
    cases ha
    cases hb
    cases hc
    cases hd
    rfl
  · next hnone => exact (hnone _ _ _ _ (hvalue a) (hvalue b) (hvalue c) (hvalue d)).elim

theorem ne_u_of_simpleEscape {mark c : Char} (h : simpleEscape mark = some c) : mark ≠ 'u' := by
  rintro rfl
  rw [show simpleEscape 'u' = none by decide] at h
  exact absurd h.symm (Option.some_ne_none c)

theorem readEscape_mark {mark c : Char} (h : simpleEscape mark = some c) (rest : List Char) :
    outcome (readEscape (mark :: rest)) = some (c, rest) := by
  rw [readEscape, h]
  · rfl
  · exact ne_u_of_simpleEscape h

theorem readEscape_code (a b c d : HexDigit) (rest : List Char) :
    outcome (readEscape ('u' :: a.1 :: b.1 :: c.1 :: d.1 :: rest)) =
      if isTrail (codeOf a b c d) then none
      else if isLead (codeOf a b c d) then outcome (readLowSurrogate (codeOf a b c d) rest)
      else some (Char.ofNat (codeOf a b c d), rest) := by
  obtain ⟨shorter, hcode⟩ := outcome_eq_some (readHex_code a b c d rest)
  rw [readEscape, hcode]
  simp only [isTrail, isLead, Bool.and_eq_true, decide_eq_true_eq]
  show outcome (ite _ _ _) = _
  split
  · rfl
  · split
    · cases readLowSurrogate (codeOf a b c d) rest with
      | error fault => rfl
      | ok t => rfl
    · rfl

/-- What a string is behind its opening mark. -/
def unquoted (letters : List Letter) (rest : List Char) : List Char :=
  letters.flatMap Letter.text ++ '"' :: rest

theorem quoted_append (letters : List Letter) (rest : List Char) :
    quoted letters ++ rest = '"' :: unquoted letters rest := by
  simp [quoted, unquoted]

theorem skipSpace_of_lays_quoted {letters : List Letter} {tokens : List (List Char)}
    (h : Lays (quoted letters :: tokens) cs) :
    ∃ rest, skipSpace cs = '"' :: unquoted letters rest ∧ Lays tokens rest := by
  obtain ⟨rest, hspace, hrest⟩ := skipSpace_of_lays h (by decide)
  exact ⟨rest, hspace.trans (quoted_append letters rest), hrest⟩

/-- The second half of a surrogate pair has to be a code behind the first. -/
theorem readLowSurrogate_code (high : Nat) (a b c d : HexDigit) (letters : List Letter)
    (rest : List Char) :
    outcome (readLowSurrogate high (unquoted (.code a b c d :: letters) rest)) =
      if isTrail (codeOf a b c d) then
        some (Char.ofNat (0x10000 + (high - 0xD800) * 1024 + (codeOf a b c d - 0xDC00)),
          unquoted letters rest)
      else none := by
  obtain ⟨shorter, hcode⟩ := outcome_eq_some (readHex_code a b c d (unquoted letters rest))
  show outcome (readLowSurrogate high
    ('\\' :: 'u' :: a.1 :: b.1 :: c.1 :: d.1 :: unquoted letters rest)) = _
  rw [readLowSurrogate, hcode]
  simp only [isTrail, Bool.and_eq_true, decide_eq_true_eq, bind, Except.bind]
  split
  · simp only [outcome, pure, Except.pure, Taken.map, Taken.widen]
  · rfl

theorem readLowSurrogate_other {letters : List Letter}
    (h : ∀ a b c d others, letters ≠ .code a b c d :: others) (high : Nat) (rest : List Char) :
    outcome (readLowSurrogate high (unquoted letters rest)) = none := by
  match letters with
  | [] => rfl
  | .plain c hc :: others =>
    rw [readLowSurrogate]
    · rfl
    · exact List.cons_ne_nil c _
    · intro heq
      exact hc.2.2 (List.cons.inj heq).1
    · intro cs heq
      exact hc.2.2 (List.cons.inj heq).1
  | .escape mark c hmark :: others =>
    rw [readLowSurrogate]
    · rfl
    · exact List.cons_ne_nil '\\' _
    · intro heq
      exact absurd (List.cons.inj heq).2 (List.cons_ne_nil mark _)
    · intro cs heq
      exact ne_u_of_simpleEscape hmark (List.cons.inj (List.cons.inj heq).2).1
  | .code a b c d :: others => exact absurd rfl (h a b c d others)

/-! ### Strings that are wanted -/

theorem readString_plain {c : Char} (hc : 0x20 ≤ c.toNat ∧ c ≠ '"' ∧ c ≠ '\\')
    (cs : List Char) :
    outcome (readString (c :: cs)) =
      (outcome (readString cs)).map fun p => (c :: p.1, p.2) := by
  rw [readString, if_neg (Nat.not_lt_of_le hc.1)]
  · cases readString cs with
    | error fault => rfl
    | ok t => rfl
  · exact hc.2.1
  · exact hc.2.2

theorem readString_escape (cs : List Char) :
    outcome (readString ('\\' :: cs)) =
      (outcome (readEscape cs)).bind fun p =>
        (outcome (readString p.2)).map fun q => (p.1 :: q.1, q.2) := by
  rw [readString]
  apply outcome_bind (g := fun c rest =>
    (outcome (readString rest)).map fun q => (c :: q.1, q.2))
  rintro ⟨c, rest, shorter⟩
  dsimp only
  cases readString rest with
  | error fault => rfl
  | ok t => rfl

theorem outcome_readString (letters : List Letter) (rest : List Char) :
    outcome (readString (unquoted letters rest)) = (decode letters).map fun cs => (cs, rest) := by
  fun_induction decode letters with
  | case1 =>
    show outcome (readString ('"' :: rest)) = _
    rw [readString]
    rfl
  | case2 c hc letters ih =>
    show outcome (readString (c :: unquoted letters rest)) = _
    rw [readString_plain hc, ih, Option.map_map, Option.map_map]
    rfl
  | case3 mark c hmark letters ih =>
    show outcome (readString ('\\' :: mark :: unquoted letters rest)) = _
    rw [readString_escape, readEscape_mark hmark, Option.bind_some, ih, Option.map_map,
      Option.map_map]
    rfl
  | case4 a b c d letters high htrail =>
    show outcome (readString ('\\' :: 'u' :: _ :: _ :: _ :: _ :: unquoted letters rest)) = _
    rw [readString_escape, readEscape_code, if_pos htrail]
    rfl
  | case5 a b c d high htrail hlead a' b' c' d' letters low hlow ih =>
    show outcome (readString ('\\' :: 'u' :: _ :: _ :: _ :: _ ::
      unquoted (.code a' b' c' d' :: letters) rest)) = _
    rw [readString_escape, readEscape_code, if_neg htrail, if_pos hlead, readLowSurrogate_code,
      if_pos hlow, Option.bind_some, ih, Option.map_map, Option.map_map]
    simp only [Function.comp_def, high, low]
  | case6 a b c d high htrail hlead a' b' c' d' letters low hlow =>
    show outcome (readString ('\\' :: 'u' :: _ :: _ :: _ :: _ ::
      unquoted (.code a' b' c' d' :: letters) rest)) = _
    rw [readString_escape, readEscape_code, if_neg htrail, if_pos hlead, readLowSurrogate_code,
      if_neg hlow]
    rfl
  | case7 a b c d letters high htrail hlead hother =>
    show outcome (readString ('\\' :: 'u' :: _ :: _ :: _ :: _ :: unquoted letters rest)) = _
    rw [readString_escape, readEscape_code, if_neg htrail, if_pos hlead,
      readLowSurrogate_other hother]
    rfl
  | case8 a b c d letters high htrail hlead ih =>
    show outcome (readString ('\\' :: 'u' :: _ :: _ :: _ :: _ :: unquoted letters rest)) = _
    rw [readString_escape, readEscape_code, if_neg htrail, if_neg hlead, Option.bind_some, ih,
      Option.map_map, Option.map_map]
    rfl

/-! ### Strings that nobody wants -/

theorem skipString_plain {c : Char} (hc : 0x20 ≤ c.toNat ∧ c ≠ '"' ∧ c ≠ '\\')
    (cs : List Char) : outcome (skipString (c :: cs)) = outcome (skipString cs) := by
  rw [skipString, if_neg (Nat.not_lt_of_le hc.1)]
  · cases skipString cs with
    | error fault => rfl
    | ok t => rfl
  · exact hc.2.1
  · exact hc.2.2

theorem skipString_escape {cs rest : List Char} (h : outcome (skipEscape cs) = some ((), rest)) :
    outcome (skipString ('\\' :: cs)) = outcome (skipString rest) := by
  obtain ⟨shorter, hescape⟩ := outcome_eq_some h
  rw [skipString, hescape]
  show outcome (skipString rest >>= _) = _
  cases skipString rest with
  | error fault => rfl
  | ok t => rfl

theorem skipEscape_mark {mark c : Char} (h : simpleEscape mark = some c) (rest : List Char) :
    outcome (skipEscape (mark :: rest)) = some ((), rest) := by
  rw [skipEscape, h]
  · rfl
  · exact ne_u_of_simpleEscape h

theorem skipEscape_code (a b c d : HexDigit) (rest : List Char) :
    outcome (skipEscape ('u' :: a.1 :: b.1 :: c.1 :: d.1 :: rest)) = some ((), rest) := by
  obtain ⟨shorter, hcode⟩ := outcome_eq_some (readHex_code a b c d rest)
  rw [skipEscape, hcode]
  rfl

/-- Halves of surrogate pairs do not matter where a string is passed over. -/
theorem outcome_skipString (letters : List Letter) (rest : List Char) :
    outcome (skipString (unquoted letters rest)) = some ((), rest) := by
  induction letters with
  | nil =>
    show outcome (skipString ('"' :: rest)) = _
    rw [skipString]
    rfl
  | cons letter letters ih =>
    cases letter with
    | plain c hc => exact (skipString_plain hc _).trans ih
    | escape mark c hmark => exact (skipString_escape (skipEscape_mark hmark _)).trans ih
    | code a b c d => exact (skipString_escape (skipEscape_code a b c d _)).trans ih

end PluralForms.Json
