import PluralForms.Proofs.Json.Strings

/-!
# Passing over values

A value that nobody wants is passed over without being taken apart: a list of the brackets that are
open is all that is kept. Whatever the value is, nothing of it is left and nothing behind it is
touched:

    skipValue_of_lays : Lays (v.tokens ++ tokens) cs → Stops tokens →
      Agrees (skipValue cs) (some ()) tokens
-/

namespace PluralForms.Json

/-! ### Numbers -/

/-- What stands behind a number does not go on with it. -/
def Ends (cs : List Char) : Prop :=
  ∀ c ∈ cs.head?, c.isDigit = false ∧ c ≠ '.' ∧ c ≠ 'e' ∧ c ≠ 'E'

theorem parted_readFraction {behind fraction after : List Char}
    (h : Numeral.WritesFraction behind fraction)
    (hafter : ∀ c ∈ after.head?, c.isDigit = false ∧ c ≠ '.') (atEnd : Fault) :
    parted (readFraction atEnd (behind ++ after)) = some (fraction, after) := by
  cases h with
  | none =>
    rw [List.nil_append]
    unfold readFraction
    split
    · exact absurd rfl (hafter '.' rfl).2
    · rfl
  | some hne hdigits =>
    have htake := Text.takeWhile_run hdigits fun c hc => (hafter c hc).1
    have hdrop := Text.dropWhile_run hdigits fun c hc => (hafter c hc).1
    rw [List.cons_append, readFraction]
    split
    · next hnil => exact absurd (htake.symm.trans hnil) hne
    · show some (_, _) = _
      rw [htake, hdrop]

/-- A text without the sign in front of it. -/
def dropSign : List Char → List Char
  | '+' :: cs => cs
  | '-' :: cs => cs
  | cs => cs

theorem exists_digits_of_writesSigned {cs : List Char} {e : Int}
    (h : Numeral.WritesSigned cs e) (after : List Char) :
    ∃ ds, ds ≠ [] ∧ IsDigits ds ∧ dropSign (cs ++ after) = ds ++ after := by
  cases h with
  | plain hne hdigits =>
    refine ⟨cs, hne, hdigits, ?_⟩
    cases cs with
    | nil => exact absurd rfl hne
    | cons d ds =>
      have hd := hdigits d List.mem_cons_self
      rw [List.cons_append, dropSign]
      all_goals
        intro rest heq
        rw [(List.cons.inj heq).1] at hd
        exact absurd hd (by decide)
  | plus hne hdigits => exact ⟨_, hne, hdigits, rfl⟩
  | minus hne hdigits => exact ⟨_, hne, hdigits, rfl⟩

theorem parted_readExponent {power after : List Char} (h : IsPower power)
    (hafter : ∀ c ∈ after.head?, c.isDigit = false ∧ c ≠ 'e' ∧ c ≠ 'E') (atEnd : Fault) :
    ∃ e, parted (readExponent atEnd (power ++ after)) = some (e, after) := by
  cases h with
  | none =>
    rw [List.nil_append]
    cases after with
    | nil => exact ⟨_, rfl⟩
    | cons c after =>
      have hc := hafter c rfl
      unfold readExponent
      dsimp only
      rw [if_neg (not_or.2 hc.2)]
      exact ⟨_, rfl⟩
  | some hmark hsigned =>
    obtain ⟨ds, hne, hdigits, hds⟩ := exists_digits_of_writesSigned hsigned after
    have htake := (congrArg (List.takeWhile Char.isDigit) hds).trans
      (Text.takeWhile_run hdigits fun c hc => (hafter c hc).1)
    have hdrop := (congrArg (List.dropWhile Char.isDigit) hds).trans
      (Text.dropWhile_run hdigits fun c hc => (hafter c hc).1)
    rw [List.cons_append]
    unfold readExponent
    dsimp only
    rw [if_pos (by simpa using hmark)]
    split
    · next hnil => exact absurd (htake.symm.trans hnil) hne
    · exact ⟨_, congrArg (fun rest => some (_, rest)) hdrop⟩

theorem head_power {power after : List Char} (h : IsPower power) (hafter : Ends after) :
    ∀ c ∈ (power ++ after).head?, c.isDigit = false ∧ c ≠ '.' := by
  intro c hc
  cases h with
  | none => exact ⟨(hafter c hc).1, (hafter c hc).2.1⟩
  | @some mark cs e hmark _ =>
    obtain rfl : mark = c := Option.some.inj hc
    simp only [List.mem_cons, List.not_mem_nil, or_false] at hmark
    rcases hmark with rfl | rfl
    all_goals decide

theorem head_fraction {behind fraction rest : List Char}
    (h : Numeral.WritesFraction behind fraction) (hrest : ∀ c ∈ rest.head?, c.isDigit = false) :
    ∀ c ∈ (behind ++ rest).head?, c.isDigit = false := by
  intro c hc
  cases h with
  | none => exact hrest c hc
  | some _ _ =>
    obtain rfl : '.' = c := Option.some.inj hc
    rfl

/-- The number is taken and nothing behind it. -/
theorem exists_outcome_readNumber {whole behind fraction power after : List Char}
    (hwhole : IsWhole whole) (hfraction : Numeral.WritesFraction behind fraction)
    (hpower : IsPower power) (hafter : Ends after) (atEnd : Fault) :
    ∃ value, outcome (readNumber atEnd (whole ++ (behind ++ (power ++ after)))) =
      some (value, after) := by
  obtain ⟨c, more, rfl, hc, hmore, hzero⟩ := exists_cons_of_isWhole hwhole
  have hrest := head_fraction hfraction fun c hc => (head_power hpower hafter c hc).1
  have hpart := parted_readFraction hfraction (head_power hpower hafter) atEnd
  rw [← Text.dropWhile_run hmore hrest] at hpart
  obtain ⟨_, hreadFraction⟩ := parted_eq_some hpart
  obtain ⟨e, hpart⟩ := parted_readExponent hpower
    (fun c hc => ⟨(hafter c hc).1, (hafter c hc).2.2⟩) atEnd
  obtain ⟨_, hreadExponent⟩ := parted_eq_some hpart
  rw [List.cons_append]
  unfold readNumber
  dsimp only
  rw [if_neg (by rw [hc]; decide), Text.takeWhile_run hmore hrest, if_neg hzero, hreadFraction]
  simp only [bind, Except.bind]
  rw [hreadExponent]
  exact ⟨_, rfl⟩

/-! ### Scalars -/

/-- Behind a value the text ends, or a mark stands that closes it or goes on to the next one. -/
def Stops (tokens : List (List Char)) : Prop :=
  ∀ token ∈ tokens.head?, token ∈ [[','], [']'], ['\x7d']]

theorem ends_of_isSpace {c : Char} (h : isSpace c = true) (cs : List Char) : Ends (c :: cs) := by
  intro d hd
  obtain rfl : c = d := Option.some.inj hd
  simp only [isSpace, Bool.or_eq_true, beq_iff_eq] at h
  rcases h with ((rfl | rfl) | rfl) | rfl
  all_goals decide

theorem ends_of_lays {tokens : List (List Char)} {cs : List Char} (h : Lays tokens cs)
    (hstops : Stops tokens) : Ends cs := by
  cases h with
  | nil hblanks =>
    cases cs with
    | nil => exact fun c hc => absurd hc (Option.not_mem_none c)
    | cons c cs => exact ends_of_isSpace (hblanks c List.mem_cons_self) cs
  | @cons blanks token tokens rest hblanks hrest =>
    cases blanks with
    | nil =>
      have htoken := hstops token rfl
      simp only [List.mem_cons, List.not_mem_nil, or_false] at htoken
      rcases htoken with rfl | rfl | rfl
      all_goals
        intro c hc
        obtain rfl := Option.some.inj hc
        decide
    | cons c blanks => exact ends_of_isSpace (hblanks c List.mem_cons_self) _

theorem skipScalar_number {digits rest : List Char} (h : IsNumber digits) (hrest : Ends rest) :
    outcome (skipScalar (digits ++ rest)) = some ((), rest) := by
  obtain @⟨sign, whole, behind, fraction, power, hsign, hwhole, hfraction, hpower⟩ := h
  obtain ⟨value, hvalue⟩ :=
    exists_outcome_readNumber hwhole hfraction hpower hrest .notJson
  rw [List.append_assoc, List.append_assoc, List.append_assoc]
  cases hsign with
  | minus =>
    obtain ⟨shorter, hread⟩ := outcome_eq_some hvalue
    show outcome (skipScalar ('-' :: (whole ++ (behind ++ (power ++ rest))))) = _
    rw [skipScalar, hread]
    rfl
  | none =>
    obtain ⟨c, more, rfl, hc, -⟩ := exists_cons_of_isWhole hwhole
    have hne : ∀ d : Char, d.isDigit = false → c ≠ d := by
      rintro d hd rfl
      rw [hc] at hd
      exact absurd hd (by decide)
    rw [List.cons_append] at hvalue
    obtain ⟨shorter, hread⟩ := outcome_eq_some hvalue
    show outcome (skipScalar (c :: (more ++ (behind ++ (power ++ rest))))) = _
    rw [skipScalar, hread]
    · rfl
    all_goals exact hne _ (by decide)

theorem skipScalar_string (letters : List Letter) (rest : List Char) :
    outcome (skipScalar (quoted letters ++ rest)) = some ((), rest) := by
  obtain ⟨shorter, hskip⟩ := outcome_eq_some (outcome_skipString letters rest)
  rw [quoted_append, skipScalar, hskip]
  rfl

/-! ### Steps between tokens -/

variable {outer : List Bracket} {cs rest rest' : List Char}

theorem outcome_readColon (h : skipSpace cs = ':' :: rest) :
    outcome (readColon cs) = some ((), rest) := by
  unfold readColon
  split
  · next heq => exact absurd (h.symm.trans heq) (List.cons_ne_nil _ _)
  · next heq =>
    obtain ⟨-, rfl⟩ := List.cons.inj (h.symm.trans heq)
    rfl
  · next hother => exact (hother _ h).elim

theorem skipInside_scalar {c : Char} {more : List Char} (h : skipSpace cs = c :: more)
    (harray : c ≠ '[') (hobject : c ≠ '\x7b')
    (hscalar : outcome (skipScalar (c :: more)) = some ((), rest)) :
    (outcome (skipInside outer cs)).map Prod.snd = parted (skipClosing outer rest) := by
  rw [skipInside]
  split
  · next heq => exact absurd (h.symm.trans heq) (List.cons_ne_nil _ _)
  · next heq => exact absurd (List.cons.inj (h.symm.trans heq)).1 harray
  · next heq => exact absurd (List.cons.inj (h.symm.trans heq)).1 hobject
  · next heq =>
    obtain ⟨rfl, rfl⟩ := List.cons.inj (h.symm.trans heq)
    obtain ⟨shorter, hskip⟩ := outcome_eq_some hscalar
    rw [hskip]
    simp only [bind, Except.bind]
    cases skipClosing outer rest with
    | error fault => rfl
    | ok r => rfl

theorem skipInside_empty_array (h : skipSpace cs = '[' :: rest)
    (h' : skipSpace rest = ']' :: rest') :
    (outcome (skipInside outer cs)).map Prod.snd = parted (skipClosing outer rest') := by
  rw [skipInside]
  split
  · next heq => exact absurd (h.symm.trans heq) (List.cons_ne_nil _ _)
  · next heq =>
    obtain ⟨-, rfl⟩ := List.cons.inj (h.symm.trans heq)
    split
    · next heq' => exact absurd (h'.symm.trans heq') (List.cons_ne_nil _ _)
    · next heq' =>
      obtain ⟨-, rfl⟩ := List.cons.inj (h'.symm.trans heq')
      cases skipClosing outer rest' with
      | error fault => rfl
      | ok r => rfl
    · next hother => exact (hother _ h').elim
  · next heq => exact absurd (List.cons.inj (h.symm.trans heq)).1 (by decide)
  · next harray _ heq => exact (harray (List.cons.inj (heq.symm.trans h)).1).elim

theorem skipInside_array {c : Char} {more : List Char} (h : skipSpace cs = '[' :: rest)
    (h' : skipSpace rest = c :: more) (hc : c ≠ ']') :
    (outcome (skipInside outer cs)).map Prod.snd =
      (outcome (skipInside (.array :: outer) rest)).map Prod.snd := by
  rw [skipInside]
  split
  · next heq => exact absurd (h.symm.trans heq) (List.cons_ne_nil _ _)
  · next heq =>
    obtain ⟨-, rfl⟩ := List.cons.inj (h.symm.trans heq)
    split
    · next heq' => exact absurd (h'.symm.trans heq') (List.cons_ne_nil _ _)
    · next heq' => exact absurd (List.cons.inj (h'.symm.trans heq')).1 hc
    · cases skipInside (.array :: outer) rest with
      | error fault => rfl
      | ok t => rfl
  · next heq => exact absurd (List.cons.inj (h.symm.trans heq)).1 (by decide)
  · next harray _ heq => exact (harray (List.cons.inj (heq.symm.trans h)).1).elim

theorem skipInside_empty_object (h : skipSpace cs = '\x7b' :: rest)
    (h' : skipSpace rest = '\x7d' :: rest') :
    (outcome (skipInside outer cs)).map Prod.snd = parted (skipClosing outer rest') := by
  rw [skipInside]
  split
  · next heq => exact absurd (h.symm.trans heq) (List.cons_ne_nil _ _)
  · next heq => exact absurd (List.cons.inj (h.symm.trans heq)).1 (by decide)
  · next heq =>
    obtain ⟨-, rfl⟩ := List.cons.inj (h.symm.trans heq)
    split
    · next heq' => exact absurd (h'.symm.trans heq') (List.cons_ne_nil _ _)
    · next heq' =>
      obtain ⟨-, rfl⟩ := List.cons.inj (h'.symm.trans heq')
      cases skipClosing outer rest' with
      | error fault => rfl
      | ok r => rfl
    · next hother => exact (hother _ h').elim
  · next _ hobject heq => exact (hobject (List.cons.inj (heq.symm.trans h)).1).elim

theorem skipInside_object {c : Char} {more : List Char} (h : skipSpace cs = '\x7b' :: rest)
    (h' : skipSpace rest = c :: more) (hc : c ≠ '\x7d')
    (hkey : outcome (skipKey rest) = some ((), rest')) :
    (outcome (skipInside outer cs)).map Prod.snd =
      (outcome (skipInside (.object :: outer) rest')).map Prod.snd := by
  obtain ⟨shorter, hskip⟩ := outcome_eq_some hkey
  rw [skipInside]
  split
  · next heq => exact absurd (h.symm.trans heq) (List.cons_ne_nil _ _)
  · next heq => exact absurd (List.cons.inj (h.symm.trans heq)).1 (by decide)
  · next heq =>
    obtain ⟨-, rfl⟩ := List.cons.inj (h.symm.trans heq)
    split
    · next heq' => exact absurd (h'.symm.trans heq') (List.cons_ne_nil _ _)
    · next heq' => exact absurd (List.cons.inj (h'.symm.trans heq')).1 hc
    · rw [hskip]
      simp only [bind, Except.bind]
      cases skipInside (.object :: outer) rest' with
      | error fault => rfl
      | ok t => rfl
  · next _ hobject heq => exact (hobject (List.cons.inj (heq.symm.trans h)).1).elim

theorem skipClosing_item (h : skipSpace cs = ',' :: rest) :
    parted (skipClosing (.array :: outer) cs) =
      (outcome (skipInside (.array :: outer) rest)).map Prod.snd := by
  rw [skipClosing]
  split
  · next heq => exact absurd (h.symm.trans heq) (List.cons_ne_nil _ _)
  · next heq =>
    obtain ⟨-, rfl⟩ := List.cons.inj (h.symm.trans heq)
    cases skipInside (.array :: outer) rest with
    | error fault => rfl
    | ok t => rfl
  · next heq => exact absurd (List.cons.inj (h.symm.trans heq)).1 (by decide)
  · next hother _ => exact (hother _ h).elim

theorem skipClosing_array (h : skipSpace cs = ']' :: rest) :
    parted (skipClosing (.array :: outer) cs) = parted (skipClosing outer rest) := by
  rw [skipClosing]
  split
  · next heq => exact absurd (h.symm.trans heq) (List.cons_ne_nil _ _)
  · next heq => exact absurd (List.cons.inj (h.symm.trans heq)).1 (by decide)
  · next heq =>
    obtain ⟨-, rfl⟩ := List.cons.inj (h.symm.trans heq)
    cases skipClosing outer rest with
    | error fault => rfl
    | ok r => rfl
  · next _ hother => exact (hother _ h).elim

theorem skipClosing_member (h : skipSpace cs = ',' :: rest)
    (hkey : outcome (skipKey rest) = some ((), rest')) :
    parted (skipClosing (.object :: outer) cs) =
      (outcome (skipInside (.object :: outer) rest')).map Prod.snd := by
  obtain ⟨shorter, hskip⟩ := outcome_eq_some hkey
  rw [skipClosing]
  split
  · next heq => exact absurd (h.symm.trans heq) (List.cons_ne_nil _ _)
  · next heq =>
    obtain ⟨-, rfl⟩ := List.cons.inj (h.symm.trans heq)
    rw [hskip]
    simp only [bind, Except.bind]
    cases skipInside (.object :: outer) rest' with
    | error fault => rfl
    | ok t => rfl
  · next heq => exact absurd (List.cons.inj (h.symm.trans heq)).1 (by decide)
  · next hother _ => exact (hother _ h).elim

theorem skipClosing_object (h : skipSpace cs = '\x7d' :: rest) :
    parted (skipClosing (.object :: outer) cs) = parted (skipClosing outer rest) := by
  rw [skipClosing]
  split
  · next heq => exact absurd (h.symm.trans heq) (List.cons_ne_nil _ _)
  · next heq => exact absurd (List.cons.inj (h.symm.trans heq)).1 (by decide)
  · next heq =>
    obtain ⟨-, rfl⟩ := List.cons.inj (h.symm.trans heq)
    cases skipClosing outer rest with
    | error fault => rfl
    | ok r => rfl
  · next _ hother => exact (hother _ h).elim

/-! ### Values -/

variable {tokens : List (List Char)}

theorem skipKey_of_lays {key : List Letter} (h : Lays (quoted key :: [':'] :: tokens) cs) :
    Agrees (skipKey cs) (some ()) tokens := by
  obtain ⟨rest, hspace, hrest⟩ := skipSpace_of_lays_quoted h
  obtain ⟨rest', hspace', hrest'⟩ := skipSpace_of_lays_mark hrest (by decide)
  obtain ⟨_, hskip⟩ := outcome_eq_some (outcome_skipString key rest)
  obtain ⟨_, hcolon⟩ := outcome_eq_some (outcome_readColon hspace')
  refine ⟨rest', ?_, hrest'⟩
  unfold skipKey
  split
  · next heq => exact absurd (hspace.symm.trans heq) (List.cons_ne_nil _ _)
  · next heq =>
    obtain ⟨-, rfl⟩ := List.cons.inj (hspace.symm.trans heq)
    rw [hskip]
    simp only [bind, Except.bind]
    rw [hcolon]
    rfl
  · next hother => exact (hother _ hspace).elim

theorem stops_itemTokens (items : List Value) (tokens : List (List Char)) :
    Stops (Value.itemTokens items ++ tokens) := by
  intro token htoken
  cases items with
  | nil =>
    obtain rfl := Option.some.inj htoken
    decide
  | cons item items =>
    obtain rfl := Option.some.inj htoken
    decide

theorem stops_memberTokens (members : List (List Letter × Value)) (tokens : List (List Char)) :
    Stops (Value.memberTokens members ++ tokens) := by
  intro token htoken
  cases members with
  | nil =>
    obtain rfl := Option.some.inj htoken
    decide
  | cons member members =>
    obtain rfl := Option.some.inj htoken
    decide

/-- What is left when a scalar is passed over. -/
theorem skipInside_of_lays {c : Char} {token : List Char} (h : Lays ((c :: token) :: tokens) cs)
    (hstops : Stops tokens) (hc : isSpace c = false ∧ c ≠ '[' ∧ c ≠ '\x7b')
    (hscalar : ∀ rest, Ends rest →
      outcome (skipScalar (c :: token ++ rest)) = some ((), rest)) :
    ∃ rest, Lays tokens rest ∧
      (outcome (skipInside outer cs)).map Prod.snd = parted (skipClosing outer rest) := by
  obtain ⟨rest, hspace, hrest⟩ := skipSpace_of_lays h hc.1
  exact ⟨rest, hrest,
    skipInside_scalar hspace hc.2.1 hc.2.2 (hscalar rest (ends_of_lays hrest hstops))⟩

/- A value is passed over, and what closes the brackets around it is next. The induction is on the
value; the items of an array and the members of an object are passed over while its bracket is the
innermost one. -/
mutual

theorem skipInside_value (v : Value) (outer : List Bracket) {tokens : List (List Char)}
    {cs : List Char} (h : Lays (v.tokens ++ tokens) cs) (hstops : Stops tokens) :
    ∃ rest, Lays tokens rest ∧
      (outcome (skipInside outer cs)).map Prod.snd = parted (skipClosing outer rest) := by
  match v with
  | .null => exact skipInside_of_lays h hstops (by decide) fun rest _ => rfl
  | .bool true => exact skipInside_of_lays h hstops (by decide) fun rest _ => rfl
  | .bool false => exact skipInside_of_lays h hstops (by decide) fun rest _ => rfl
  | .number digits hdigits =>
    obtain ⟨c, more, rfl, hc⟩ := exists_head_of_isNumber hdigits
    exact skipInside_of_lays h hstops
      ⟨not_isSpace_of_number hc, ne_of_number hc (by decide), ne_of_number hc (by decide)⟩
      fun rest hrest => skipScalar_number hdigits hrest
  | .string letters =>
    exact skipInside_of_lays h hstops (by decide) fun rest _ => skipScalar_string letters rest
  | .array [] =>
    obtain ⟨rest, hspace, hrest⟩ := skipSpace_of_lays_mark h (by decide)
    obtain ⟨rest', hspace', hrest'⟩ := skipSpace_of_lays_mark hrest (by decide)
    exact ⟨rest', hrest', skipInside_empty_array hspace hspace'⟩
  | .array (item :: items) =>
    obtain ⟨rest, hspace, hrest⟩ := skipSpace_of_lays_mark h (by decide)
    have hitem : Lays (item.tokens ++ (Value.itemTokens items ++ tokens)) rest := by
      rw [← List.append_assoc]
      exact hrest
    obtain ⟨c, more, hspace', hc⟩ := exists_opening hitem
    obtain ⟨rest', hrest', hfirst⟩ :=
      skipInside_value item (.array :: outer) hitem (stops_itemTokens items tokens)
    obtain ⟨rest'', hrest'', hitems⟩ := skipClosing_items items outer hrest'
    exact ⟨rest'', hrest'',
      ((skipInside_array hspace hspace' hc.not_closing).trans hfirst).trans hitems⟩
  | .object [] =>
    obtain ⟨rest, hspace, hrest⟩ := skipSpace_of_lays_mark h (by decide)
    obtain ⟨rest', hspace', hrest'⟩ := skipSpace_of_lays_mark hrest (by decide)
    exact ⟨rest', hrest', skipInside_empty_object hspace hspace'⟩
  | .object ((key, value) :: members) =>
    obtain ⟨rest, hspace, hrest⟩ := skipSpace_of_lays_mark h (by decide)
    obtain ⟨more, hspace', -⟩ := skipSpace_of_lays_quoted hrest
    obtain ⟨behind, hkey, hbehind⟩ := skipKey_of_lays hrest
    have hvalue : Lays (value.tokens ++ (Value.memberTokens members ++ tokens)) behind := by
      rw [← List.append_assoc]
      exact hbehind
    obtain ⟨rest', hrest', hfirst⟩ :=
      skipInside_value value (.object :: outer) hvalue (stops_memberTokens members tokens)
    obtain ⟨rest'', hrest'', hmembers⟩ := skipClosing_members members outer hrest'
    exact ⟨rest'', hrest'',
      ((skipInside_object hspace hspace' (by decide) hkey).trans hfirst).trans hmembers⟩

theorem skipClosing_items (items : List Value) (outer : List Bracket)
    {tokens : List (List Char)} {cs : List Char} (h : Lays (Value.itemTokens items ++ tokens) cs) :
    ∃ rest, Lays tokens rest ∧
      parted (skipClosing (.array :: outer) cs) = parted (skipClosing outer rest) := by
  match items with
  | [] =>
    obtain ⟨rest, hspace, hrest⟩ := skipSpace_of_lays_mark h (by decide)
    exact ⟨rest, hrest, skipClosing_array hspace⟩
  | item :: items =>
    obtain ⟨rest, hspace, hrest⟩ := skipSpace_of_lays_mark h (by decide)
    have hitem : Lays (item.tokens ++ (Value.itemTokens items ++ tokens)) rest := by
      rw [← List.append_assoc]
      exact hrest
    obtain ⟨rest', hrest', hfirst⟩ :=
      skipInside_value item (.array :: outer) hitem (stops_itemTokens items tokens)
    obtain ⟨rest'', hrest'', hitems⟩ := skipClosing_items items outer hrest'
    exact ⟨rest'', hrest'', ((skipClosing_item hspace).trans hfirst).trans hitems⟩

theorem skipClosing_members (members : List (List Letter × Value)) (outer : List Bracket)
    {tokens : List (List Char)} {cs : List Char}
    (h : Lays (Value.memberTokens members ++ tokens) cs) :
    ∃ rest, Lays tokens rest ∧
      parted (skipClosing (.object :: outer) cs) = parted (skipClosing outer rest) := by
  match members with
  | [] =>
    obtain ⟨rest, hspace, hrest⟩ := skipSpace_of_lays_mark h (by decide)
    exact ⟨rest, hrest, skipClosing_object hspace⟩
  | (key, value) :: members =>
    obtain ⟨rest, hspace, hrest⟩ := skipSpace_of_lays_mark h (by decide)
    obtain ⟨behind, hkey, hbehind⟩ := skipKey_of_lays hrest
    have hvalue : Lays (value.tokens ++ (Value.memberTokens members ++ tokens)) behind := by
      rw [← List.append_assoc]
      exact hbehind
    obtain ⟨rest', hrest', hfirst⟩ :=
      skipInside_value value (.object :: outer) hvalue (stops_memberTokens members tokens)
    obtain ⟨rest'', hrest'', hmembers⟩ := skipClosing_members members outer hrest'
    exact ⟨rest'', hrest'', ((skipClosing_member hspace hkey).trans hfirst).trans hmembers⟩

end

/-- A value is passed over to its end, and nothing behind it is. -/
theorem skipValue_of_lays {v : Value} (h : Lays (v.tokens ++ tokens) cs) (hstops : Stops tokens) :
    Agrees (skipValue cs) (some ()) tokens := by
  obtain ⟨rest, hrest, hskip⟩ := skipInside_value v [] h hstops
  rw [skipClosing] at hskip
  obtain ⟨⟨value, rest'⟩, hsome, rfl⟩ := Option.map_eq_some_iff.1 hskip
  exact ⟨rest', hsome, hrest⟩

end PluralForms.Json
