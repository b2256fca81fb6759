import PluralForms.Proofs.Digits
import PluralForms.Relation.Reader

/-!
# The grammar of clauses

What a clause is, as a relation between texts and relations, apart from how one is read:

    clause  = letter blanks [("%" | "mod") blanks number blanks] ("=" | "!=") blanks item more
    more    = nothing | blanks "," blanks item more
    item    = number | number ".." number

The reader is a function, and a relation may be written in many ways: with any blanks, with zeros
in front of numbers, with either sign of the modulus. The main statement is the one between the
two,

    readForm_eq_ok_iff : readForm cs = .ok r ↔ Writes cs r

proved for each part in turn: what a reader takes off the text is a writing of what it returns, and
a writing is read back when nothing stands behind it that could belong to it. What else reading may
come to is told by `ComesTo`, a relation between a text and any outcome.
-/

namespace PluralForms

/-! ### The grammar -/

/-- Spaces and tabs, perhaps none. -/
def IsBlanks (g : List Char) : Prop := ∀ c ∈ g, Text.isInnerBlank c = true

/-- `ds` writes the number `n`, which has to fit a word; zeros may stand in front. -/
structure WritesNumber (ds : List Char) (n : Nat) : Prop where
  ne_nil : ds ≠ []
  digits : IsDigits ds
  value : digitsValue ds = n
  fits : n ≤ maxWord

/-- A number, or two with two points between them. -/
inductive WritesItem : List Char → Item → Prop
  | value {ds n} : WritesNumber ds n → WritesItem ds (.value n)
  | range {ds es first last} : WritesNumber ds first → WritesNumber es last →
      WritesItem (ds ++ '.' :: '.' :: es) (.range first last)

/-- Further items, each behind a comma. -/
inductive WritesMore : List Char → List Item → Prop
  | nil : WritesMore [] []
  | cons {g g' ds cs item items} : IsBlanks g → IsBlanks g' → WritesItem ds item →
      WritesMore cs items → WritesMore (g ++ ',' :: (g' ++ (ds ++ cs))) (item :: items)

/-- One item or more. -/
inductive WritesItems : List Char → List Item → Prop
  | mk {ds cs item items} : WritesItem ds item → WritesMore cs items →
      WritesItems (ds ++ cs) (item :: items)

/-- The two signs of a modulus. -/
inductive IsModulusSign : List Char → Prop
  | percent : IsModulusSign ['%']
  | word : IsModulusSign ['m', 'o', 'd']

/-- A modulus and the blanks behind it, or nothing. -/
inductive WritesModulus : List Char → Option Nat → Prop
  | none : WritesModulus [] none
  | some {sign g ds g' m} : IsModulusSign sign → IsBlanks g → WritesNumber ds m → IsBlanks g' →
      WritesModulus (sign ++ (g ++ (ds ++ g'))) (some m)

inductive WritesComparison : List Char → Comparison → Prop
  | equals : WritesComparison ['='] .equals
  | notEquals : WritesComparison ['!', '='] .notEquals

/-- `cs` writes the relation `r`. -/
inductive Writes : List Char → Relation → Prop
  | mk {symbol g ms signs g' list modulus comparison items} : symbol.isLower = true →
      IsBlanks g → WritesModulus ms modulus → WritesComparison signs comparison →
      IsBlanks g' → WritesItems list items →
      Writes (symbol :: (g ++ (ms ++ (signs ++ (g' ++ list)))))
        ⟨symbol, modulus, comparison, items⟩

/-! ### Faults -/

/-- The fault names the part of a clause that does not fit. -/
def Fault.NamesPart : Fault → Prop
  | .unexpected _ | .endOfClause => False
  | _ => True

namespace Relation

/-! ### Blanks -/

theorem isBlanks_nil : IsBlanks [] := fun _ hc => absurd hc List.not_mem_nil

theorem isBlanks_space : IsBlanks [' '] := by
  intro c hc
  obtain rfl : c = ' ' := by simpa using hc
  rfl

/-- No digit is a blank. -/
theorem isInnerBlank_of_isDigit {c : Char} (hc : c.isDigit = true) :
    Text.isInnerBlank c = false := by
  cases hb : Text.isInnerBlank c with
  | false => rfl
  | true =>
    simp only [Text.isInnerBlank, Bool.or_eq_true, beq_iff_eq] at hb
    rcases hb with rfl | rfl <;> exact absurd hc (by decide)

theorem not_isDigit_of_isInnerBlank {c : Char} (hc : Text.isInnerBlank c = true) :
    c.isDigit = false := by
  cases hd : c.isDigit with
  | false => rfl
  | true => rw [isInnerBlank_of_isDigit hd] at hc; exact absurd hc (by decide)

theorem skipBlanks_run {g rest : List Char} (hg : IsBlanks g)
    (hrest : ∀ c ∈ rest.head?, Text.isInnerBlank c = false) : skipBlanks (g ++ rest) = rest :=
  Text.dropWhile_run hg hrest

theorem exists_skipBlanks (cs : List Char) : ∃ g, IsBlanks g ∧ cs = g ++ skipBlanks cs :=
  ⟨cs.takeWhile Text.isInnerBlank, Text.run_takeWhile cs, List.takeWhile_append_dropWhile.symm⟩

/-! ### Numbers -/

theorem readNumber_eq_some_iff {cs rest : List Char} {n : Nat} :
    readNumber cs = some (n, rest) ↔
      ∃ ds, cs = ds ++ rest ∧ WritesNumber ds n ∧ ∀ c ∈ rest.head?, c.isDigit = false := by
  unfold readNumber
  constructor
  · intro h
    obtain ⟨⟨ds, rest'⟩, hdigits, h⟩ := Option.bind_eq_some_iff.1 h
    obtain ⟨hne, hds, hcs, hstop⟩ := Numeral.digits1_eq_some_iff.1 hdigits
    dsimp only at h
    split at h
    · next hfits =>
      simp only [Option.some.injEq, Prod.mk.injEq] at h
      obtain ⟨rfl, rfl⟩ := h
      exact ⟨ds, hcs, ⟨hne, hds, rfl, hfits⟩, hstop⟩
    · simp at h
  · rintro ⟨ds, hcs, ⟨hne, hds, rfl, hfits⟩, hstop⟩
    rw [Numeral.digits1_eq_some_iff.2 ⟨hne, hds, hcs, hstop⟩]
    simp [hfits]

/-- The first character of a number is a digit, so it is neither a blank nor a sign. -/
theorem exists_digit_of_writesNumber {ds : List Char} {n : Nat} (h : WritesNumber ds n) :
    ∃ c ds', ds = c :: ds' ∧ c.isDigit = true := by
  cases ds with
  | nil => exact absurd rfl h.ne_nil
  | cons c ds' => exact ⟨c, ds', rfl, h.digits c List.mem_cons_self⟩

theorem head_writesNumber {ds rest : List Char} {n : Nat} (h : WritesNumber ds n) :
    ∀ c ∈ (ds ++ rest).head?, Text.isInnerBlank c = false := by
  obtain ⟨c, ds', rfl, hc⟩ := exists_digit_of_writesNumber h
  intro d hd
  obtain rfl : c = d := by simpa using hd
  exact isInnerBlank_of_isDigit hc

/-! ### Items -/

/-- Nothing that could belong to an item stands in front of `rest`. -/
def EndsItem (rest : List Char) : Prop := ∀ c ∈ rest.head?, c.isDigit = false ∧ c ≠ '.'

theorem readRangeEnd_sound {cs rest : List Char} {n : Nat}
    (h : readRangeEnd cs = some (n, rest)) :
    ∃ es, cs = '.' :: '.' :: (es ++ rest) ∧ WritesNumber es n := by
  unfold readRangeEnd at h
  split at h
  · obtain ⟨es, rfl, hes, -⟩ := readNumber_eq_some_iff.1 h
    exact ⟨es, rfl, hes⟩
  · simp at h

theorem readRangeEnd_of_ends {rest : List Char} (hrest : EndsItem rest) :
    readRangeEnd rest = none := by
  unfold readRangeEnd
  split
  · exact absurd rfl (hrest '.' rfl).2
  · rfl

theorem readItem_sound {cs rest : List Char} {item : Item} (h : readItem cs = some (item, rest)) :
    ∃ ds, cs = ds ++ rest ∧ WritesItem ds item := by
  unfold readItem at h
  obtain ⟨⟨first, rest'⟩, hnumber, hitem⟩ := Option.map_eq_some_iff.1 h
  obtain ⟨ds, rfl, hds, -⟩ := readNumber_eq_some_iff.1 hnumber
  dsimp only at hitem
  split at hitem
  · next last rest'' hend =>
    obtain ⟨es, rfl, hes⟩ := readRangeEnd_sound hend
    cases hitem
    exact ⟨ds ++ '.' :: '.' :: es, by simp, .range hds hes⟩
  · cases hitem
    exact ⟨ds, rfl, .value hds⟩

theorem readItem_complete {ds rest : List Char} {item : Item} (h : WritesItem ds item)
    (hrest : EndsItem rest) : readItem (ds ++ rest) = some (item, rest) := by
  have hdigit : ∀ c ∈ rest.head?, c.isDigit = false := fun c hc => (hrest c hc).1
  unfold readItem
  cases h with
  | value hds =>
    rw [readNumber_eq_some_iff.2 ⟨ds, rfl, hds, hdigit⟩]
    simp [readRangeEnd_of_ends hrest]
  | @range ds es first last hds hes =>
    have hpoint : ∀ c ∈ ('.' :: '.' :: (es ++ rest)).head?, c.isDigit = false := by
      intro c hc
      obtain rfl : '.' = c := by simpa using hc
      rfl
    have hend : readRangeEnd ('.' :: '.' :: (es ++ rest)) = some (last, rest) :=
      readNumber_eq_some_iff.2 ⟨es, rfl, hes, hdigit⟩
    rw [List.append_assoc, List.cons_append, List.cons_append,
      readNumber_eq_some_iff.2 ⟨ds, rfl, hds, hpoint⟩]
    simp [hend]

theorem head_writesItem {ds rest : List Char} {item : Item} (h : WritesItem ds item) :
    ∀ c ∈ (ds ++ rest).head?, Text.isInnerBlank c = false := by
  cases h with
  | value hds => exact head_writesNumber hds
  | range hds _ =>
    rw [List.append_assoc]
    exact head_writesNumber hds

/-! ### Further items -/

theorem readNextItem_sound {cs rest : List Char} {item : Item}
    (h : readNextItem cs = some (item, rest)) :
    ∃ g g' ds, IsBlanks g ∧ IsBlanks g' ∧ WritesItem ds item ∧
      cs = g ++ ',' :: (g' ++ (ds ++ rest)) := by
  obtain ⟨g, hg, hcs⟩ := exists_skipBlanks cs
  unfold readNextItem at h
  split at h
  · next cs' hskip =>
    obtain ⟨g', hg', hcs'⟩ := exists_skipBlanks cs'
    obtain ⟨ds, hds, hitem⟩ := readItem_sound h
    refine ⟨g, g', ds, hg, hg', hitem, ?_⟩
    rw [← hds, ← hcs', ← hskip]
    exact hcs
  · simp at h

theorem readNextItem_complete {g g' ds rest : List Char} {item : Item} (hg : IsBlanks g)
    (hg' : IsBlanks g') (hitem : WritesItem ds item) (hrest : EndsItem rest) :
    readNextItem (g ++ ',' :: (g' ++ (ds ++ rest))) = some (item, rest) := by
  have hcomma : ∀ c ∈ (',' :: (g' ++ (ds ++ rest))).head?, Text.isInnerBlank c = false := by
    intro c hc
    obtain rfl : ',' = c := by simpa using hc
    rfl
  unfold readNextItem
  rw [skipBlanks_run hg hcomma]
  show readItem (skipBlanks (g' ++ (ds ++ rest))) = some (item, rest)
  rw [skipBlanks_run hg' (head_writesItem hitem)]
  exact readItem_complete hitem hrest

/-- Further items begin with a blank or a comma, neither of which belongs to an item. -/
theorem endsItem_of_writesMore {cs : List Char} {items : List Item} (h : WritesMore cs items) :
    EndsItem cs := by
  intro c hc
  cases h with
  | nil => simp at hc
  | @cons g g' ds cs item items hg hg' hitem hmore =>
    cases g with
    | nil =>
      obtain rfl : ',' = c := by simpa using hc
      exact ⟨rfl, by decide⟩
    | cons b g =>
      obtain rfl : b = c := by simpa using hc
      have hb : Text.isInnerBlank b = true := hg b List.mem_cons_self
      refine ⟨not_isDigit_of_isInnerBlank hb, fun hpoint => ?_⟩
      rw [hpoint] at hb
      exact absurd hb (by decide)

theorem readItems_of_none {cs : List Char} (h : readNextItem cs = none) :
    readItems cs = ([], cs) := by
  rw [readItems]
  split
  · rfl
  · next h' => rw [h] at h'; simp at h'

theorem readItems_of_some {cs rest : List Char} {item : Item}
    (h : readNextItem cs = some (item, rest)) :
    readItems cs = (item :: (readItems rest).1, (readItems rest).2) := by
  rw [readItems]
  split
  · next h' => rw [h] at h'; simp at h'
  · next item' rest' h' =>
    rw [h] at h'
    cases h'
    rfl

theorem readItems_sound (cs : List Char) :
    ∃ front, cs = front ++ (readItems cs).2 ∧ WritesMore front (readItems cs).1 := by
  induction hn : cs.length using Nat.strongRecOn generalizing cs with
  | ind n ih =>
    cases h : readNextItem cs with
    | none =>
      rw [readItems_of_none h]
      exact ⟨[], rfl, .nil⟩
    | some next =>
      obtain ⟨item, rest⟩ := next
      have hlt : rest.length < n := hn ▸ length_lt_of_readNextItem h
      obtain ⟨g, g', ds, hg, hg', hitem, hcs⟩ := readNextItem_sound h
      obtain ⟨front, hrest, hmore⟩ := ih rest.length hlt rest rfl
      rw [readItems_of_some h]
      refine ⟨g ++ ',' :: (g' ++ (ds ++ front)), ?_, .cons hg hg' hitem hmore⟩
      rw [hcs]
      simp [← hrest]

theorem readItems_complete {cs : List Char} {items : List Item} (h : WritesMore cs items) :
    readItems cs = (items, []) := by
  induction h with
  | nil => exact readItems_of_none rfl
  | cons hg hg' hitem hmore ih =>
    rw [readItems_of_some (readNextItem_complete hg hg' hitem (endsItem_of_writesMore hmore)), ih]

/-! ### Lists -/

theorem readList_sound {cs rest : List Char} {items : List Item}
    (h : readList cs = .ok (items, rest)) :
    ∃ front, cs = front ++ rest ∧ WritesItems front items := by
  unfold readList at h
  split at h
  · next item rest' hitem =>
    obtain ⟨ds, rfl, hds⟩ := readItem_sound hitem
    obtain ⟨front, hrest, hmore⟩ := readItems_sound rest'
    simp only [Except.ok.injEq, Prod.mk.injEq] at h
    obtain ⟨rfl, rfl⟩ := h
    refine ⟨ds ++ front, ?_, .mk hds hmore⟩
    rw [List.append_assoc, ← hrest]
  · simp at h

theorem readList_error {cs rest : List Char} {fault : Fault}
    (h : readList cs = .error (fault, rest)) : rest = cs ∧ fault.NamesPart := by
  unfold readList at h
  split at h
  · simp at h
  · simp only [Except.error.injEq, Prod.mk.injEq] at h
    obtain ⟨rfl, rfl⟩ := h
    refine ⟨rfl, ?_⟩
    split <;> trivial

theorem readList_complete {cs : List Char} {items : List Item} (h : WritesItems cs items) :
    readList cs = .ok (items, []) := by
  cases h with
  | mk hitem hmore =>
    unfold readList
    rw [readItem_complete hitem (endsItem_of_writesMore hmore)]
    simp [readItems_complete hmore]

theorem head_writesItems {cs : List Char} {items : List Item} (h : WritesItems cs items) :
    ∀ c ∈ cs.head?, Text.isInnerBlank c = false := by
  cases h with
  | mk hitem _ => exact head_writesItem hitem

/-! ### The modulus -/

theorem readModulusSign_eq_some_iff {cs rest : List Char} :
    readModulusSign cs = some rest ↔ ∃ sign, IsModulusSign sign ∧ cs = sign ++ rest := by
  constructor
  · intro h
    unfold readModulusSign at h
    split at h
    · cases h
      exact ⟨['%'], .percent, rfl⟩
    · cases h
      exact ⟨['m', 'o', 'd'], .word, rfl⟩
    · simp at h
  · rintro ⟨sign, hsign, rfl⟩
    cases hsign <;> rfl

/-- An operator begins with neither a digit nor a blank nor the sign of a modulus. -/
theorem head_writesComparison {signs rest : List Char} {comparison : Comparison}
    (h : WritesComparison signs comparison) :
    ∀ c ∈ (signs ++ rest).head?, c = '=' ∨ c = '!' := by
  intro c hc
  cases h with
  | equals => exact Or.inl (by simpa using hc.symm)
  | notEquals => exact Or.inr (by simpa using hc.symm)

theorem readModulus_sound (cs : List Char) :
    ∃ front, cs = front ++ (readModulus cs).2 ∧ WritesModulus front (readModulus cs).1 := by
  unfold readModulus
  split
  · next m rest h =>
    obtain ⟨behind, hread, hnumber⟩ := Option.bind_eq_some_iff.1 h
    obtain ⟨sign, hsign, rfl⟩ := readModulusSign_eq_some_iff.1 hread
    obtain ⟨g, hg, hbehind⟩ := exists_skipBlanks behind
    obtain ⟨ds, hskip, hds, -⟩ := readNumber_eq_some_iff.1 hnumber
    obtain ⟨g', hg', hrest⟩ := exists_skipBlanks rest
    refine ⟨sign ++ (g ++ (ds ++ g')), ?_, .some hsign hg hds hg'⟩
    rw [hbehind, hskip]
    simp [← hrest]
  · exact ⟨[], rfl, .none⟩

theorem readModulus_complete {ms signs rest : List Char} {modulus : Option Nat}
    {comparison : Comparison} (hms : WritesModulus ms modulus)
    (hsigns : WritesComparison signs comparison) :
    readModulus (ms ++ (signs ++ rest)) = (modulus, signs ++ rest) := by
  have hhead : ∀ c ∈ (signs ++ rest).head?, c = '=' ∨ c = '!' := head_writesComparison hsigns
  unfold readModulus
  cases hms with
  | none =>
    have hnone : readModulusSign (signs ++ rest) = none := by
      cases hsigns <;> rfl
    rw [List.nil_append, hnone]
    rfl
  | @some sign g ds g' m hsign hg hds hg' =>
    have hblank : ∀ c ∈ (signs ++ rest).head?, Text.isInnerBlank c = false := by
      intro c hc
      rcases hhead c hc with rfl | rfl <;> rfl
    have hdigit : ∀ c ∈ (g' ++ (signs ++ rest)).head?, c.isDigit = false := by
      intro c hc
      cases g' with
      | nil => rcases hhead c hc with rfl | rfl <;> rfl
      | cons b g' =>
        obtain rfl : b = c := by simpa using hc
        exact not_isDigit_of_isInnerBlank (hg' b List.mem_cons_self)
    have hnumber : readNumber (skipBlanks (g ++ (ds ++ (g' ++ (signs ++ rest))))) =
        some (m, g' ++ (signs ++ rest)) := by
      rw [skipBlanks_run hg (head_writesNumber hds)]
      exact readNumber_eq_some_iff.2 ⟨ds, rfl, hds, hdigit⟩
    have hread : readModulusSign (sign ++ (g ++ (ds ++ (g' ++ (signs ++ rest))))) =
        some (g ++ (ds ++ (g' ++ (signs ++ rest)))) :=
      readModulusSign_eq_some_iff.2 ⟨sign, hsign, rfl⟩
    simp only [List.append_assoc, hread, Option.bind_some, hnumber, skipBlanks_run hg' hblank]

/-! ### The operator -/

theorem readComparison_eq_some_iff {cs rest : List Char} {comparison : Comparison} :
    readComparison cs = some (comparison, rest) ↔
      ∃ signs, WritesComparison signs comparison ∧ cs = signs ++ rest := by
  constructor
  · intro h
    unfold readComparison at h
    split at h
    · cases h
      exact ⟨['!', '='], .notEquals, rfl⟩
    · cases h
      exact ⟨['='], .equals, rfl⟩
    · simp at h
  · rintro ⟨signs, hsigns, rfl⟩
    cases hsigns <;> rfl

/-! ### The whole clause -/

/-- What reading `cs` comes to: a relation that `cs` writes; an unexpected character, behind a
text that writes a relation; or a fault that names a part, behind any text. -/
inductive ComesTo (cs : List Char) : Except (Fault × List Char) Relation → Prop
  | read {r} : Writes cs r → ComesTo cs (.ok r)
  | unexpected {front c rest r} : cs = front ++ c :: rest → Writes front r →
      ComesTo cs (.error (.unexpected c, c :: rest))
  | fault {rest fault} (front : List Char) : cs = front ++ rest →
      fault.NamesPart → ComesTo cs (.error (fault, rest))

theorem comesTo_readTail {symbol : Char} {g : List Char} (hsymbol : symbol.isLower = true)
    (hg : IsBlanks g) (cs : List Char) :
    ComesTo (symbol :: (g ++ cs)) (readTail symbol cs) := by
  obtain ⟨ms, hcs, hms⟩ := readModulus_sound cs
  unfold readTail
  rcases hmodulus : readModulus cs with ⟨modulus, behind⟩
  rw [hmodulus] at hcs hms
  dsimp only at hcs hms ⊢
  subst hcs
  cases hcomparison : readComparison behind with
  | none => exact .fault (symbol :: (g ++ ms)) (by simp) trivial
  | some found =>
    obtain ⟨comparison, behind'⟩ := found
    obtain ⟨signs, hsigns, rfl⟩ := readComparison_eq_some_iff.1 hcomparison
    obtain ⟨g', hg', hbehind⟩ := exists_skipBlanks behind'
    dsimp only
    cases hlist : readList (skipBlanks behind') with
    | error e =>
      obtain ⟨fault, rest⟩ := e
      obtain ⟨rfl, hfault⟩ := readList_error hlist
      refine .fault (symbol :: (g ++ (ms ++ (signs ++ g')))) ?_ hfault
      simp only [List.cons_append, List.append_assoc, ← hbehind]
    | ok read =>
      obtain ⟨items, rest⟩ := read
      obtain ⟨list, hskip, hitems⟩ := readList_sound hlist
      have hfront := Writes.mk hsymbol hg hms hsigns hg' hitems
      dsimp only
      rw [hbehind, hskip]
      -- an empty rest is no fault, so an unexpected end is none
      cases rest with
      | nil =>
        rw [if_pos rfl, List.append_nil]
        exact .read hfront
      | cons c rest =>
        rw [if_neg (List.cons_ne_nil c rest)]
        exact .unexpected (by simp) hfront

theorem comesTo_readForm (cs : List Char) : ComesTo cs (readForm cs) := by
  cases cs with
  | nil => exact .fault [] rfl trivial
  | cons symbol cs =>
    unfold readForm
    dsimp only
    split
    · next hsymbol =>
      obtain ⟨g, hg, hcs⟩ := exists_skipBlanks cs
      have hread := comesTo_readTail hsymbol hg (skipBlanks cs)
      rwa [← hcs] at hread
    · exact .fault [] rfl trivial

theorem readForm_sound {cs : List Char} {r : Relation} (h : readForm cs = .ok r) :
    Writes cs r := by
  have hread := comesTo_readForm cs
  rw [h] at hread
  cases hread with
  | read hwrites => exact hwrites

theorem readTail_complete {symbol : Char} {ms signs g list : List Char} {modulus : Option Nat}
    {comparison : Comparison} {items : List Item} (hms : WritesModulus ms modulus)
    (hsigns : WritesComparison signs comparison) (hg : IsBlanks g)
    (hlist : WritesItems list items) :
    readTail symbol (ms ++ (signs ++ (g ++ list))) = .ok ⟨symbol, modulus, comparison, items⟩ := by
  unfold readTail
  rw [readModulus_complete hms hsigns]
  dsimp only
  rw [readComparison_eq_some_iff.2 ⟨signs, hsigns, rfl⟩]
  dsimp only
  rw [skipBlanks_run hg (head_writesItems hlist), readList_complete hlist]
  exact if_pos rfl

/-- No operator begins with a blank, and neither does the sign of a modulus. -/
theorem head_writesModulus {ms signs rest : List Char} {modulus : Option Nat}
    {comparison : Comparison} (hms : WritesModulus ms modulus)
    (hsigns : WritesComparison signs comparison) :
    ∀ c ∈ (ms ++ (signs ++ rest)).head?, Text.isInnerBlank c = false := by
  intro c hc
  cases hms with
  | none => rcases head_writesComparison hsigns c hc with rfl | rfl <;> rfl
  | some hsign _ _ _ =>
    cases hsign with
    | percent =>
      obtain rfl : '%' = c := by simpa using hc
      rfl
    | word =>
      obtain rfl : 'm' = c := by simpa using hc
      rfl

theorem readForm_complete {cs : List Char} {r : Relation} (h : Writes cs r) :
    readForm cs = .ok r := by
  cases h with
  | mk hsymbol hg hms hsigns hg' hlist =>
    unfold readForm
    dsimp only
    rw [if_pos hsymbol, skipBlanks_run hg (head_writesModulus hms hsigns)]
    exact readTail_complete hms hsigns hg' hlist

theorem readForm_eq_ok_iff {cs : List Char} {r : Relation} : readForm cs = .ok r ↔ Writes cs r :=
  ⟨readForm_sound, readForm_complete⟩

/-- A text writes one relation at most. -/
theorem writes_unique {cs : List Char} {r r' : Relation} (h : Writes cs r) (h' : Writes cs r') :
    r = r' := by
  have hok : Except.ok r = Except.ok r' := (readForm_complete h).symm.trans (readForm_complete h')
  exact Except.ok.inj hok

end Relation

end PluralForms
