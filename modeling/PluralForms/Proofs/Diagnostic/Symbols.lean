import PluralForms.Diagnostic
import PluralForms.Proofs.Clause.Rendering
import PluralForms.Proofs.Text.Stretches

/-!
# Letters that are set off

The symbol of a relation is looked for in the whole text of a rule. It is a small letter, and such
letters also stand in `mod`, `and` and `or`; but there each has another letter next to it, while the
search wants a letter that is set off, with a blank in front of it and no letter behind. So among
clauses that can be read, a letter that is set off is the symbol of its clause:

    eq_first_of_writes : a letter set off inside the text of a relation is its first character
    isSetOff_iff_of_writes : when the symbol itself is set off

The search knows fewer blanks than the grammar has: those of ASCII in front of the symbol, and the
space alone behind it.
-/

namespace PluralForms

open Text

/-- Does the stretch stand like the symbol of a relation, apart from other letters? -/
def Text.Stretch.IsSetOff (s : Stretch) : Prop :=
  s.front.getLast?.all isAsciiBlank = true ∧ s.back.head?.all followsSymbol = true

instance (s : Stretch) : Decidable s.IsSetOff := inferInstanceAs (Decidable (_ ∧ _))

/-! ### Small letters -/

theorem not_isAsciiBlank_of_isLower {c : Char} (h : c.isLower = true) : isAsciiBlank c = false := by
  cases hblank : isAsciiBlank c with
  | false => rfl
  | true =>
    simp only [isAsciiBlank, Bool.or_eq_true, beq_iff_eq] at hblank
    rcases hblank with (((rfl | rfl) | rfl) | rfl) | rfl <;> exact absurd h (by decide)

theorem not_followsSymbol_of_isLower {c : Char} (h : c.isLower = true) :
    followsSymbol c = false := by
  cases hfollows : followsSymbol c with
  | false => rfl
  | true =>
    simp only [followsSymbol, Bool.or_eq_true, beq_iff_eq] at hfollows
    rcases hfollows with ((rfl | rfl) | rfl) | rfl <;> exact absurd h (by decide)

theorem not_isBlank_of_isLower {c : Char} (h : c.isLower = true) : isBlank c = false := by
  have hrange := isLower_iff.1 h
  apply not_isBlank_of_printed
  omega

/-- Each small letter of the text has another one next to it. -/
def HasCompany (cs : List Char) : Prop :=
  ∀ k, (hk : k < cs.length) → cs[k].isLower = true →
    (cs.take k).getLast?.any Char.isLower = true ∨ (cs.drop (k + 1)).head?.any Char.isLower = true

instance (cs : List Char) : Decidable (HasCompany cs) := by
  unfold HasCompany
  infer_instance

/-- A letter in company is not set off. -/
theorem not_isSetOff_of_inSeparator {sep : List Char} (hsep : HasCompany sep) {o : Stretch}
    {c : Char} (ho : o.word = [c]) (hc : c.isLower = true) (h : o.InSeparator sep) :
    ¬o.IsSetOff := by
  rintro ⟨hbefore, hbehind⟩
  obtain ⟨u, v, hparts, ⟨front, hfront⟩, ⟨back, hback⟩⟩ := h
  obtain rfl : sep = u ++ c :: v := by rw [hparts, ho]; rfl
  have hnext := hsep u.length (by simp) (by simpa using hc)
  have hdrop : (u ++ c :: v).drop (u.length + 1) = v := by
    rw [← List.drop_drop, List.drop_left]
    rfl
  rw [List.take_left, hdrop] at hnext
  rcases hnext with hlast | hhead
  · obtain ⟨d, hd, hlower⟩ := (Option.any_eq_true _ _).1 hlast
    have hend : o.front.getLast? = some d := by rw [← hfront, List.getLast?_append, hd]; rfl
    rw [hend, Option.all_some, not_isAsciiBlank_of_isLower hlower] at hbefore
    exact Bool.false_ne_true hbefore
  · obtain ⟨d, hd, hlower⟩ := (Option.any_eq_true _ _).1 hhead
    have hstart : o.back.head? = some d := by rw [← hback, List.head?_append, hd]; rfl
    rw [hstart, Option.all_some, not_followsSymbol_of_isLower hlower] at hbehind
    exact Bool.false_ne_true hbehind

/-! ### Letters in a clause -/

variable {cs : List Char}

/-- Small letters do not stand in the text. -/
def HasNoLetter (cs : List Char) : Prop := ∀ c ∈ cs, c.isLower = false

theorem hasNoLetter_append {as bs : List Char} (ha : HasNoLetter as) (hb : HasNoLetter bs) :
    HasNoLetter (as ++ bs) := by
  intro c hc
  rcases List.mem_append.1 hc with hc | hc
  · exact ha c hc
  · exact hb c hc

theorem hasNoLetter_cons {c : Char} (hc : c.isLower = false) (h : HasNoLetter cs) :
    HasNoLetter (c :: cs) := List.forall_mem_cons.2 ⟨hc, h⟩

theorem hasNoLetter_of_isDigits (h : IsDigits cs) : HasNoLetter cs := by
  intro c hc
  have hdigit : 48 ≤ c.toNat ∧ c.toNat ≤ 57 := Char.isDigit_iff_toNat.1 (h c hc)
  rw [← Bool.not_eq_true, isLower_iff]
  omega

theorem hasNoLetter_of_isBlanks (h : IsBlanks cs) : HasNoLetter cs := by
  intro c hc
  rw [← Bool.not_eq_true]
  intro hlower
  have hblank := isBlank_of_isInnerBlank (h c hc)
  rw [not_isBlank_of_isLower hlower] at hblank
  exact Bool.false_ne_true hblank

theorem hasNoLetter_of_writesItem {item : Item} (h : WritesItem cs item) : HasNoLetter cs := by
  cases h with
  | value hds => exact hasNoLetter_of_isDigits hds.digits
  | range hds hes =>
    apply hasNoLetter_append (hasNoLetter_of_isDigits hds.digits)
    exact hasNoLetter_cons rfl (hasNoLetter_cons rfl (hasNoLetter_of_isDigits hes.digits))

theorem hasNoLetter_of_writesMore {items : List Item} (h : WritesMore cs items) :
    HasNoLetter cs := by
  induction h with
  | nil => exact fun _ hc => absurd hc List.not_mem_nil
  | cons hg hg' hitem _ ih =>
    apply hasNoLetter_append (hasNoLetter_of_isBlanks hg)
    apply hasNoLetter_cons rfl
    apply hasNoLetter_append (hasNoLetter_of_isBlanks hg')
    exact hasNoLetter_append (hasNoLetter_of_writesItem hitem) ih

theorem hasNoLetter_of_writesItems {items : List Item} (h : WritesItems cs items) :
    HasNoLetter cs := by
  cases h with
  | mk hitem hmore =>
    exact hasNoLetter_append (hasNoLetter_of_writesItem hitem) (hasNoLetter_of_writesMore hmore)

theorem hasNoLetter_of_writesComparison {comparison : Comparison}
    (h : WritesComparison cs comparison) : HasNoLetter cs := by
  cases h with
  | equals => exact hasNoLetter_cons rfl fun _ hc => absurd hc List.not_mem_nil
  | notEquals =>
    exact hasNoLetter_cons rfl (hasNoLetter_cons rfl fun _ hc => absurd hc List.not_mem_nil)

/-- A letter of a modulus is one of `mod`. -/
theorem inSeparator_of_writesModulus {modulus : Option Nat} (h : WritesModulus cs modulus)
    {o s : Stretch} (hs : s.word = cs) (ho : o.Within s) {c : Char} (hword : o.word = [c])
    (hc : c.isLower = true) : o.InSeparator ['m', 'o', 'd'] := by
  obtain ⟨before, behind, hfront, hparts, hback⟩ := ho
  rw [hs, hword] at hparts
  cases h with
  | none => simp at hparts
  | @some sign g ds g' m hsign hg hds hg' =>
    have hbehind : HasNoLetter (g ++ (ds ++ g')) :=
      hasNoLetter_append (hasNoLetter_of_isBlanks hg)
        (hasNoLetter_append (hasNoLetter_of_isDigits hds.digits) (hasNoLetter_of_isBlanks hg'))
    rcases Stretch.exists_of_append_eq_cons hparts with ⟨left, hsplit, rfl⟩ | ⟨right, -, hsplit⟩
    · cases hsign with
      | percent =>
        obtain rfl : '%' = c := by
          cases before with
          | nil => exact (List.cons.inj hsplit).1
          | cons b before => simp at hsplit
        exact absurd hc (by decide)
      | word =>
        refine ⟨before, left, by rw [hword]; exact hsplit, ⟨s.front, hfront.symm⟩, ?_⟩
        exact ⟨g ++ (ds ++ g') ++ s.back, by simp [hback]⟩
    · have hletter : c.isLower = false := hbehind c (by rw [hsplit]; simp)
      rw [hc] at hletter
      exact absurd hletter.symm Bool.false_ne_true

/-- A letter that is set off in the text of a relation is the symbol that it begins with. -/
theorem eq_first_of_writes {s o : Stretch} {r : Relation} (h : Writes s.word r) (ho : o.Within s)
    {c : Char} (hword : o.word = [c]) (hc : c.isLower = true) (hset : o.IsSetOff) :
    o = s.first ∧ c = r.symbol := by
  obtain ⟨front, word, back⟩ := s
  obtain ⟨before, behind, hfront, hparts, hback⟩ := ho
  dsimp only at h hfront hparts hback
  rw [hword] at hparts
  obtain @⟨symbol, g, ms, signs, g', list, modulus, comparison, items, hsymbol, hg, hms, hsigns,
    hg', hlist⟩ := h
  cases before with
  | nil =>
    obtain ⟨rfl, hrest⟩ := List.cons.inj hparts
    refine ⟨Stretch.ext ?_ hword ?_, rfl⟩
    · rw [hfront, List.append_nil]
      rfl
    · rw [hback, hrest]
      rfl
  | cons b before =>
    exfalso
    obtain ⟨rfl, hrest⟩ := List.cons.inj hparts
    have hbehind : HasNoLetter (signs ++ (g' ++ list)) :=
      hasNoLetter_append (hasNoLetter_of_writesComparison hsigns)
        (hasNoLetter_append (hasNoLetter_of_isBlanks hg') (hasNoLetter_of_writesItems hlist))
    have hletter : ∀ as, HasNoLetter as → c ∉ as := by
      intro as has hmem
      rw [has c hmem] at hc
      exact Bool.false_ne_true hc
    rcases Stretch.exists_of_append_eq_cons hrest with ⟨left, rfl, -⟩ | ⟨right, rfl, hmodulus⟩
    · exact hletter _ (hasNoLetter_of_isBlanks hg) (by simp)
    rcases Stretch.exists_of_append_eq_cons hmodulus with ⟨left, rfl, rfl⟩ | ⟨right', -, hsigns'⟩
    · let sign : Stretch :=
        ⟨front ++ symbol :: g, right ++ c :: left, (signs ++ (g' ++ list)) ++ back⟩
      have hin : o.Within sign := by
        refine ⟨right, left, ?_, ?_, ?_⟩
        · simp [sign, hfront]
        · simp [sign, hword]
        · simp [sign, hback]
      exact not_isSetOff_of_inSeparator (by decide) hword hc
        (inSeparator_of_writesModulus hms rfl hin hword hc) hset
    · exact hletter _ hbehind (by rw [hsigns']; simp)

/-- What may stand right behind the symbol. -/
theorem exists_head_of_writes {symbol : Char} {rest : List Char} {r : Relation}
    (h : Writes (symbol :: rest) r) :
    ∃ c, rest.head? = some c ∧ c ∈ [' ', '\t', '%', 'm', '=', '!'] := by
  obtain @⟨_, g, ms, signs, g', list, modulus, comparison, items, -, hg, hms, hsigns, -, -⟩ := h
  cases g with
  | cons b g =>
    have hb : isInnerBlank b = true := hg b List.mem_cons_self
    simp only [isInnerBlank, Bool.or_eq_true, beq_iff_eq] at hb
    rcases hb with rfl | rfl <;> exact ⟨_, rfl, by decide⟩
  | nil =>
    cases hms with
    | none => cases hsigns <;> exact ⟨_, rfl, by decide⟩
    | some hsign _ _ _ => cases hsign <;> exact ⟨_, rfl, by decide⟩

/-- The symbol of a relation is set off if a blank of ASCII stands in front of it, if anything does,
and neither a tab nor the word `mod` behind it. -/
theorem isSetOff_first_iff {s : Stretch} {r : Relation} (h : Writes s.word r) :
    s.first.IsSetOff ↔ s.front.getLast?.all isAsciiBlank = true ∧
      s.first.back.head? ≠ some '\t' ∧ s.first.back.head? ≠ some 'm' := by
  have hword : s.word ≠ [] := by
    intro hnil
    rw [hnil] at h
    cases h
  obtain ⟨symbol, rest, hrest⟩ := List.exists_cons_of_ne_nil hword
  rw [hrest] at h
  obtain ⟨c, hc, hmem⟩ := exists_head_of_writes h
  have hhead : s.first.back.head? = some c := by
    unfold Stretch.first
    rw [hrest, List.drop_one, List.tail_cons, List.head?_append, hc]
    rfl
  have hfollows : ∀ c ∈ [' ', '\t', '%', 'm', '=', '!'],
      followsSymbol c = true ↔ c ≠ '\t' ∧ c ≠ 'm' := by simp [followsSymbol]
  unfold Stretch.IsSetOff
  rw [hhead, Option.all_some, hfollows c hmem, ne_eq (some c), ne_eq (some c), Option.some.injEq,
    Option.some.injEq]
  rfl

end PluralForms
