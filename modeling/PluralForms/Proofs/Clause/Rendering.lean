import PluralForms.Proofs.Clause.Reading
import PluralForms.Proofs.Text.Pieces

/-!
# Canonical clauses

The canonical text of a relation is one of the many that the grammar has for it. Of all relations
only the well-formed ones have a text: the symbol is a small letter, there is an item, every number
fits a word, the modulus is not zero and no range descends. So reading undoes rendering there, and
reading gives well-formed relations only:

    readChars_render : r.WellFormed → readChars r.render.toList = .ok r
    wellFormed_of_readChars : readChars cs = .ok r → r.WellFormed

The text is also known from outside, which is all that the separators between clauses depend on:
its first character is its only letter and its last one a digit (`render_outline`).
-/

namespace PluralForms

/-- The numbers fit a word, and a range ascends. -/
def Item.WellFormed : Item → Prop
  | .value n => n ≤ maxWord
  | .range first last => first ≤ last ∧ last ≤ maxWord

/-- A relation that a clause can write. -/
structure Relation.WellFormed (r : Relation) : Prop where
  symbol : r.symbol.isLower = true
  modulus : ∀ m ∈ r.modulus, 0 < m ∧ m ≤ maxWord
  items_ne_nil : r.items ≠ []
  items : ∀ item ∈ r.items, item.WellFormed

/-! ### Texts from outside -/

theorem isLower_iff {c : Char} : c.isLower = true ↔ 97 ≤ c.toNat ∧ c.toNat ≤ 122 := by
  have hlower : c.isLower = (decide (97 ≤ c.toNat) && decide (c.toNat ≤ 122)) := rfl
  rw [hlower, Bool.and_eq_true, decide_eq_true_iff, decide_eq_true_iff]

/-- The last character is a digit. -/
def EndsInDigit (cs : List Char) : Prop := ∃ front d, cs = front ++ [d] ∧ d.isDigit = true

theorem EndsInDigit.append {bs : List Char} (h : EndsInDigit bs) (as : List Char) :
    EndsInDigit (as ++ bs) := by
  obtain ⟨front, d, rfl, hd⟩ := h
  exact ⟨as ++ front, d, (List.append_assoc as front [d]).symm, hd⟩

theorem trimmed_of_ends {cs : List Char} (hfirst : ∃ c rest, cs = c :: rest ∧ c.isLower = true)
    (hlast : EndsInDigit cs) : Text.Trimmed cs where
  first := by
    obtain ⟨c, rest, rfl, hc⟩ := hfirst
    intro d hd
    obtain rfl : c = d := by simpa using hd
    have hrange := isLower_iff.1 hc
    exact Text.not_isBlank_of_printed (by omega)
  last := by
    obtain ⟨front, d, rfl, hd⟩ := hlast
    intro c hc
    obtain rfl : d = c := by simpa using hc
    have hrange : 48 ≤ d.toNat ∧ d.toNat ≤ 57 := Char.isDigit_iff_toNat.1 hd
    exact Text.not_isBlank_of_printed (by omega)

/-- A small letter first, a digit last, and no mark: what is left of a text that is joined from
clauses. -/
structure Outline (cs : List Char) : Prop where
  first : ∃ c rest, cs = c :: rest ∧ c.isLower = true
  last : EndsInDigit cs
  unmarked : '@' ∉ cs

namespace Outline

theorem trimmed {cs : List Char} (h : Outline cs) : Text.Trimmed cs :=
  trimmed_of_ends h.first h.last

theorem join {as bs sep : List Char} (ha : Outline as) (hb : Outline bs) (hsep : '@' ∉ sep) :
    Outline (as ++ (sep ++ bs)) := by
  obtain ⟨c, rest, rfl, hc⟩ := ha.first
  refine ⟨⟨c, _, rfl, hc⟩, (hb.last.append sep).append _, ?_⟩
  rw [List.mem_append, List.mem_append]
  rintro (hmem | hmem | hmem)
  · exact ha.unmarked hmem
  · exact hsep hmem
  · exact hb.unmarked hmem

end Outline

namespace Relation

/-! ### Numbers -/

theorem writesNumber_toDigits {n : Nat} (h : n ≤ maxWord) : WritesNumber (Nat.toDigits 10 n) n where
  ne_nil := Nat.toDigits_ne_nil
  digits := isDigits_toDigits n
  value := digitsValue_toDigits n
  fits := h

theorem endsInDigit_of_writesNumber {ds : List Char} {n : Nat} (h : WritesNumber ds n) :
    EndsInDigit ds :=
  ⟨ds.dropLast, ds.getLast h.ne_nil, (List.dropLast_append_getLast h.ne_nil).symm,
    h.digits _ (List.getLast_mem h.ne_nil)⟩

/-! ### Items -/

theorem writesItem_render {item : Item} (h : item.WellFormed) :
    WritesItem item.render.toList item := by
  cases item with
  | value n =>
    show WritesItem (toString n).toList _
    rw [toList_toString]
    exact .value (writesNumber_toDigits h)
  | range first last =>
    obtain ⟨hascends, hlast⟩ : first ≤ last ∧ last ≤ maxWord := h
    have hfirst : first ≤ maxWord := hascends.trans hlast
    show WritesItem (toString first ++ ".." ++ toString last).toList _
    rw [String.toList_append, String.toList_append, List.append_assoc, toList_toString,
      toList_toString]
    exact .range (writesNumber_toDigits hfirst) (writesNumber_toDigits hlast)

theorem writesItems_intercalate {items : List Item} (hne : items ≠ [])
    (h : ∀ item ∈ items, item.WellFormed) :
    WritesItems ([','].intercalate (items.map (·.render.toList))) items := by
  induction items with
  | nil => exact absurd rfl hne
  | cons item items ih =>
    have hitem : WritesItem item.render.toList item := writesItem_render (h item List.mem_cons_self)
    cases items with
    | nil =>
      have hone : WritesItems (item.render.toList ++ []) [item] := .mk hitem .nil
      simpa using hone
    | cons next items =>
      have hrest := ih (List.cons_ne_nil next items) fun i hi => h i (List.mem_cons_of_mem _ hi)
      rw [List.map_cons] at hrest
      rw [List.map_cons, List.map_cons, List.intercalate_cons_cons, List.append_assoc]
      generalize [','].intercalate (next.render.toList :: _) = cs at hrest ⊢
      cases hrest with
      | mk hnext hmore => exact .mk hitem (.cons isBlanks_nil isBlanks_nil hnext hmore)

/-! ### The whole clause -/

theorem toList_render (r : Relation) :
    r.render.toList = r.symbol :: ((match r.modulus with
        | none => []
        | some m => ' ' :: '%' :: ' ' :: Nat.toDigits 10 m) ++
      ' ' :: (r.comparison.render.toList ++
        ' ' :: [','].intercalate (r.items.map (·.render.toList)))) := by
  unfold render
  rw [show (r.items.map (·.render.toList)) = (r.items.map Item.render).map String.toList by
    rw [List.map_map]; rfl]
  cases r.modulus with
  | none => simp [String.toList_intercalate]
  | some m => simp [String.toList_intercalate]

theorem writes_render {r : Relation} (h : r.WellFormed) : Writes r.render.toList r := by
  have hcomparison : WritesComparison r.comparison.render.toList r.comparison := by
    cases r.comparison
    · exact .equals
    · exact .notEquals
  have hitems := writesItems_intercalate h.items_ne_nil h.items
  rw [toList_render]
  obtain ⟨symbol, modulus, comparison, items⟩ := r
  cases modulus with
  | none => exact .mk h.symbol isBlanks_space .none hcomparison isBlanks_space hitems
  | some m =>
    have hm : WritesNumber (Nat.toDigits 10 m) m := writesNumber_toDigits (h.modulus m rfl).2
    have hmodulus := WritesModulus.some .percent isBlanks_space hm isBlanks_space
    have hwrites := Writes.mk h.symbol isBlanks_space hmodulus hcomparison isBlanks_space hitems
    simpa using hwrites

/-! ### The text from outside -/

/-- The characters behind the symbol. -/
def IsInner (c : Char) : Prop := c.isDigit = true ∨ c ∈ " %=!.,".toList

theorem not_isLower_of_isInner {c : Char} (h : IsInner c) : c.isLower = false := by
  rw [Bool.eq_false_iff]
  rcases h with hdigit | hsign
  · intro hlower
    have hdigits : 48 ≤ c.toNat ∧ c.toNat ≤ 57 := Char.isDigit_iff_toNat.1 hdigit
    have hletters := isLower_iff.1 hlower
    omega
  · have hsigns : " %=!.,".toList.any Char.isLower = false := by decide
    intro hlower
    exact absurd hlower (List.any_eq_false.1 hsigns c hsign)

theorem inner_of_writesNumber {ds : List Char} {n : Nat} (h : WritesNumber ds n) :
    ∀ c ∈ ds, IsInner c :=
  fun c hc => Or.inl (h.digits c hc)

theorem inner_of_writesItem {ds : List Char} {item : Item} (h : WritesItem ds item) :
    (∀ c ∈ ds, IsInner c) ∧ EndsInDigit ds := by
  cases h with
  | value hds => exact ⟨inner_of_writesNumber hds, endsInDigit_of_writesNumber hds⟩
  | @range ds es first last hds hes =>
    refine ⟨fun c hc => ?_, ?_⟩
    · simp only [List.mem_append, List.mem_cons] at hc
      rcases hc with hc | rfl | rfl | hc
      · exact inner_of_writesNumber hds c hc
      · exact Or.inr (by decide)
      · exact Or.inr (by decide)
      · exact inner_of_writesNumber hes c hc
    · exact ((endsInDigit_of_writesNumber hes).append ['.', '.']).append ds

theorem endsInDigit_of_writesMore {ds cs : List Char} {items : List Item}
    (h : WritesMore cs items) (hds : EndsInDigit ds) : EndsInDigit (ds ++ cs) := by
  induction h generalizing ds with
  | nil => rwa [List.append_nil]
  | @cons g g' es cs item items _ _ hitem _ ih =>
    have hrest : EndsInDigit (es ++ cs) := ih (inner_of_writesItem hitem).2
    simpa using (hrest.append (g ++ ',' :: g')).append ds

theorem endsInDigit_of_writes {cs : List Char} {r : Relation} (h : Writes cs r) :
    EndsInDigit cs := by
  cases h with
  | @mk symbol g ms signs g' list modulus comparison items _ _ _ _ _ hlist =>
    cases hlist with
    | mk hitem hmore =>
      have hlist := endsInDigit_of_writesMore hmore (inner_of_writesItem hitem).2
      simpa using hlist.append (symbol :: (g ++ (ms ++ (signs ++ g'))))

/-- A clause has no blanks around it: a small letter stands first and a digit last. -/
theorem trimmed_of_writes {cs : List Char} {r : Relation} (h : Writes cs r) : Text.Trimmed cs := by
  have hlast := endsInDigit_of_writes h
  cases h with
  | mk hsymbol _ _ _ _ _ => exact trimmed_of_ends ⟨_, _, rfl, hsymbol⟩ hlast

/-- Behind the symbol there is no letter and no mark, and a digit stands last. -/
theorem exists_inner_render {r : Relation} (h : r.WellFormed) :
    ∃ rest, r.render.toList = r.symbol :: rest ∧ (∀ c ∈ rest, IsInner c) ∧ EndsInDigit rest := by
  have hitems : (∀ c ∈ [','].intercalate (r.items.map (·.render.toList)), IsInner c) ∧
      EndsInDigit ([','].intercalate (r.items.map (·.render.toList))) := by
    refine Text.intercalate_induction (P := fun cs => (∀ c ∈ cs, IsInner c) ∧ EndsInDigit cs)
      (by simpa using h.items_ne_nil) ?_ ?_
    · intro piece hpiece
      obtain ⟨item, hitem, rfl⟩ := List.mem_map.1 hpiece
      exact inner_of_writesItem (writesItem_render (h.items item hitem))
    · rintro piece rest ⟨hpiece, -⟩ ⟨hrest, hend⟩
      refine ⟨fun c hc => ?_, (hend.append [',']).append piece⟩
      simp only [List.mem_append, List.mem_singleton] at hc
      rcases hc with hc | rfl | hc
      · exact hpiece c hc
      · exact Or.inr (by decide)
      · exact hrest c hc
  refine ⟨_, toList_render r, fun c hc => ?_, ?_⟩
  · simp only [List.mem_append, List.mem_cons] at hc
    rcases hc with hc | rfl | hc | rfl | hc
    · cases hm : r.modulus with
      | none => simp [hm] at hc
      | some m =>
        simp only [hm, List.mem_cons] at hc
        rcases hc with rfl | rfl | rfl | hc
        · exact Or.inr (by decide)
        · exact Or.inr (by decide)
        · exact Or.inr (by decide)
        · exact Or.inl (isDigits_toDigits m c hc)
    · exact Or.inr (by decide)
    · cases hcomparison : r.comparison with
      | equals =>
        rw [hcomparison] at hc
        obtain rfl : c = '=' := by simpa [Comparison.render] using hc
        exact Or.inr (by decide)
      | notEquals =>
        rw [hcomparison] at hc
        obtain rfl | rfl : c = '!' ∨ c = '=' := by simpa [Comparison.render] using hc
        · exact Or.inr (by decide)
        · exact Or.inr (by decide)
    · exact Or.inr (by decide)
    · exact hitems.1 c hc
  · exact ((hitems.2.append [' ']).append _ |>.append [' ']).append _

theorem outline_render {r : Relation} (h : r.WellFormed) : Outline r.render.toList := by
  obtain ⟨rest, hrest, hinner, hlast⟩ := exists_inner_render h
  rw [hrest]
  refine ⟨⟨r.symbol, rest, rfl, h.symbol⟩, hlast.append [r.symbol], fun hmem => ?_⟩
  rcases List.mem_cons.1 hmem with hsymbol | hmem
  · have hlower := h.symbol
    rw [← hsymbol] at hlower
    exact absurd hlower (by decide)
  · rcases hinner '@' hmem with hdigit | hsign
    · exact absurd hdigit (by decide)
    · exact absurd hsign (by decide)

/-- Reading undoes rendering. -/
theorem readChars_render {r : Relation} (h : r.WellFormed) : readChars r.render.toList = .ok r := by
  have hwrites : Writes r.render.toList r := writes_render h
  rw [readChars_eq_ok_iff, Text.trim_eq_self (outline_render h).trimmed]
  refine ⟨hwrites, fun hzero => ?_, fun first last hmem => (h.items _ hmem).1⟩
  exact absurd (h.modulus 0 hzero).1 (Nat.lt_irrefl 0)

/-! ### What is read is well-formed -/

theorem wellFormed_of_writesItem {ds : List Char} {item : Item} (h : WritesItem ds item)
    (hascends : ∀ first last, item = .range first last → first ≤ last) : item.WellFormed := by
  cases h with
  | value hds => exact hds.fits
  | range _ hes => exact ⟨hascends _ _ rfl, hes.fits⟩

theorem wellFormed_of_writesMore {cs : List Char} {items : List Item} (h : WritesMore cs items)
    (hascends : Ascending items) : ∀ item ∈ items, item.WellFormed := by
  induction h with
  | nil => exact fun _ hmem => absurd hmem List.not_mem_nil
  | cons _ _ hitem _ ih =>
    intro item hmem
    rcases List.mem_cons.1 hmem with rfl | hmem
    · refine wellFormed_of_writesItem hitem fun first last heq => hascends first last ?_
      rw [heq]
      exact List.mem_cons_self
    · exact ih (fun first last hmem => hascends first last (List.mem_cons_of_mem _ hmem)) item hmem

theorem fits_of_writesModulus {cs : List Char} {modulus : Option Nat}
    (h : WritesModulus cs modulus) : ∀ m ∈ modulus, m ≤ maxWord := by
  intro m hm
  cases h with
  | none => simp at hm
  | some _ _ hds _ =>
    cases hm
    exact hds.fits

theorem wellFormed_of_readChars {cs : List Char} {r : Relation} (h : readChars cs = .ok r) :
    r.WellFormed := by
  obtain ⟨hwrites, hzero, hascends⟩ := readChars_eq_ok_iff.1 h
  generalize Text.trim cs = written at hwrites
  cases hwrites with
  | mk hsymbol _ hms _ _ hlist =>
    refine ⟨hsymbol, fun m hm => ⟨?_, fits_of_writesModulus hms m hm⟩, ?_, ?_⟩
    · refine Nat.pos_of_ne_zero fun h0 => hzero ?_
      rw [← h0]
      exact hm
    · cases hlist
      exact List.cons_ne_nil _ _
    · cases hlist with
      | mk hitem hmore =>
        exact wellFormed_of_writesMore (.cons isBlanks_nil isBlanks_nil hitem hmore) hascends

end Relation

end PluralForms
