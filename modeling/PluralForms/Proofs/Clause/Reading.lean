import PluralForms.Proofs.Clause.Grammar

/-!
# Which clauses are read, and why the others are not

A clause that the grammar writes is refused for its meaning only: for a modulus of zero first of
all, and else for the first range that descends. A clause that the grammar does not write is
malformed. The four verdicts are told apart in

    read_eq_iff : read text = verdict ↔ what the grammar says of the trimmed text

where the relation that is read is the one that is written, and there is only one.
-/

namespace PluralForms.Relation

/-! ### Descending ranges -/

/-- Every range has its start at or below its end. -/
def Ascending (items : List Item) : Prop :=
  ∀ first last, Item.range first last ∈ items → first ≤ last

/-- The range `first..last` descends, and none in front of it does. -/
def FirstDescending (items : List Item) (first last : Nat) : Prop :=
  ∃ before after, items = before ++ .range first last :: after ∧ Ascending before ∧ last < first

/-- The range that an item is, if it descends. -/
theorem descending?_singleton_iff {item : Item} {first last : Nat} :
    descending? [item] = some (first, last) ↔ item = .range first last ∧ last < first := by
  unfold descending?
  cases item with
  | value n => simp
  | range a b =>
    by_cases hlt : b < a
    · simp only [List.findSome?_cons, hlt, if_true, Option.some.injEq, Prod.mk.injEq,
        Item.range.injEq]
      constructor
      · rintro ⟨rfl, rfl⟩
        exact ⟨⟨rfl, rfl⟩, hlt⟩
      · exact fun h => h.1
    · simp only [List.findSome?_cons, hlt, if_false, List.findSome?_nil, Item.range.injEq]
      constructor
      · intro h
        simp at h
      · rintro ⟨⟨rfl, rfl⟩, h⟩
        exact absurd h hlt

theorem descending?_cons (item : Item) (items : List Item) :
    descending? (item :: items) = (descending? [item]).or (descending? items) := by
  unfold descending?
  rw [List.findSome?_cons, List.findSome?_cons]
  split <;> rfl

theorem descending?_eq_none_iff {items : List Item} :
    descending? items = none ↔ Ascending items := by
  induction items with
  | nil => exact ⟨fun _ _ _ h => absurd h List.not_mem_nil, fun _ => rfl⟩
  | cons item items ih =>
    rw [descending?_cons, Option.or_eq_none_iff, ih]
    constructor
    · rintro ⟨hitem, hitems⟩ first last hmem
      rcases List.mem_cons.1 hmem with rfl | hmem
      · by_contra hlt
        rw [descending?_singleton_iff.2 ⟨rfl, Nat.lt_of_not_le hlt⟩] at hitem
        simp at hitem
      · exact hitems first last hmem
    · intro h
      refine ⟨?_, fun first last hmem => h first last (List.mem_cons_of_mem _ hmem)⟩
      rw [Option.eq_none_iff_forall_ne_some]
      rintro ⟨first, last⟩ hsome
      obtain ⟨rfl, hlt⟩ := descending?_singleton_iff.1 hsome
      exact absurd (h first last List.mem_cons_self) (Nat.not_le_of_lt hlt)

theorem descending?_eq_some_iff {items : List Item} {first last : Nat} :
    descending? items = some (first, last) ↔ FirstDescending items first last := by
  induction items with
  | nil =>
    constructor
    · intro h
      simp [descending?] at h
    · rintro ⟨before, after, h, -⟩
      simp at h
  | cons item items ih =>
    rw [descending?_cons]
    cases hitem : descending? [item] with
    | some found =>
      obtain ⟨a, b⟩ := found
      obtain ⟨rfl, hlt⟩ := descending?_singleton_iff.1 hitem
      constructor
      · intro h
        cases h
        exact ⟨[], items, rfl, fun _ _ hmem => absurd hmem List.not_mem_nil, hlt⟩
      · rintro ⟨before, after, hsplit, hbefore, -⟩
        cases before with
        | nil =>
          cases hsplit
          rfl
        | cons item' before =>
          -- the first item descends, so it cannot stand before the first range that does
          cases hsplit
          exact absurd (hbefore a b List.mem_cons_self) (Nat.not_le_of_lt hlt)
    | none =>
      rw [Option.none_or, ih]
      constructor
      · rintro ⟨before, after, rfl, hbefore, hlt⟩
        refine ⟨item :: before, after, rfl, ?_, hlt⟩
        rw [← descending?_eq_none_iff, descending?_cons, hitem, Option.none_or]
        exact descending?_eq_none_iff.2 hbefore
      · rintro ⟨before, after, hsplit, hbefore, hlt⟩
        cases before with
        | nil =>
          cases hsplit
          rw [descending?_singleton_iff.2 ⟨rfl, hlt⟩] at hitem
          simp at hitem
        | cons item' before =>
          cases hsplit
          exact ⟨before, after, rfl,
            fun a b hmem => hbefore a b (List.mem_cons_of_mem _ hmem), hlt⟩

/-! ### Validation -/

theorem validate_eq_ok_iff {r r' : Relation} :
    validate r = .ok r' ↔ r' = r ∧ r.modulus ≠ some 0 ∧ Ascending r.items := by
  unfold validate
  by_cases hzero : r.modulus = some 0
  · simp [hzero]
  · rw [if_neg hzero]
    cases hdesc : descending? r.items with
    | none =>
      have hasc : Ascending r.items := descending?_eq_none_iff.1 hdesc
      exact ⟨fun h => ⟨(Except.ok.inj h).symm, hzero, hasc⟩, fun h => h.1 ▸ rfl⟩
    | some range =>
      constructor
      · intro h
        simp at h
      · rintro ⟨-, -, hasc⟩
        rw [descending?_eq_none_iff.2 hasc] at hdesc
        simp at hdesc

theorem validate_eq_zeroModulus_iff {r : Relation} :
    validate r = .error .zeroModulus ↔ r.modulus = some 0 := by
  unfold validate
  by_cases hzero : r.modulus = some 0
  · simp [hzero]
  · rw [if_neg hzero]
    cases descending? r.items <;> simp [hzero]

theorem validate_eq_emptyRange_iff {r : Relation} {first last : Nat} :
    validate r = .error (.emptyRange first last) ↔
      r.modulus ≠ some 0 ∧ FirstDescending r.items first last := by
  unfold validate
  by_cases hzero : r.modulus = some 0
  · simp [hzero]
  · rw [if_neg hzero, ← descending?_eq_some_iff]
    cases descending? r.items with
    | none => simp
    | some range =>
      obtain ⟨a, b⟩ := range
      simp [hzero]

theorem validate_ne_malformed (r : Relation) (column : Nat) (fault : Fault) :
    validate r ≠ .error (.malformed column fault) := by
  unfold validate
  split
  · simp
  · split <;> simp

/-! ### Verdicts -/

theorem readChars_of_writes {cs : List Char} {r : Relation} (h : Writes (Text.trim cs) r) :
    readChars cs = validate r := by
  unfold readChars
  dsimp only
  rw [readForm_complete h]

theorem readChars_of_not_writes {cs : List Char} (h : ¬∃ r, Writes (Text.trim cs) r) :
    ∃ column fault, readChars cs = .error (.malformed column fault) := by
  unfold readChars
  dsimp only
  cases hform : readForm (Text.trim cs) with
  | ok r => exact absurd ⟨r, readForm_sound hform⟩ h
  | error e => exact ⟨_, e.1, rfl⟩

theorem readChars_eq_ok_iff {cs : List Char} {r : Relation} :
    readChars cs = .ok r ↔
      Writes (Text.trim cs) r ∧ r.modulus ≠ some 0 ∧ Ascending r.items := by
  constructor
  · intro h
    by_cases hwrites : ∃ r', Writes (Text.trim cs) r'
    · obtain ⟨r', hr'⟩ := hwrites
      rw [readChars_of_writes hr', validate_eq_ok_iff] at h
      obtain ⟨rfl, hvalid⟩ := h
      exact ⟨hr', hvalid⟩
    · obtain ⟨column, fault, hbad⟩ := readChars_of_not_writes hwrites
      rw [hbad] at h
      simp at h
  · rintro ⟨hwrites, hvalid⟩
    rw [readChars_of_writes hwrites]
    exact validate_eq_ok_iff.2 ⟨rfl, hvalid⟩

/-- The verdict on a text is what the grammar says of it, blanks around it ignored: the relation
that is written; else a modulus of zero; else the first descending range; else a malformed
clause. -/
theorem read_eq_iff (text : String) :
    (∀ r, read text = .ok r ↔
      Writes (Text.trim text.toList) r ∧ r.modulus ≠ some 0 ∧ Ascending r.items) ∧
    (read text = .error .zeroModulus ↔
      ∃ r, Writes (Text.trim text.toList) r ∧ r.modulus = some 0) ∧
    (∀ first last, read text = .error (.emptyRange first last) ↔
      ∃ r, Writes (Text.trim text.toList) r ∧ r.modulus ≠ some 0 ∧
        FirstDescending r.items first last) ∧
    ((∃ column fault, read text = .error (.malformed column fault)) ↔
      ¬∃ r, Writes (Text.trim text.toList) r) := by
  refine ⟨fun r => readChars_eq_ok_iff, ?_⟩
  unfold read
  by_cases hwrites : ∃ r, Writes (Text.trim text.toList) r
  · obtain ⟨r, hr⟩ := hwrites
    have honly : ∀ r', Writes (Text.trim text.toList) r' → r' = r :=
      fun r' hr' => writes_unique hr' hr
    rw [readChars_of_writes hr]
    refine ⟨?_, fun first last => ?_, ?_⟩
    · rw [validate_eq_zeroModulus_iff]
      exact ⟨fun h => ⟨r, hr, h⟩, fun ⟨r', hr', h⟩ => honly r' hr' ▸ h⟩
    · rw [validate_eq_emptyRange_iff]
      exact ⟨fun h => ⟨r, hr, h⟩, fun ⟨r', hr', h⟩ => honly r' hr' ▸ h⟩
    · exact ⟨fun ⟨column, fault, h⟩ => absurd h (validate_ne_malformed r column fault),
        fun h => absurd ⟨r, hr⟩ h⟩
  · obtain ⟨column, fault, hbad⟩ := readChars_of_not_writes hwrites
    rw [hbad]
    refine ⟨⟨fun h => ?_, fun ⟨r, hr, _⟩ => absurd ⟨r, hr⟩ hwrites⟩,
      fun first last => ⟨fun h => ?_, fun ⟨r, hr, _⟩ => absurd ⟨r, hr⟩ hwrites⟩,
      fun _ => hwrites, fun _ => ⟨column, fault, rfl⟩⟩
    · simp at h
    · simp at h

end PluralForms.Relation
