import PluralForms.Proofs.Text.Stretches

/-!
# Finding a word in a text

A search for a word goes through the places of a text and stops at the first one that suits it. What
it finds is told by stretches, which know the text around the word:

    map_span_find?_iff : the span of the first suitable place is that of `s` ↔ `s` comes first
    exists_mem_occurrences : where the word stands, it is found, or an occurrence of it that is
      found reaches into this one

The second is all that can be said of a search that continues behind what it has found, since it
steps over whatever begins inside.
-/

namespace PluralForms.Text

/-- The first stretch of its text that has its word and of which `P` holds. -/
structure Stretch.IsFirst (P : Stretch → Prop) (s : Stretch) : Prop where
  holds : P s
  first : ∀ o : Stretch, o.text = s.text → o.word = s.word → P o →
    s.front.length ≤ o.front.length

/-- The place at which the stretch begins. -/
def Stretch.place (s : Stretch) : Place :=
  ⟨s.front.getLast?, byteLength s.front, s.word ++ s.back⟩

theorem Stretch.span_place (s : Stretch) : s.place.span s.word = s.span := rfl

/-! ### Places by their number -/

/-- The place of `cs` that has `k` characters in front of it. -/
def placeAt (cs : List Char) (k : Nat) : Place :=
  ⟨(cs.take k).getLast?, byteLength (cs.take k), cs.drop k⟩

theorem placesFrom_eq_map (before : Option Char) (offset : Nat) (cs : List Char) :
    placesFrom before offset cs = (List.range (cs.length + 1)).map fun k =>
      ⟨((cs.take k).getLast?).or before, offset + byteLength (cs.take k), cs.drop k⟩ := by
  induction cs generalizing before offset with
  | nil => rfl
  | cons c cs ih =>
    rw [List.length_cons, List.range_succ_eq_map, List.map_cons, List.map_map, placesFrom, ih]
    congr 1
    apply List.map_congr_left
    intro k _
    simp only [Function.comp_apply, List.take_succ_cons, List.drop_succ_cons, byteLength_cons,
      List.getLast?_cons, Nat.add_assoc, Place.mk.injEq, and_true]
    cases (cs.take k).getLast? <;> rfl

theorem places_eq_map (cs : List Char) :
    places cs = (List.range (cs.length + 1)).map (placeAt cs) := by
  unfold places
  rw [placesFrom_eq_map]
  simp [placeAt]

theorem placeAt_length (s : Stretch) : placeAt s.text s.front.length = s.place := by
  unfold placeAt Stretch.place Stretch.text
  rw [List.take_left, List.drop_left]

/-- A word at a place is a stretch. -/
theorem exists_stretch {cs word : List Char} {k : Nat} (hk : k ≤ cs.length)
    (h : word <+: cs.drop k) : ∃ s : Stretch, s.text = cs ∧ s.word = word ∧ s.front.length = k := by
  obtain ⟨back, hback⟩ := h
  refine ⟨⟨cs.take k, word, back⟩, ?_, rfl, List.length_take_of_le hk⟩
  show cs.take k ++ (word ++ back) = cs
  rw [hback, List.take_append_drop]

theorem length_front_le (s : Stretch) : s.front.length ≤ s.text.length := by
  unfold Stretch.text
  rw [List.length_append]
  exact Nat.le_add_right _ _

/-! ### The first place -/

section Find

variable {q : Place → Bool} {P : Stretch → Prop} {word cs : List Char}
  (hword : ∀ p, q p = true → word <+: p.rest)
  (hP : ∀ s : Stretch, s.word = word → (q s.place = true ↔ P s))

include hP in
theorem find?_places_isSome {s : Stretch} (htext : s.text = cs) (hs : s.word = word) (h : P s) :
    ((places cs).find? q).isSome = true := by
  subst htext
  rw [List.find?_isSome]
  refine ⟨s.place, ?_, (hP s hs).2 h⟩
  rw [places_eq_map, ← placeAt_length]
  exact List.mem_map_of_mem (List.mem_range.2 (Nat.lt_succ_of_le (length_front_le s)))

include hword hP in
theorem exists_of_find?_places {p : Place} (h : (places cs).find? q = some p) :
    ∃ s : Stretch, s.text = cs ∧ s.word = word ∧ s.place = p ∧ s.IsFirst P := by
  rw [places_eq_map, List.find?_map, Option.map_eq_some_iff] at h
  obtain ⟨k, hfind, rfl⟩ := h
  obtain ⟨hq, hk, hearlier⟩ := List.find?_range_eq_some.1 hfind
  have hle : k ≤ cs.length := Nat.le_of_lt_succ (List.mem_range.1 hk)
  obtain ⟨s, rfl, rfl, rfl⟩ := exists_stretch hle (hword _ hq)
  have hplace : placeAt s.text s.front.length = s.place := placeAt_length s
  refine ⟨s, rfl, rfl, hplace.symm, (hP s rfl).1 (hplace ▸ hq), ?_⟩
  intro o htext ho hPo
  by_contra hlt
  have hnot := hearlier o.front.length (Nat.lt_of_not_le hlt)
  rw [Function.comp_apply, ← htext, placeAt_length, (hP o ho).2 hPo] at hnot
  exact Bool.false_ne_true hnot

include hword hP in
theorem map_span_find?_iff {s : Stretch} (htext : s.text = cs) (hs : s.word = word) :
    ((places cs).find? q).map (·.span word) = some s.span ↔ s.IsFirst P := by
  rw [Option.map_eq_some_iff]
  constructor
  · rintro ⟨p, hfind, hspan⟩
    obtain ⟨o, hotext, ho, rfl, hfirst⟩ := exists_of_find?_places hword hP hfind
    rw [← ho, Stretch.span_place] at hspan
    rwa [Stretch.eq_of_span_eq (htext.trans hotext.symm) hspan.symm]
  · intro hfirst
    obtain ⟨p, hfind⟩ := Option.isSome_iff_exists.1
      (find?_places_isSome hP htext hs hfirst.holds)
    obtain ⟨o, hotext, ho, rfl, hofirst⟩ := exists_of_find?_places hword hP hfind
    have hsame : o.text = s.text := hotext.trans htext.symm
    have hle := hfirst.first o hsame (ho.trans hs.symm) hofirst.holds
    have hge := hofirst.first s hsame.symm (hs.trans ho.symm) hfirst.holds
    obtain rfl := Stretch.eq_of_length_eq hsame (ho.trans hs.symm) (Nat.le_antisymm hge hle)
    exact ⟨_, hfind, by rw [← hs, Stretch.span_place]⟩

end Find

/-! ### Occurrences without overlap -/

/-- Behind the places that are passed over, each place of the word is found or reached into. -/
theorem exists_mem_occurrencesFrom {word : List Char} (hne : word ≠ []) {skip : Nat}
    {ps : List Place} {k : Nat} (hskip : skip ≤ k) {p : Place} (hp : ps[k]? = some p)
    (hword : word.isPrefixOf p.rest = true) :
    ∃ i p', i ≤ k ∧ k < i + word.length ∧ ps[i]? = some p' ∧
      p' ∈ occurrencesFrom word skip ps := by
  have hlength : 0 < word.length := List.length_pos_of_ne_nil hne
  induction ps generalizing skip k with
  | nil => simp at hp
  | cons first ps ih =>
    cases skip with
    | succ skip =>
      obtain ⟨k, rfl⟩ := Nat.exists_eq_add_one_of_ne_zero (Nat.ne_of_gt (Nat.lt_of_lt_of_le
        skip.succ_pos hskip))
      obtain ⟨i, p', hle, hlt, hi, hmem⟩ := ih (Nat.le_of_succ_le_succ hskip) hp
      exact ⟨i + 1, p', Nat.succ_le_succ hle, by omega, hi, hmem⟩
    | zero =>
      rw [occurrencesFrom]
      by_cases hfirst : word.isPrefixOf first.rest = true
      · rw [if_pos hfirst]
        by_cases hreach : k < word.length
        · exact ⟨0, first, Nat.zero_le _, by omega, rfl, List.mem_cons_self⟩
        · obtain ⟨k, rfl⟩ := Nat.exists_eq_add_one_of_ne_zero (by omega : k ≠ 0)
          obtain ⟨i, p', hle, hlt, hi, hmem⟩ := ih (by omega : word.length - 1 ≤ k) hp
          exact ⟨i + 1, p', by omega, by omega, hi, List.mem_cons_of_mem _ hmem⟩
      · rw [if_neg hfirst]
        have hk : k ≠ 0 := by
          rintro rfl
          cases hp
          exact hfirst hword
        obtain ⟨k, rfl⟩ := Nat.exists_eq_add_one_of_ne_zero hk
        obtain ⟨i, p', hle, hlt, hi, hmem⟩ := ih (Nat.zero_le k) hp
        exact ⟨i + 1, p', by omega, by omega, hi, hmem⟩

/-- Where a word stands, an occurrence of it is found that begins there, or that begins earlier and
reaches over this place. -/
theorem exists_mem_occurrences {s : Stretch} (hne : s.word ≠ []) :
    ∃ o : Stretch, o.text = s.text ∧ o.word = s.word ∧ o.front.length ≤ s.front.length ∧
      s.front.length < o.front.length + s.word.length ∧
      o.place ∈ occurrences s.word s.text := by
  have hplace : (places s.text)[s.front.length]? = some s.place := by
    rw [places_eq_map, List.getElem?_map,
      List.getElem?_range (Nat.lt_succ_of_le (length_front_le s)), Option.map_some, placeAt_length]
  have hbegins : s.word.isPrefixOf s.place.rest = true :=
    List.isPrefixOf_iff_prefix.2 (List.prefix_append s.word s.back)
  obtain ⟨i, p, hle, hlt, hp, hmem⟩ := exists_mem_occurrencesFrom hne (Nat.zero_le _) hplace hbegins
  have hi : i ≤ s.text.length := Nat.le_trans hle (length_front_le s)
  rw [places_eq_map, List.getElem?_map, List.getElem?_range (Nat.lt_succ_of_le hi),
    Option.map_some, Option.some.injEq] at hp
  subst hp
  obtain ⟨o, hotext, ho, rfl⟩ :=
    exists_stretch hi (List.isPrefixOf_iff_prefix.1 (mem_occurrencesFrom hmem).2)
  refine ⟨o, hotext, ho, hle, hlt, ?_⟩
  rwa [← hotext, placeAt_length, hotext] at hmem

/-- What is found is a stretch with the word. -/
theorem exists_of_mem_occurrences {word cs : List Char} {p : Place} (h : p ∈ occurrences word cs) :
    ∃ s : Stretch, s.text = cs ∧ s.word = word ∧ s.place = p := by
  obtain ⟨hp, hword⟩ := mem_occurrencesFrom h
  rw [places_eq_map] at hp
  obtain ⟨k, hk, rfl⟩ := List.mem_map.1 hp
  have hle : k ≤ cs.length := Nat.le_of_lt_succ (List.mem_range.1 hk)
  obtain ⟨s, rfl, hs, rfl⟩ := exists_stretch hle (List.isPrefixOf_iff_prefix.1 hword)
  exact ⟨s, rfl, hs, (placeAt_length s).symm⟩

end PluralForms.Text
