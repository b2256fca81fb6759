import PluralForms.Proofs.Text.Pieces
import PluralForms.Text.Offset

/-!
# Stretches of a text

A stretch is a part of a text together with all that stands around it. Texts that are cut and
trimmed forget where their parts came from; stretches that are cut and trimmed in the same way do
not, since each part stands inside the stretch that it was taken from:

    map_word_splitOn : (s.splitOn sep).map word = splitOn sep s.word
    within_of_mem_splitOn : t ∈ s.splitOn sep → t.Within s

* `eq_of_span_eq` - of one text, a stretch is known by its first byte and its length;
* `Within.exists_splitOn`, `Within.trim`, `Within.skip` - a word inside a stretch stays inside a
  part of it, as long as the word has nothing of what is taken off.
-/

namespace PluralForms.Text

/-- A part of a text: what stands in front of it, the part itself, and what stands behind it. -/
@[ext] structure Stretch where
  front : List Char
  word : List Char
  back : List Char
  deriving DecidableEq

namespace Stretch

/-- The text that the stretch is a part of. -/
def text (s : Stretch) : List Char := s.front ++ (s.word ++ s.back)

/-- A text as a stretch of itself. -/
def whole (cs : List Char) : Stretch := ⟨[], cs, []⟩

/-- Where the stretch stands, in bytes. -/
def span (s : Stretch) : Span := ⟨byteLength s.front, byteLength s.word⟩

/-- The stretch `o` stands inside `s`. -/
def Within (o s : Stretch) : Prop :=
  ∃ before behind, o.front = s.front ++ before ∧ s.word = before ++ (o.word ++ behind) ∧
    o.back = behind ++ s.back

variable {s t o : Stretch} {sep lead front back : List Char} {pieces : List (List Char)}

theorem text_whole (cs : List Char) : (whole cs).text = cs := by
  simp [whole, text]

theorem Within.refl (s : Stretch) : s.Within s := ⟨[], [], by simp⟩

theorem Within.trans (h : o.Within t) (ht : t.Within s) : o.Within s := by
  obtain ⟨before, behind, hfront, hword, hback⟩ := h
  obtain ⟨before', behind', hfront', hword', hback'⟩ := ht
  refine ⟨before' ++ before, behind ++ behind', ?_, ?_, ?_⟩
  · rw [hfront, hfront', List.append_assoc]
  · rw [hword', hword]
    simp only [List.append_assoc]
  · rw [hback, hback', List.append_assoc]

theorem Within.text_eq (h : o.Within s) : o.text = s.text := by
  obtain ⟨before, behind, hfront, hword, hback⟩ := h
  simp only [text, hfront, hword, hback, List.append_assoc]

theorem Within.length_le (h : o.Within s) : s.front.length ≤ o.front.length := by
  obtain ⟨before, -, hfront, -, -⟩ := h
  rw [hfront, List.length_append]
  exact Nat.le_add_right _ _

theorem Within.end_le (h : o.Within s) :
    o.front.length + o.word.length ≤ s.front.length + s.word.length := by
  obtain ⟨before, behind, hfront, hword, -⟩ := h
  rw [hfront, hword, List.length_append, List.length_append, List.length_append]
  omega

theorem Within.word_ne_nil (h : o.Within s) (hne : o.word ≠ []) : s.word ≠ [] := by
  obtain ⟨before, behind, -, hword, -⟩ := h
  rw [hword]
  exact List.append_ne_nil_of_right_ne_nil before (List.append_ne_nil_of_left_ne_nil hne behind)

theorem Within.eq_of_word_eq (h : o.Within s) (hword : o.word = s.word) : o = s := by
  obtain ⟨before, behind, hfront, hparts, hback⟩ := h
  have hlength := congrArg List.length hparts
  rw [hword, List.length_append, List.length_append] at hlength
  obtain rfl : before = [] := List.eq_nil_of_length_eq_zero (by omega)
  obtain rfl : behind = [] := List.eq_nil_of_length_eq_zero (by omega)
  rw [List.append_nil] at hfront
  exact Stretch.ext hfront hword hback

/-! ### Bytes -/

/-- The parts of a text are known by the bytes that they take. -/
theorem append_inj_byteLength {as bs cs ds : List Char} (h : as ++ bs = cs ++ ds)
    (hbytes : byteLength as = byteLength cs) : as = cs ∧ bs = ds := by
  induction as generalizing cs with
  | nil =>
    cases cs with
    | nil => exact ⟨rfl, h⟩
    | cons c cs =>
      have hpos : 0 < c.utf8Size := c.utf8Size_pos
      rw [byteLength_nil, byteLength_cons] at hbytes
      omega
  | cons a as ih =>
    cases cs with
    | nil =>
      have hpos : 0 < a.utf8Size := a.utf8Size_pos
      rw [byteLength_nil, byteLength_cons] at hbytes
      omega
    | cons c cs =>
      obtain ⟨rfl, hrest⟩ := List.cons.inj h
      rw [byteLength_cons, byteLength_cons] at hbytes
      obtain ⟨rfl, rfl⟩ := ih hrest (Nat.add_left_cancel hbytes)
      exact ⟨rfl, rfl⟩

theorem eq_of_span_eq (htext : s.text = t.text) (h : s.span = t.span) : s = t := by
  obtain ⟨hoffset, hlength⟩ := Span.mk.inj h
  obtain ⟨hfront, hrest⟩ := append_inj_byteLength htext hoffset
  obtain ⟨hword, hback⟩ := append_inj_byteLength hrest hlength
  exact Stretch.ext hfront hword hback

/-- Stretches of one text with the same word in front of which equally much stands. -/
theorem eq_of_length_eq (htext : s.text = t.text) (hword : s.word = t.word)
    (h : s.front.length = t.front.length) : s = t := by
  obtain ⟨hfront, hrest⟩ := List.append_inj htext h
  rw [hword] at hrest
  exact Stretch.ext hfront hword (List.append_cancel_left hrest)

/-- What begins no earlier and ends no later stands inside. -/
theorem within_of_length_le (htext : o.text = s.text) (hfront : s.front.length ≤ o.front.length)
    (hend : o.front.length + o.word.length ≤ s.front.length + s.word.length) : o.Within s := by
  have hsplit : o.front ++ (o.word ++ o.back) = s.front ++ (s.word ++ s.back) := htext
  have hends : (o.front ++ o.word).length ≤ (s.front ++ s.word).length := by simpa using hend
  obtain ⟨before, hbefore⟩ : s.front <+: o.front :=
    List.prefix_of_prefix_length_le ⟨_, rfl⟩ ⟨_, hsplit⟩ hfront
  rw [← List.append_assoc, ← List.append_assoc] at hsplit
  obtain ⟨behind, hbehind⟩ : o.front ++ o.word <+: s.front ++ s.word :=
    List.prefix_of_prefix_length_le ⟨_, rfl⟩ ⟨_, hsplit.symm⟩ hends
  refine ⟨before, behind, hbefore.symm, ?_, ?_⟩
  · rw [← hbefore, List.append_assoc, List.append_assoc] at hbehind
    exact (List.append_cancel_left hbehind).symm
  · rw [← hbehind, List.append_assoc, List.append_assoc, List.append_assoc] at hsplit
    exact List.append_cancel_left (List.append_cancel_left hsplit)

/-! ### Cutting -/

/-- Pieces where they stand when they are joined by `sep`, with `front` in front of the first one
and `back` behind the last. -/
def joined (sep back : List Char) : List Char → List (List Char) → List Stretch
  | _, [] => []
  | front, [piece] => [⟨front, piece, back⟩]
  | front, piece :: next :: pieces =>
    ⟨front, piece, sep ++ (sep.intercalate (next :: pieces) ++ back)⟩ ::
      joined sep back (front ++ (piece ++ sep)) (next :: pieces)

/-- The pieces of a stretch between the occurrences of `sep`. -/
def splitOn (sep : List Char) (s : Stretch) : List Stretch :=
  joined sep s.back s.front (Text.splitOn sep s.word)

theorem map_word_joined : (joined sep back front pieces).map word = pieces := by
  induction pieces generalizing front with
  | nil => rfl
  | cons piece pieces ih =>
    cases pieces with
    | nil => rfl
    | cons next pieces => rw [joined, List.map_cons, ih]

theorem map_word_splitOn (sep : List Char) (s : Stretch) :
    (s.splitOn sep).map word = Text.splitOn sep s.word :=
  map_word_joined

theorem within_of_mem_joined (h : t ∈ joined sep back front pieces) :
    t.Within ⟨front, sep.intercalate pieces, back⟩ := by
  induction pieces generalizing front with
  | nil => exact absurd h List.not_mem_nil
  | cons piece pieces ih =>
    cases pieces with
    | nil =>
      obtain rfl := List.mem_singleton.1 h
      exact ⟨[], [], by simp⟩
    | cons next pieces =>
      rw [List.intercalate_cons_cons]
      rcases List.mem_cons.1 h with rfl | h
      · exact ⟨[], sep ++ sep.intercalate (next :: pieces), by simp⟩
      · exact (ih h).trans ⟨piece ++ sep, [], by simp⟩

theorem within_of_mem_splitOn (hsep : sep ≠ []) (h : t ∈ s.splitOn sep) : t.Within s := by
  have hwithin := within_of_mem_joined h
  rwa [(divided_splitOn hsep s.word).2] at hwithin

/-- A piece begins where the text does, or behind a mark, and it ends in the same way. -/
theorem ends_of_mem_joined {mark : Char} (h : t ∈ joined [mark] back front pieces) :
    (t.front = front ∨ ∃ before, t.front = before ++ [mark]) ∧
      (t.back = back ∨ ∃ behind, t.back = mark :: behind) := by
  induction pieces generalizing front with
  | nil => exact absurd h List.not_mem_nil
  | cons piece pieces ih =>
    cases pieces with
    | nil =>
      obtain rfl := List.mem_singleton.1 h
      exact ⟨Or.inl rfl, Or.inl rfl⟩
    | cons next pieces =>
      rcases List.mem_cons.1 h with rfl | h
      · exact ⟨Or.inl rfl, Or.inr ⟨_, rfl⟩⟩
      · obtain ⟨hfront, hback⟩ := ih h
        refine ⟨Or.inr ?_, hback⟩
        rcases hfront with hfront | hfront
        · exact ⟨front ++ piece, by rw [hfront, List.append_assoc]⟩
        · exact hfront

theorem ends_of_mem_splitOn {mark : Char} (h : t ∈ s.splitOn [mark]) :
    (t.front = s.front ∨ ∃ before, t.front = before ++ [mark]) ∧
      (t.back = s.back ∨ ∃ behind, t.back = mark :: behind) :=
  ends_of_mem_joined h

/-- The first piece begins where the text does, and has what stands before the first mark; all
others begin behind a mark. -/
theorem exists_splitOn_eq_cons (mark : Char) (s : Stretch) :
    ∃ t ts, s.splitOn [mark] = t :: ts ∧ t.front = s.front ∧ mark ∉ t.word ∧
      ∀ t' ∈ ts, ∃ before, t'.front = before ++ [mark] := by
  have hword := map_word_splitOn [mark] s
  unfold splitOn at hword ⊢
  obtain ⟨piece, pieces, hpieces⟩ :=
    List.exists_cons_of_ne_nil (splitOn_ne_nil [mark] s.word)
  have hpiece : mark ∉ piece := of_mem_splitOn_mark (hpieces ▸ List.mem_cons_self)
  rw [hpieces]
  cases pieces with
  | nil => exact ⟨_, [], rfl, rfl, hpiece, fun _ h => absurd h List.not_mem_nil⟩
  | cons next pieces =>
    refine ⟨_, _, rfl, rfl, hpiece, fun t' ht' => ?_⟩
    rcases (ends_of_mem_joined ht').1 with hfront | hfront
    · exact ⟨s.front ++ piece, by rw [hfront, List.append_assoc]⟩
    · exact hfront

/-! ### Taking off what stands at the ends -/

/-- The blanks that a text ends in, if it is not blank. -/
def trailingBlanks (cs : List Char) : List Char :=
  ((trimStart cs).reverse.takeWhile isBlank).reverse

theorem isBlankRun_trailingBlanks (cs : List Char) : IsBlankRun (trailingBlanks cs) :=
  fun c hc => run_takeWhile _ c (List.mem_reverse.1 hc)

theorem trim_between_blanks (cs : List Char) :
    leadingBlanks cs ++ (Text.trim cs ++ trailingBlanks cs) = cs := by
  have hend : Text.trim cs ++ trailingBlanks cs = trimStart cs := by
    unfold Text.trim trimEnd trailingBlanks
    rw [← List.reverse_append, List.takeWhile_append_dropWhile, List.reverse_reverse]
  rw [hend]
  exact List.takeWhile_append_dropWhile

/-- The stretch without the blanks at its ends. -/
def trim (s : Stretch) : Stretch :=
  ⟨s.front ++ leadingBlanks s.word, Text.trim s.word, trailingBlanks s.word ++ s.back⟩

/-- The stretch without its first characters, as many as `lead` has. -/
def skip (lead : List Char) (s : Stretch) : Stretch :=
  ⟨s.front ++ s.word.take lead.length, s.word.drop lead.length, s.back⟩

/-- The first character of the stretch. -/
def first (s : Stretch) : Stretch := ⟨s.front, s.word.take 1, s.word.drop 1 ++ s.back⟩

theorem trim_within (s : Stretch) : s.trim.Within s :=
  ⟨leadingBlanks s.word, trailingBlanks s.word, rfl, (trim_between_blanks s.word).symm, rfl⟩

theorem skip_within (lead : List Char) (s : Stretch) : (s.skip lead).Within s :=
  ⟨s.word.take lead.length, [], rfl, by simp [skip], rfl⟩

theorem first_within (s : Stretch) : s.first.Within s :=
  ⟨[], s.word.drop 1, (List.append_nil _).symm, (List.take_append_drop 1 s.word).symm, rfl⟩

/-! ### What stays inside -/

/-- What comes before a word and cannot begin it stands in front of it. -/
theorem exists_of_append_eq {run rest before word : List Char} (h : run ++ rest = before ++ word)
    (hhead : ∀ c ∈ word.head?, c ∉ run) :
    ∃ between, before = run ++ between ∧ rest = between ++ word := by
  rcases List.append_eq_append_iff.1 h with ⟨between, hbefore, hrest⟩ | ⟨left, hrun, hleft⟩
  · exact ⟨between, hbefore, hrest⟩
  · cases left with
    | nil =>
      rw [List.append_nil] at hrun
      exact ⟨[], by simp [hrun], by simpa using hleft.symm⟩
    | cons c left =>
      refine absurd ?_ (hhead c (by simp [hleft]))
      simp [hrun]

/-- What comes behind a word and cannot end it stands behind it. -/
theorem exists_of_append_eq' {run rest word behind : List Char} (h : rest ++ run = word ++ behind)
    (hlast : ∀ c ∈ word.getLast?, c ∉ run) :
    ∃ between, behind = between ++ run ∧ rest = word ++ between := by
  have hreverse : run.reverse ++ rest.reverse = behind.reverse ++ word.reverse := by
    simpa using congrArg List.reverse h
  obtain ⟨between, hbehind, hrest⟩ := exists_of_append_eq hreverse (by simpa using hlast)
  refine ⟨between.reverse, ?_, ?_⟩
  · simpa using congrArg List.reverse hbehind
  · simpa using congrArg List.reverse hrest

theorem Within.trim (h : o.Within s) (hne : o.word ≠ []) (ho : Trimmed o.word) :
    o.Within s.trim := by
  obtain ⟨before, behind, hfront, hword, hback⟩ := h
  have hleading : ∀ c ∈ (o.word ++ behind).head?, c ∉ leadingBlanks s.word := by
    intro c hc hmem
    rw [List.head?_append_of_ne_nil _ hne] at hc
    have hblank : isBlank c = true := run_takeWhile s.word c hmem
    rw [ho.first c hc] at hblank
    exact Bool.false_ne_true hblank
  have hparts := (trim_between_blanks s.word).trans hword
  obtain ⟨before', hbefore, hrest⟩ := exists_of_append_eq hparts hleading
  have htrailing : ∀ c ∈ (before' ++ o.word).getLast?, c ∉ trailingBlanks s.word := by
    intro c hc hmem
    rw [List.getLast?_append_of_ne_nil _ hne] at hc
    have hblank : isBlank c = true := isBlankRun_trailingBlanks s.word c hmem
    rw [ho.last c hc] at hblank
    exact Bool.false_ne_true hblank
  rw [← List.append_assoc] at hrest
  obtain ⟨behind', hbehind, hrest'⟩ := exists_of_append_eq' hrest htrailing
  refine ⟨before', behind', ?_, ?_, ?_⟩
  · show o.front = s.front ++ leadingBlanks s.word ++ before'
    rw [hfront, hbefore, List.append_assoc]
  · show Text.trim s.word = _
    rw [hrest', List.append_assoc]
  · show o.back = behind' ++ (trailingBlanks s.word ++ s.back)
    rw [hback, hbehind, List.append_assoc]

theorem Within.skip (h : o.Within s) (hne : o.word ≠ []) (hlead : lead <+: s.word)
    (ho : ∀ c ∈ o.word.head?, c ∉ lead) : o.Within (s.skip lead) := by
  obtain ⟨before, behind, hfront, hword, hback⟩ := h
  obtain ⟨rest, hrest⟩ := hlead
  obtain ⟨before', hbefore, hrest'⟩ := exists_of_append_eq (hrest.trans hword) (by
    intro c hc
    rw [List.head?_append_of_ne_nil _ hne] at hc
    exact ho c hc)
  refine ⟨before', behind, ?_, ?_, hback⟩
  · show o.front = s.front ++ s.word.take lead.length ++ before'
    rw [hfront, hbefore, ← hrest, List.take_left, List.append_assoc]
  · show s.word.drop lead.length = _
    rw [← hrest, List.drop_left, hrest']

/-- A word without the mark stands on one side of it. -/
theorem exists_of_append_mark {mark : Char} {piece rest before word behind : List Char}
    (h : piece ++ mark :: rest = before ++ (word ++ behind)) (hword : mark ∉ word) :
    (∃ left, piece = before ++ (word ++ left) ∧ behind = left ++ mark :: rest) ∨
      ∃ right, before = piece ++ mark :: right ∧ rest = right ++ (word ++ behind) := by
  rcases List.append_eq_append_iff.1 h with ⟨right, rfl, hright⟩ | ⟨left, rfl, hleft⟩
  · cases right with
    | nil =>
      -- the word would begin with the mark, so there is no word
      cases word with
      | nil => exact Or.inl ⟨[], by simp, by simpa using hright.symm⟩
      | cons c word =>
        obtain ⟨rfl, -⟩ := List.cons.inj hright
        exact absurd List.mem_cons_self hword
    | cons c right =>
      obtain ⟨rfl, hrest⟩ := List.cons.inj hright
      exact Or.inr ⟨right, rfl, hrest⟩
  · have hhead : ∀ c ∈ (mark :: rest).head?, c ∉ word := by
      intro c hc
      obtain rfl : mark = c := by simpa using hc
      exact hword
    obtain ⟨left', rfl, hbehind⟩ := exists_of_append_eq hleft hhead
    exact Or.inl ⟨left', rfl, hbehind⟩

theorem exists_joined_within {mark : Char} {word : List Char} (hne : pieces ≠ [])
    (hword : mark ∉ word) {before behind : List Char}
    (h : [mark].intercalate pieces = before ++ (word ++ behind)) :
    ∃ t ∈ joined [mark] back front pieces,
      (mk (front ++ before) word (behind ++ back)).Within t := by
  induction pieces generalizing front before with
  | nil => exact absurd rfl hne
  | cons piece pieces ih =>
    cases pieces with
    | nil =>
      rw [List.intercalate_singleton] at h
      exact ⟨_, List.mem_cons_self, before, behind, rfl, h, rfl⟩
    | cons next pieces =>
      rw [List.intercalate_cons_cons, List.append_assoc] at h
      rcases exists_of_append_mark h hword with ⟨left, rfl, rfl⟩ | ⟨right, rfl, hrest⟩
      · exact ⟨_, List.mem_cons_self, before, left, rfl, rfl, by simp⟩
      · have hfront : front ++ (piece ++ mark :: right) =
            front ++ (piece ++ [mark]) ++ right := by simp
        rw [hfront]
        obtain ⟨t, ht, hwithin⟩ := ih (List.cons_ne_nil _ _) hrest
        exact ⟨t, List.mem_cons_of_mem _ ht, hwithin⟩

/-- A word without the mark stands inside one of the pieces between the marks. -/
theorem Within.exists_splitOn {mark : Char} (h : o.Within s) (ho : mark ∉ o.word) :
    ∃ t ∈ s.splitOn [mark], o.Within t := by
  obtain ⟨before, behind, hfront, hword, hback⟩ := h
  obtain ⟨front, word, back⟩ := o
  subst hfront hback
  apply exists_joined_within (splitOn_ne_nil [mark] s.word) ho
  rw [intercalate_splitOn_mark]
  exact hword

/-- The stretch stands in an occurrence of `sep`. -/
def InSeparator (sep : List Char) (o : Stretch) : Prop :=
  ∃ u v, sep = u ++ (o.word ++ v) ∧ u <:+ o.front ∧ v <+: o.back

/-- A character of two texts that are joined belongs to one of them. -/
theorem exists_of_append_eq_cons {as bs before behind : List Char} {c : Char}
    (h : as ++ bs = before ++ c :: behind) :
    (∃ left, as = before ++ c :: left ∧ behind = left ++ bs) ∨
      ∃ right, before = as ++ right ∧ bs = right ++ c :: behind := by
  induction as generalizing before with
  | nil => exact Or.inr ⟨before, rfl, h⟩
  | cons a as ih =>
    cases before with
    | nil =>
      obtain ⟨rfl, rfl⟩ := List.cons.inj h
      exact Or.inl ⟨as, rfl, rfl⟩
    | cons b before =>
      obtain ⟨rfl, hrest⟩ := List.cons.inj h
      rcases ih hrest with ⟨left, rfl, hleft⟩ | ⟨right, rfl, hright⟩
      · exact Or.inl ⟨left, rfl, hleft⟩
      · exact Or.inr ⟨right, rfl, hright⟩

theorem exists_joined_within_or {c : Char} (hne : pieces ≠ []) {before behind : List Char}
    (h : sep.intercalate pieces = before ++ c :: behind) :
    (∃ t ∈ joined sep back front pieces,
      (mk (front ++ before) [c] (behind ++ back)).Within t) ∨
      (mk (front ++ before) [c] (behind ++ back)).InSeparator sep := by
  induction pieces generalizing front before with
  | nil => exact absurd rfl hne
  | cons piece pieces ih =>
    cases pieces with
    | nil =>
      rw [List.intercalate_singleton] at h
      exact Or.inl ⟨_, List.mem_cons_self, before, behind, rfl, h, rfl⟩
    | cons next pieces =>
      rw [List.intercalate_cons_cons, List.append_assoc] at h
      rcases exists_of_append_eq_cons h with ⟨left, rfl, rfl⟩ | ⟨u, rfl, hu⟩
      · exact Or.inl ⟨_, List.mem_cons_self, before, left, rfl, rfl, by simp⟩
      rcases exists_of_append_eq_cons hu with ⟨v, hsep, rfl⟩ | ⟨right, rfl, hright⟩
      · refine Or.inr ⟨u, v, hsep, ⟨front ++ piece, by simp⟩, ?_⟩
        exact ⟨sep.intercalate (next :: pieces) ++ back, by simp⟩
      · have hfront : front ++ (piece ++ (sep ++ right)) = front ++ (piece ++ sep) ++ right := by
          simp
        rw [hfront]
        rcases ih (List.cons_ne_nil _ _) hright with ⟨t, ht, hwithin⟩ | hin
        · exact Or.inl ⟨t, List.mem_cons_of_mem _ ht, hwithin⟩
        · exact Or.inr hin

/-- A character of a stretch stands in one of the pieces or in a separator. -/
theorem Within.exists_splitOn_or (h : o.Within s) (sep : List Char) (hsep : sep ≠ []) {c : Char}
    (ho : o.word = [c]) :
    (∃ t ∈ s.splitOn sep, o.Within t) ∨ o.InSeparator sep := by
  obtain ⟨before, behind, hfront, hword, hback⟩ := h
  obtain ⟨front, word, back⟩ := o
  obtain rfl : word = [c] := ho
  subst hfront hback
  apply exists_joined_within_or (splitOn_ne_nil sep s.word)
  rw [(divided_splitOn hsep s.word).2]
  exact hword

end Stretch

end PluralForms.Text
