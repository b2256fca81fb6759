import PluralForms.Proofs.Text.Words

/-!
# Joining pieces that have changed

A text is cut at a separator, each piece gives way to another text, and the new pieces are joined
again. They are cut apart at other places only if a separator has come into being where there was
none before, and so only if a new piece has the word of the separator more often than the old one,
or has lost it at an end (`Thinned`). Otherwise

    splitOn_rejoined : splitOn sep (sep.intercalate (pieces.map f)) = pieces.map f

* `splitOn_intercalate_or` - how pieces are cut apart when the word stands at the end of one;
* `thinned_trim` - trimming a text can bring the word to light behind a blank that is no space, and
  but for that (`Hides`) it only takes words away.
-/

namespace PluralForms.Text

variable {word : List Char}

/-! ### Words at the ends of a text -/

theorem head?_words (cs : List Char) : (words cs).head? = some (cs.takeWhile (· != ' ')) := by
  unfold words
  rw [splitOn_mark, List.head?_cons]

theorem getLast?_words (cs : List Char) :
    (words cs).getLast? = (words cs.reverse).head?.map List.reverse := by
  rw [words_reverse, List.head?_map, List.head?_reverse, Option.map_map]
  simp

theorem prefix_of_head?_words {cs : List Char} (h : (words cs).head? = some word) :
    word <+: cs := by
  rw [head?_words, Option.some_inj] at h
  rw [← h]
  exact List.takeWhile_prefix _

theorem suffix_of_getLast?_words {cs : List Char} (h : (words cs).getLast? = some word) :
    word <:+ cs := by
  rw [getLast?_words, Option.map_eq_some_iff] at h
  obtain ⟨first, hfirst, rfl⟩ := h
  rw [← List.reverse_prefix, List.reverse_reverse]
  exact prefix_of_head?_words hfirst

theorem infix_of_mem_words {cs : List Char} (h : word ∈ words cs) : word <:+: cs :=
  infix_of_mem_splitOn (List.cons_ne_nil ' ' []) h

/-! ### Words that are not added -/

/-- The word stands in the second text no more often than in the first, and still at the ends where
it stands in the first. -/
structure Thinned (word cs cs' : List Char) : Prop where
  count_le : (words cs').count word ≤ (words cs).count word
  first : (words cs).head? = some word → (words cs').head? = some word
  last : (words cs).getLast? = some word → (words cs').getLast? = some word

/-- What counts one if a condition holds grows with the condition. -/
theorem indicator_le {p q : Prop} [Decidable p] [Decidable q] (h : p → q) :
    (if p then 1 else 0) ≤ (if q then 1 else 0) := by
  by_cases hp : p
  · rw [if_pos hp, if_pos (h hp)]
  · rw [if_neg hp]
    exact Nat.zero_le _

theorem count_eq_first_add (ws : List (List Char)) :
    ws.count word = (if ws.head? = some word then 1 else 0) + ws.tail.count word := by
  cases ws with
  | nil => rfl
  | cons first ws =>
    rw [List.count_cons, List.head?_cons, List.tail_cons, Nat.add_comm]
    simp

theorem count_eq_add_last (ws : List (List Char)) :
    ws.count word = ws.dropLast.count word + (if ws.getLast? = some word then 1 else 0) := by
  rcases List.eq_nil_or_concat ws with rfl | ⟨init, last, rfl⟩
  · rfl
  · rw [List.concat_eq_append, List.count_append, List.count_singleton, List.dropLast_concat,
      List.getLast?_concat]
    simp

theorem Thinned.trans {as bs cs : List Char} (h : Thinned word as bs) (h' : Thinned word bs cs) :
    Thinned word as cs where
  count_le := h'.count_le.trans h.count_le
  first := fun hfirst => h'.first (h.first hfirst)
  last := fun hlast => h'.last (h.last hlast)

theorem Thinned.uncut {cs cs' : List Char} (hword : ' ' ∉ word) (h : Thinned word cs cs')
    (hcs : Uncut (spaced word) cs) : Uncut (spaced word) cs' := by
  rw [uncut_spaced_iff hword, ← List.count_eq_zero] at hcs ⊢
  have hcount := h.count_le
  have hfirst := indicator_le h.first
  rw [count_eq_first_add, count_eq_first_add (words cs), hcs] at hcount
  omega

theorem Thinned.not_isInfix {cs cs' : List Char} (hword : ' ' ∉ word) (h : Thinned word cs cs')
    (hcs : ¬spaced word <:+: cs) : ¬spaced word <:+: cs' := by
  rw [spaced_infix_iff hword, ← List.count_eq_zero] at hcs ⊢
  by_cases hone : (words cs').length = 1
  · obtain ⟨only, honly⟩ := List.length_eq_one_iff.1 hone
    rw [honly]
    rfl
  · -- the last word of either text is counted once more than the words between the ends
    have hcount := h.count_le
    have hfirst := indicator_le h.first
    have hlast : (if (words cs).tail.getLast? = some word then 1 else 0) ≤
        (if (words cs').tail.getLast? = some word then 1 else 0) := by
      apply indicator_le
      intro hend
      rw [List.getLast?_tail] at hend
      rw [List.getLast?_tail, if_neg hone]
      split at hend
      · simp at hend
      · exact h.last hend
    rw [count_eq_first_add, count_eq_add_last (words cs').tail, count_eq_first_add (words cs),
      count_eq_add_last (words cs).tail, hcs] at hcount
    omega

theorem Thinned.join {joint front front' back back' : List Char} (hjoint : ' ' ∉ joint)
    (hfront : Thinned word front front') (hback : Thinned word back back') :
    Thinned word (front ++ (spaced joint ++ back)) (front' ++ (spaced joint ++ back')) := by
  have hcount := hfront.count_le
  have hcount' := hback.count_le
  refine ⟨?_, fun hfirst => ?_, fun hlast => ?_⟩
  · rw [words_append_spaced hjoint, words_append_spaced hjoint, List.count_append,
      List.count_append, List.count_cons, List.count_cons]
    omega
  · rw [words_append_spaced hjoint, List.head?_append_of_ne_nil _ (words_ne_nil _)] at hfirst ⊢
    exact hfront.first hfirst
  · rw [words_append_spaced hjoint, List.getLast?_append_of_ne_nil _ (List.cons_ne_nil _ _),
      List.getLast?_cons_of_ne_nil (words_ne_nil _)] at hlast ⊢
    exact hback.last hlast

/-- Pieces are joined by the same separator before and after. -/
theorem Thinned.intercalate {joint : List Char} {f : List Char → List Char}
    {pieces : List (List Char)} (hjoint : ' ' ∉ joint)
    (h : ∀ piece ∈ pieces, Thinned word piece (f piece)) (hne : pieces ≠ []) :
    Thinned word ((spaced joint).intercalate pieces)
      ((spaced joint).intercalate (pieces.map f)) := by
  induction pieces with
  | nil => exact absurd rfl hne
  | cons piece pieces ih =>
    obtain ⟨hpiece, hpieces⟩ := List.forall_mem_cons.1 h
    cases pieces with
    | nil => simpa using hpiece
    | cons next pieces =>
      have hrest := ih hpieces (List.cons_ne_nil next pieces)
      rw [List.map_cons] at hrest
      rw [List.map_cons, List.map_cons, List.intercalate_cons_cons, List.intercalate_cons_cons,
        List.append_assoc, List.append_assoc]
      exact hpiece.join hjoint hrest

theorem Divided.map {f : List Char → List Char} {pieces : List (List Char)} (hword : ' ' ∉ word)
    (h : Divided (spaced word) pieces) (hf : ∀ piece ∈ pieces, Thinned word piece (f piece)) :
    Divided (spaced word) (pieces.map f) := by
  induction h with
  | last hlast => exact .last ((List.forall_mem_singleton.1 hf).not_isInfix hword hlast)
  | cons hpiece _ ih =>
    obtain ⟨hfirst, hothers⟩ := List.forall_mem_cons.1 hf
    exact .cons (hfirst.uncut hword hpiece) (ih hothers)

/-- The new pieces are cut where they are joined. -/
theorem splitOn_rejoined {f : List Char → List Char} {cs : List Char} (hword : ' ' ∉ word)
    (hf : ∀ piece ∈ splitOn (spaced word) cs, Thinned word piece (f piece)) :
    splitOn (spaced word) ((spaced word).intercalate ((splitOn (spaced word) cs).map f)) =
      (splitOn (spaced word) cs).map f :=
  have hpieces := (divided_splitOn (spaced_ne_nil word) cs).1
  (splitOn_eq_iff (spaced_ne_nil word)).2 ⟨hpieces.map hword hf, rfl⟩

/-! ### Pieces that end in the word -/

/-- A text in front that has no beginning of a separator belongs to the first piece. -/
theorem exists_splitOn_append {s : Char} {sep front : List Char} (hfront : s ∉ front)
    (rest : List Char) :
    ∃ first others, splitOn (s :: sep) (front ++ rest) = (front ++ first) :: others := by
  obtain ⟨first, others, hrest⟩ := List.exists_cons_of_ne_nil (splitOn_ne_nil (s :: sep) rest)
  refine ⟨first, others, ?_⟩
  induction front with
  | nil => exact hrest
  | cons c front ih =>
    rw [List.mem_cons, not_or] at hfront
    obtain ⟨hc, hfront⟩ := hfront
    have hnot : ¬(s :: sep).isPrefixOf (c :: (front ++ rest)) = true := by
      simp [hc]
    rw [List.cons_append, splitOn_cons, if_neg hnot, ih hfront]
    rfl

/-- A separator that begins in a piece but does not end there makes its word the last one. -/
theorem exists_uncut_front (hword : ' ' ∉ word) {piece : List Char}
    (hpiece : ¬spaced word <:+: piece) (hcut : ¬Uncut (spaced word) piece) :
    ∃ front, piece = front ++ ' ' :: word ∧ Uncut (spaced word) front := by
  rw [uncut_spaced_iff hword, not_not] at hcut
  rw [spaced_infix_iff hword] at hpiece
  obtain ⟨first, others, hwords⟩ := List.exists_cons_of_ne_nil (words_ne_nil piece)
  rw [hwords, List.tail_cons] at hcut hpiece
  rcases List.eq_nil_or_concat others with rfl | ⟨init, last, rfl⟩
  · exact absurd hcut List.not_mem_nil
  · rw [List.concat_eq_append] at hwords hcut hpiece
    rw [List.dropLast_concat] at hpiece
    obtain rfl : word = last := by simpa [hpiece] using hcut
    rw [← List.cons_append] at hwords
    have htext := eq_append_of_words hwords (List.cons_ne_nil _ _) (List.cons_ne_nil _ _)
    rw [List.intercalate_singleton] at htext
    refine ⟨_, htext, (uncut_spaced_iff hword).2 ?_⟩
    -- the words of the front are those before the last
    rw [htext, words_append, words_of_not_mem hword] at hwords
    rw [List.append_cancel_right hwords]
    exact hpiece

/-- Pieces without a separator are cut where they are joined, unless one of them ends in the word:
then the cut is made before the end of that piece, and the next piece begins with the word. -/
theorem splitOn_intercalate_or (hword : ' ' ∉ word) {pieces : List (List Char)}
    (hne : pieces ≠ []) (h : ∀ piece ∈ pieces, ¬spaced word <:+: piece) :
    splitOn (spaced word) ((spaced word).intercalate pieces) = pieces ∨
      (∃ piece ∈ pieces, ' ' :: word <:+ piece) ∧
        ∃ piece ∈ splitOn (spaced word) ((spaced word).intercalate pieces), word <+: piece := by
  have hsep : spaced word ≠ [] := spaced_ne_nil word
  induction pieces with
  | nil => exact absurd rfl hne
  | cons piece pieces ih =>
    obtain ⟨hpiece, hpieces⟩ := List.forall_mem_cons.1 h
    by_cases hlast : pieces = []
    · subst hlast
      rw [List.intercalate_singleton]
      exact Or.inl (splitOn_of_not_isInfix hpiece)
    rw [List.intercalate_cons_of_ne_nil hlast, List.append_assoc]
    by_cases huncut : Uncut (spaced word) piece
    · rw [splitOn_append hsep huncut]
      rcases ih hlast hpieces with hrest | ⟨⟨p, hp, hend⟩, q, hq, hstart⟩
      · exact Or.inl (by rw [hrest])
      · exact Or.inr ⟨⟨p, List.mem_cons_of_mem _ hp, hend⟩, q, List.mem_cons_of_mem _ hq, hstart⟩
    · obtain ⟨front, rfl, hfront⟩ := exists_uncut_front hword hpiece huncut
      generalize (spaced word).intercalate pieces = rest
      have htext : front ++ ' ' :: word ++ (spaced word ++ rest) =
          front ++ (spaced word ++ (word ++ ' ' :: rest)) := by simp [spaced]
      obtain ⟨first, others, hcut⟩ : ∃ first others,
          splitOn (spaced word) (word ++ ' ' :: rest) = (word ++ first) :: others :=
        exists_splitOn_append hword (' ' :: rest)
      refine Or.inr ⟨⟨_, List.mem_cons_self, List.suffix_append front _⟩, word ++ first, ?_,
        List.prefix_append word first⟩
      rw [htext, splitOn_append hsep hfront, hcut]
      exact List.mem_cons_of_mem _ List.mem_cons_self

/-! ### Ends without blanks -/

/-- The text begins with a character that is no blank. -/
def Opens (cs : List Char) : Prop := ∃ c ∈ cs.head?, isBlank c = false

/-- The text ends in a character that is no blank. -/
def Closes (cs : List Char) : Prop := Opens cs.reverse

theorem opens_iff {cs : List Char} :
    Opens cs ↔ cs ≠ [] ∧ ∀ c ∈ cs.head?, isBlank c = false := by
  unfold Opens
  cases cs with
  | nil => simp
  | cons c cs => simp

/-- Trimmed, and not empty. -/
theorem opens_closes_iff {cs : List Char} : Opens cs ∧ Closes cs ↔ cs ≠ [] ∧ Trimmed cs := by
  unfold Closes
  rw [opens_iff, opens_iff, List.head?_reverse, ne_eq, ne_eq, List.reverse_eq_nil_iff]
  exact ⟨fun ⟨⟨hne, hfirst⟩, _, hlast⟩ => ⟨hne, hfirst, hlast⟩,
    fun ⟨hne, hfirst, hlast⟩ => ⟨⟨hne, hfirst⟩, hne, hlast⟩⟩

theorem Opens.trim_ne_nil {cs : List Char} (h : Opens cs) : trim cs ≠ [] := by
  obtain ⟨c, hc, hblank⟩ := h
  have hmem : c ∈ trim cs := mem_trim (List.mem_of_mem_head? hc) hblank
  exact List.ne_nil_of_mem hmem

theorem Closes.trim_ne_nil {cs : List Char} (h : Closes cs) : trim cs ≠ [] := by
  have hreverse := Opens.trim_ne_nil h
  rw [trim_reverse] at hreverse
  simpa using hreverse

theorem opens_append_spaced {joint front back : List Char} :
    Opens (front ++ (spaced joint ++ back)) ↔ Opens front := by
  unfold Opens
  cases front with
  | nil => simp [spaced, show isBlank ' ' = true from rfl]
  | cons c front => rfl

theorem closes_append_spaced {joint front back : List Char} :
    Closes (front ++ (spaced joint ++ back)) ↔ Closes back := by
  have hreverse : (front ++ (spaced joint ++ back)).reverse =
      back.reverse ++ (spaced joint.reverse ++ front.reverse) := by simp [spaced]
  unfold Closes
  rw [hreverse, opens_append_spaced]

/-- If each new piece begins and ends without a blank where the old one does, so does the text that
is joined from them. -/
theorem opens_intercalate_map (joint : List Char) {f : List Char → List Char}
    {pieces : List (List Char)} (hf : ∀ piece ∈ pieces, Opens piece → Opens (f piece))
    (h : Opens ((spaced joint).intercalate pieces)) :
    Opens ((spaced joint).intercalate (pieces.map f)) := by
  cases pieces with
  | nil => exact h
  | cons piece pieces =>
    have hpiece := hf piece List.mem_cons_self
    cases pieces with
    | nil => simpa using hpiece (by simpa using h)
    | cons next pieces =>
      rw [List.intercalate_cons_cons, List.append_assoc, opens_append_spaced] at h
      rw [List.map_cons, List.map_cons, List.intercalate_cons_cons, List.append_assoc,
        opens_append_spaced]
      exact hpiece h

theorem closes_intercalate_map (joint : List Char) {f : List Char → List Char}
    {pieces : List (List Char)} (hf : ∀ piece ∈ pieces, Closes piece → Closes (f piece))
    (h : Closes ((spaced joint).intercalate pieces)) :
    Closes ((spaced joint).intercalate (pieces.map f)) := by
  induction pieces with
  | nil => exact h
  | cons piece pieces ih =>
    obtain ⟨hpiece, hpieces⟩ := List.forall_mem_cons.1 hf
    cases pieces with
    | nil => simpa using hpiece (by simpa using h)
    | cons next pieces =>
      rw [List.intercalate_cons_cons, List.append_assoc, closes_append_spaced] at h
      have hrest := ih hpieces h
      rw [List.map_cons] at hrest
      rw [List.map_cons, List.map_cons, List.intercalate_cons_cons, List.append_assoc,
        closes_append_spaced]
      exact hrest

/-! ### Trimming -/

/-- No character of the word is a blank of any kind. -/
def Unblank (word : List Char) : Prop := ∀ c ∈ word, isBlank c = false

instance (word : List Char) : Decidable (Unblank word) :=
  decidable_of_iff (word.all (!isBlank ·) = true) (by simp [Unblank])

theorem Unblank.not_mem_run {run : List Char} {c : Char} (hword : Unblank word)
    (hrun : IsBlankRun run) (hc : c ∈ word) : c ∉ run := by
  intro hmem
  have hblank := hrun c hmem
  rw [hword c hc] at hblank
  exact absurd hblank Bool.false_ne_true

theorem exists_trim_of_starts {cs : List Char} (hne : word ≠ []) (hword : Unblank word)
    (h : word <+: cs) : ∃ back, IsBlankRun back ∧ cs = trim cs ++ back := by
  obtain ⟨front, back, hfront, hback, hcs⟩ := exists_trim cs
  refine ⟨back, hback, ?_⟩
  obtain ⟨c, rest, rfl⟩ := List.exists_cons_of_ne_nil hne
  cases front with
  | nil => exact hcs
  | cons b front =>
    rw [hcs, List.append_assoc, List.cons_append] at h
    obtain rfl : c = b := (List.cons_prefix_cons.1 h).1
    exact absurd List.mem_cons_self (hword.not_mem_run hfront List.mem_cons_self)

theorem prefix_trim {cs : List Char} (hne : word ≠ []) (hword : Unblank word)
    (h : word <+: cs) : word <+: trim cs := by
  obtain ⟨back, hback, hcs⟩ := exists_trim_of_starts hne hword h
  rcases List.prefix_or_prefix_of_prefix h ⟨back, hcs.symm⟩ with hin | ⟨more, hmore⟩
  · exact hin
  · have hmoreback : trim cs ++ more <+: trim cs ++ back := by rwa [hmore, ← hcs]
    rw [List.prefix_append_right_inj] at hmoreback
    have hnone : more = [] := by
      refine List.eq_nil_iff_forall_not_mem.2 fun c hc => ?_
      refine hword.not_mem_run hback ?_ (hmoreback.subset hc)
      rw [← hmore]
      exact List.mem_append_right _ hc
    rw [hnone, List.append_nil] at hmore
    rw [hmore]

/-- A first word without blanks stays the first. -/
theorem head?_words_trim {cs : List Char} (hne : word ≠ []) (hword : Unblank word)
    (h : (words cs).head? = some word) : (words (trim cs)).head? = some word := by
  obtain ⟨back, hback, hcs⟩ := exists_trim_of_starts hne hword (prefix_of_head?_words h)
  rw [head?_words, Option.some_inj] at h ⊢
  rw [hcs, List.takeWhile_append] at h
  split at h
  · next hwhole =>
    have hrest : back.takeWhile (· != ' ') = [] := by
      refine List.eq_nil_iff_forall_not_mem.2 fun c hc => ?_
      refine hword.not_mem_run hback ?_ ((List.takeWhile_prefix _).subset hc)
      rw [← h]
      exact List.mem_append_right _ hc
    rw [hrest, List.append_nil] at h
    rw [← h]
    exact (List.takeWhile_prefix _).eq_of_length hwhole
  · exact h

theorem getLast?_words_trim {cs : List Char} (hne : word ≠ []) (hword : Unblank word)
    (h : (words cs).getLast? = some word) : (words (trim cs)).getLast? = some word := by
  rw [getLast?_words, Option.map_eq_some_iff] at h ⊢
  obtain ⟨first, hfirst, rfl⟩ := h
  refine ⟨first, ?_, rfl⟩
  rw [← trim_reverse]
  exact head?_words_trim (by simpa using hne) (fun c hc => hword c (List.mem_reverse.2 hc)) hfirst

/-- Trimming brings the word to light: a blank that is no space stands between the word and the
space before it or behind it. -/
def Hides (word cs : List Char) : Prop :=
  (words cs).count word < (words (trim cs)).count word

instance (word cs : List Char) : Decidable (Hides word cs) := by
  unfold Hides
  infer_instance

/-- Only a blank that is no space hides a word. -/
theorem not_hides_of_spaces {cs : List Char} (h : ∀ c ∈ cs, isBlank c = true → c = ' ') :
    ¬Hides word cs := by
  obtain ⟨front, back, hfront, hback, hcs⟩ := exists_trim cs
  have hinner : (words (trim cs)).count word ≤ (words (trim cs ++ back)).count word := by
    cases back with
    | nil => rw [List.append_nil]
    | cons c back =>
      obtain rfl : c = ' ' := h c (by rw [hcs]; simp) (hback c List.mem_cons_self)
      rw [words_append, List.count_append]
      exact Nat.le_add_right _ _
  have houter : (words (trim cs ++ back)).count word ≤ (words cs).count word := by
    rw [List.append_assoc] at hcs
    generalize trim cs ++ back = rest at hcs
    subst hcs
    rcases List.eq_nil_or_concat front with rfl | ⟨init, c, rfl⟩
    · rfl
    · obtain rfl : c = ' ' := h c (by simp) (hfront c (by simp))
      rw [List.concat_eq_append, List.append_assoc, List.singleton_append, words_append,
        List.count_append]
      exact Nat.le_add_left _ _
  exact Nat.not_lt_of_le (hinner.trans houter)

theorem thinned_trim {cs : List Char} (hne : word ≠ []) (hword : Unblank word)
    (h : ¬Hides word cs) : Thinned word cs (trim cs) where
  count_le := Nat.le_of_not_lt h
  first := head?_words_trim hne hword
  last := getLast?_words_trim hne hword

end PluralForms.Text
