import Mathlib.Data.List.Infix
import PluralForms.Proofs.Text.Pieces

/-!
# Words between blanks

A text falls into words at its blanks, and a separator such as ` and ` is a word with a blank on
either side. So whether the separator stands in a text is a question about the words of the text,
and joining texts by the separator joins their lists of words:

    words_append_spaced : words (front ++ spaced word ++ back) = words front ++ word :: words back
    spaced_infix_iff : spaced word <:+: cs ↔ word ∈ (words cs).tail.dropLast

* `uncut_spaced_iff` - a text is not cut by the separator, at its end neither, if the word is at
  most its first one;
* `Apart.not_mem_words` - what it is to be without the word, told of the text itself.
-/

namespace PluralForms.Text

/-- The pieces of a text between its spaces; two spaces in a row have an empty word between them. -/
def words (cs : List Char) : List (List Char) := splitOn [' '] cs

/-- The text with a space on either side. -/
def spaced (cs : List Char) : List Char := ' ' :: (cs ++ [' '])

variable {word : List Char}

theorem words_ne_nil (cs : List Char) : words cs ≠ [] := splitOn_ne_nil [' '] cs

theorem spaced_ne_nil (word : List Char) : spaced word ≠ [] := List.cons_ne_nil _ _

/-! ### Joining -/

theorem splitOn_append_mark (mark : Char) (front back : List Char) :
    splitOn [mark] (front ++ mark :: back) = splitOn [mark] front ++ splitOn [mark] back := by
  induction front with
  | nil => exact splitOn_append_self (List.cons_ne_nil mark []) back
  | cons c front ih =>
    rw [List.cons_append, splitOn_cons, splitOn_cons]
    by_cases hc : mark = c
    · subst hc
      simp [ih]
    · obtain ⟨first, others, hpieces⟩ := List.exists_cons_of_ne_nil (splitOn_ne_nil [mark] front)
      simp [hc, ih, hpieces, pushFirst_eq_cons]

theorem words_append (front back : List Char) :
    words (front ++ ' ' :: back) = words front ++ words back :=
  splitOn_append_mark ' ' front back

theorem words_of_not_mem (hword : ' ' ∉ word) : words word = [word] :=
  splitOn_mark_of_not_mem hword

theorem words_append_spaced (hword : ' ' ∉ word) (front back : List Char) :
    words (front ++ (spaced word ++ back)) = words front ++ word :: words back := by
  have htext : front ++ (spaced word ++ back) = front ++ ' ' :: (word ++ ' ' :: back) := by
    simp [spaced]
  rw [htext, words_append, words_append, words_of_not_mem hword]
  rfl

theorem words_spaced (cs : List Char) : words (spaced cs) = [] :: (words cs ++ [[]]) := by
  have htext : spaced cs = [] ++ ' ' :: (cs ++ ' ' :: []) := rfl
  rw [htext, words_append, words_append]
  rfl

/-- A text is joined from its words, and so at each of its spaces. -/
theorem eq_append_of_words {cs : List Char} {front back : List (List Char)}
    (h : words cs = front ++ back) (hfront : front ≠ []) (hback : back ≠ []) :
    cs = [' '].intercalate front ++ ' ' :: [' '].intercalate back := by
  have hjoined : [' '].intercalate (words cs) = cs := intercalate_splitOn_mark cs
  rw [h, intercalate_append hfront hback] at hjoined
  exact hjoined.symm

/-- The words of a text from its end. -/
theorem words_reverse (cs : List Char) :
    words cs.reverse = (words cs).reverse.map List.reverse := by
  induction hlen : cs.length using Nat.strongRecOn generalizing cs with
  | _ k ih =>
    by_cases hspace : ' ' ∈ cs
    · obtain ⟨first, rest, rfl, hfirst⟩ := List.eq_append_cons_of_mem hspace
      have hreverse : (first ++ ' ' :: rest).reverse = rest.reverse ++ ' ' :: first.reverse := by
        simp
      have hrest := ih rest.length (by rw [← hlen]; simp; omega) rest rfl
      have hfirst' : ' ' ∉ first.reverse := by simpa using hfirst
      rw [hreverse, words_append, words_append, hrest, words_of_not_mem hfirst,
        words_of_not_mem hfirst']
      simp
    · have hspace' : ' ' ∉ cs.reverse := by simpa using hspace
      rw [words_of_not_mem hspace, words_of_not_mem hspace']
      rfl

/-! ### Cutting -/

/-- Between two words of a text the separator of a word stands just where the word is. -/
theorem spaced_infix_iff (hword : ' ' ∉ word) {cs : List Char} :
    spaced word <:+: cs ↔ word ∈ (words cs).tail.dropLast := by
  constructor
  · rintro ⟨front, back, rfl⟩
    obtain ⟨first, others, hfront⟩ := List.exists_cons_of_ne_nil (words_ne_nil front)
    have hback : word :: words back ≠ [] := List.cons_ne_nil _ _
    rw [List.append_assoc, words_append_spaced hword, hfront, List.cons_append, List.tail_cons,
      List.dropLast_append_of_ne_nil hback, List.dropLast_cons_of_ne_nil (words_ne_nil back)]
    exact List.mem_append_right _ List.mem_cons_self
  · intro hmem
    obtain ⟨first, others, hwords⟩ := List.exists_cons_of_ne_nil (words_ne_nil cs)
    rw [hwords, List.tail_cons] at hmem
    obtain ⟨front, back, hothers⟩ := List.append_of_mem hmem
    have hne : others ≠ [] := by
      rintro rfl
      simp at hmem
    have hlast : others.dropLast ++ [others.getLast hne] = others :=
      List.dropLast_append_getLast hne
    generalize others.getLast hne = last at hlast
    rw [← hlast, hothers, List.append_assoc, List.cons_append, ← List.cons_append] at hwords
    obtain ⟨next, rest, hrest⟩ := List.exists_cons_of_ne_nil
      (List.append_ne_nil_of_right_ne_nil back (List.cons_ne_nil last []))
    rw [eq_append_of_words hwords (List.cons_ne_nil _ _) (List.cons_ne_nil _ _), hrest,
      List.intercalate_cons_cons]
    exact ⟨[' '].intercalate (first :: front), [' '].intercalate (next :: rest), by simp [spaced]⟩

/-- The separator of a word begins in a text only behind its first word. -/
theorem uncut_spaced_iff (hword : ' ' ∉ word) {piece : List Char} :
    Uncut (spaced word) piece ↔ word ∉ (words piece).tail := by
  constructor
  · intro huncut hmem
    obtain ⟨first, others, hwords⟩ := List.exists_cons_of_ne_nil (words_ne_nil piece)
    rw [hwords, List.tail_cons] at hmem
    obtain ⟨front, back, rfl⟩ := List.append_of_mem hmem
    rw [← List.cons_append] at hwords
    have hpiece := eq_append_of_words hwords (List.cons_ne_nil _ _) (List.cons_ne_nil _ _)
    refine huncut (' ' :: [' '].intercalate (word :: back)) ⟨_, hpiece.symm⟩
      (List.cons_ne_nil _ _) ?_
    cases back with
    | nil => exact ⟨word ++ [' '], by simp [spaced]⟩
    | cons next rest =>
      rw [List.intercalate_cons_cons]
      exact ⟨[' '].intercalate (next :: rest) ++ spaced word, by simp [spaced]⟩
  · rintro hpiece back ⟨front, rfl⟩ hne ⟨rest, hrest⟩
    obtain ⟨c, back, rfl⟩ := List.exists_cons_of_ne_nil hne
    obtain ⟨rfl, hbehind⟩ : ' ' = c ∧ word ++ ' ' :: rest = back ++ ' ' :: (word ++ [' ']) := by
      simpa [spaced] using hrest
    -- what follows the first space begins with the word on the one side, with a word of the text
    -- on the other
    have hwords : word :: words rest = words back ++ words (word ++ [' ']) := by
      rw [← words_append, ← hbehind, words_append, words_of_not_mem hword]
      rfl
    obtain ⟨first, others, hback⟩ := List.exists_cons_of_ne_nil (words_ne_nil back)
    obtain ⟨start, more, hfront⟩ := List.exists_cons_of_ne_nil (words_ne_nil front)
    have hfirst : word = first := by
      rw [hback] at hwords
      exact (List.cons.inj hwords).1
    apply hpiece
    rw [words_append, hfront, hback, ← hfirst]
    simp

theorem uncut_spaced {piece : List Char} (hword : ' ' ∉ word) (hpiece : word ∉ words piece) :
    Uncut (spaced word) piece :=
  (uncut_spaced_iff hword).2 fun hmem => hpiece (List.mem_of_mem_tail hmem)

/-! ### The words of a text -/

/-- The word stands nowhere in the text between spaces; the ends of the text count as spaces. -/
structure Apart (word cs : List Char) : Prop where
  inside : ¬spaced word <:+: cs
  whole : cs ≠ word
  front : ¬word ++ [' '] <+: cs
  back : ¬(' ' :: word <:+ cs)

theorem apart_iff {cs : List Char} :
    Apart word cs ↔ ¬spaced word <:+: cs ∧ cs ≠ word ∧ ¬word ++ [' '] <+: cs ∧
      ¬(' ' :: word <:+ cs) :=
  ⟨fun h => ⟨h.inside, h.whole, h.front, h.back⟩, fun ⟨h₁, h₂, h₃, h₄⟩ => ⟨h₁, h₂, h₃, h₄⟩⟩

instance (word cs : List Char) : Decidable (Apart word cs) := decidable_of_iff _ apart_iff.symm

theorem spaced_infix_of_mem_words (hword : ' ' ∉ word) {cs : List Char} (h : word ∈ words cs) :
    spaced word <:+: spaced cs := by
  rw [spaced_infix_iff hword, words_spaced, List.tail_cons, List.dropLast_concat]
  exact h

theorem Apart.not_mem_words {cs : List Char} (hword : ' ' ∉ word) (h : Apart word cs) :
    word ∉ words cs := by
  intro hmem
  have hinfix : spaced word <:+: ' ' :: (cs ++ [' ']) := spaced_infix_of_mem_words hword hmem
  rcases List.infix_cons_iff.1 hinfix with hprefix | hinfix
  · have hprefix : word ++ [' '] <+: cs ++ [' '] := (List.cons_prefix_cons.1 hprefix).2
    rcases List.prefix_concat_iff.1 hprefix with heq | hfront
    · exact h.whole (List.append_cancel_right heq).symm
    · exact h.front hfront
  · rcases List.infix_concat_iff.1 hinfix with hsuffix | hinside
    · have hsuffix : (' ' :: word) ++ [' '] <:+ cs ++ [' '] := hsuffix
      exact h.back ((List.suffix_append_self_iff).1 hsuffix)
    · exact h.inside hinside

end PluralForms.Text
