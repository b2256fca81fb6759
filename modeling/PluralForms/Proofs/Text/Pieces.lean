import Mathlib.Data.List.Chain
import PluralForms.Proofs.Text.Trimming
import PluralForms.Text.Split

/-!
# Cutting a text where it was joined

Pieces that are joined by a separator are cut apart again at the same places, unless the separator
also stands elsewhere: inside a piece, or half in a piece and half in the separator behind it. A
piece in which neither happens is *uncut*, and for such pieces cutting undoes joining,

    splitOn_intercalate : splitOn sep (sep.intercalate pieces) = pieces

* `splitOn_eq_iff` - what cutting gives: the pieces that make up the text when they are joined, all
  but the last of them uncut, and the last without a separator;
* `uncut_of_isChain` - why a piece is uncut: two characters that follow each other in the separator
  never do so in the piece, and the piece ends in a character of its own;
* `splitOn_mark` - a separator of one character, of which no piece has any.
-/

namespace PluralForms.Text

variable {sep : List Char}

/-- The separator does not begin inside the piece, even with another one put behind it. -/
def Uncut (sep piece : List Char) : Prop :=
  ∀ back, back <:+ piece → back ≠ [] → ¬sep <+: back ++ sep

theorem uncut_cons {c : Char} {piece : List Char} :
    Uncut sep (c :: piece) ↔ ¬sep <+: (c :: piece) ++ sep ∧ Uncut sep piece := by
  constructor
  · intro h
    refine ⟨h _ List.suffix_rfl (List.cons_ne_nil c piece), fun back hback => h back ?_⟩
    exact hback.trans (List.suffix_cons c piece)
  · rintro ⟨hfirst, hpiece⟩ back hback hne
    rcases List.suffix_cons_iff.1 hback with rfl | hback
    · exact hfirst
    · exact hpiece back hback hne

/-! ### Joining and cutting -/

/-- Behind a separator, the rest is cut by itself. -/
theorem splitOn_append_self (hsep : sep ≠ []) (rest : List Char) :
    splitOn sep (sep ++ rest) = [] :: splitOn sep rest := by
  cases sep with
  | nil => exact absurd rfl hsep
  | cons s sep =>
    have hstarts : (s :: sep).isPrefixOf (s :: (sep ++ rest)) = true :=
      List.isPrefixOf_iff_prefix.2 (List.prefix_append (s :: sep) rest)
    rw [List.cons_append, splitOn_cons, if_pos hstarts]
    simp

theorem splitOn_append {piece : List Char} (hsep : sep ≠ []) (h : Uncut sep piece)
    (rest : List Char) : splitOn sep (piece ++ (sep ++ rest)) = piece :: splitOn sep rest := by
  induction piece with
  | nil => exact splitOn_append_self hsep rest
  | cons c piece ih =>
    obtain ⟨hfirst, hpiece⟩ := uncut_cons.1 h
    have hnot : ¬sep.isPrefixOf (c :: (piece ++ (sep ++ rest))) = true := by
      intro hstarts
      have hbefore : sep <+: ((c :: piece) ++ sep) ++ rest := by
        rw [List.append_assoc]
        exact List.isPrefixOf_iff_prefix.1 hstarts
      refine hfirst (List.prefix_of_prefix_length_le hbefore (List.prefix_append _ rest) ?_)
      rw [List.length_append]
      exact Nat.le_add_left _ _
    rw [List.cons_append, splitOn_cons, if_neg hnot, ih hpiece]
    rfl

theorem splitOn_of_not_isInfix {piece : List Char} (h : ¬sep <:+: piece) :
    splitOn sep piece = [piece] := by
  induction piece with
  | nil => rfl
  | cons c piece ih =>
    rw [List.infix_cons_iff, not_or] at h
    have hnot : ¬sep.isPrefixOf (c :: piece) = true := fun hstarts =>
      h.1 (List.isPrefixOf_iff_prefix.1 hstarts)
    rw [splitOn_cons, if_neg hnot, ih h.2]
    rfl

theorem Uncut.not_isInfix {piece : List Char} (hsep : sep ≠ []) (h : Uncut sep piece) :
    ¬sep <:+: piece := by
  rintro ⟨front, rest, rfl⟩
  refine h (sep ++ rest) ?_ (List.append_ne_nil_of_left_ne_nil hsep rest) ?_
  · rw [List.append_assoc]
    exact List.suffix_append front _
  · rw [List.append_assoc]
    exact List.prefix_append sep _

theorem splitOn_of_uncut {piece : List Char} (hsep : sep ≠ []) (h : Uncut sep piece) :
    splitOn sep piece = [piece] :=
  splitOn_of_not_isInfix (h.not_isInfix hsep)

/-! ### What cutting gives -/

/-- All pieces but the last are uncut, and the last is without the separator. -/
inductive Divided (sep : List Char) : List (List Char) → Prop
  | last {piece} : ¬sep <:+: piece → Divided sep [piece]
  | cons {piece pieces} : Uncut sep piece → Divided sep pieces → Divided sep (piece :: pieces)

theorem Divided.ne_nil {pieces : List (List Char)} (h : Divided sep pieces) : pieces ≠ [] := by
  cases h with
  | last => exact List.cons_ne_nil _ _
  | cons => exact List.cons_ne_nil _ _

theorem Divided.not_isInfix {pieces : List (List Char)} (hsep : sep ≠ []) (h : Divided sep pieces) :
    ∀ piece ∈ pieces, ¬sep <:+: piece := by
  induction h with
  | last hlast => exact List.forall_mem_singleton.2 hlast
  | cons hpiece _ ih => exact List.forall_mem_cons.2 ⟨hpiece.not_isInfix hsep, ih⟩

theorem divided_of_uncut {pieces : List (List Char)} (hsep : sep ≠ []) (hne : pieces ≠ [])
    (h : ∀ piece ∈ pieces, Uncut sep piece) : Divided sep pieces := by
  induction pieces with
  | nil => exact absurd rfl hne
  | cons piece pieces ih =>
    obtain ⟨hpiece, hpieces⟩ := List.forall_mem_cons.1 h
    cases pieces with
    | nil => exact .last (hpiece.not_isInfix hsep)
    | cons next pieces => exact .cons hpiece (ih (List.cons_ne_nil next pieces) hpieces)

/-- A character is put in front of the first piece, if that does not make a separator. -/
theorem Divided.pushFirst {c : Char} {cs : List Char} {pieces : List (List Char)}
    (hcs : sep.intercalate pieces = cs) (hc : ¬sep <+: c :: cs) (h : Divided sep pieces) :
    Divided sep (pushFirst c pieces) ∧ sep.intercalate (Text.pushFirst c pieces) = c :: cs := by
  subst hcs
  cases h with
  | @last piece hlast =>
    rw [List.intercalate_singleton] at hc
    refine ⟨.last ?_, by simp [Text.pushFirst]⟩
    rw [List.infix_cons_iff, not_or]
    exact ⟨hc, hlast⟩
  | @cons piece pieces hpiece hpieces =>
    obtain ⟨next, others, rfl⟩ := List.exists_cons_of_ne_nil hpieces.ne_nil
    rw [List.intercalate_cons_cons] at hc
    refine ⟨.cons (uncut_cons.2 ⟨fun hstarts => hc ?_, hpiece⟩) hpieces, ?_⟩
    · exact hstarts.trans (List.cons_prefix_cons.2 ⟨rfl, List.prefix_append (piece ++ sep) _⟩)
    · simp [Text.pushFirst, List.intercalate_cons_cons]

theorem divided_splitOn (hsep : sep ≠ []) (cs : List Char) :
    Divided sep (splitOn sep cs) ∧ sep.intercalate (splitOn sep cs) = cs := by
  -- a separator is passed over as a whole
  induction hlen : cs.length using Nat.strongRecOn generalizing cs with
  | _ k ih =>
    cases cs with
    | nil => exact ⟨.last fun h => hsep (List.infix_nil.1 h), rfl⟩
    | cons c cs =>
      rw [splitOn_cons]
      split
      · next hstarts =>
        have hshorter : (cs.drop (sep.length - 1)).length < k := by
          rw [← hlen, List.length_drop, List.length_cons]
          omega
        obtain ⟨hrest, hjoined⟩ := ih _ hshorter _ rfl
        obtain ⟨rest, hcut⟩ := List.isPrefixOf_iff_prefix.1 hstarts
        refine ⟨.cons (fun back hback hne => absurd (List.suffix_nil.1 hback) hne) hrest, ?_⟩
        obtain ⟨first, others, heq⟩ := List.exists_cons_of_ne_nil hrest.ne_nil
        rw [heq] at hjoined ⊢
        rw [List.intercalate_cons_cons, hjoined, List.nil_append, ← hcut]
        cases sep with
        | nil => exact absurd rfl hsep
        | cons s sep =>
          obtain ⟨-, rfl⟩ := List.cons.inj hcut
          simp
      · next hnot =>
        have hshorter : cs.length < k := by
          rw [← hlen]
          exact Nat.lt_succ_self _
        obtain ⟨hrest, hjoined⟩ := ih _ hshorter cs rfl
        exact hrest.pushFirst hjoined fun hstarts =>
          hnot (List.isPrefixOf_iff_prefix.2 hstarts)

theorem splitOn_of_divided {pieces : List (List Char)} (hsep : sep ≠ [])
    (h : Divided sep pieces) : splitOn sep (sep.intercalate pieces) = pieces := by
  induction h with
  | last hlast => rw [List.intercalate_singleton, splitOn_of_not_isInfix hlast]
  | cons hpiece hpieces ih =>
    obtain ⟨next, others, rfl⟩ := List.exists_cons_of_ne_nil hpieces.ne_nil
    rw [List.intercalate_cons_cons, List.append_assoc, splitOn_append hsep hpiece, ih]

theorem splitOn_eq_iff {cs : List Char} {pieces : List (List Char)} (hsep : sep ≠ []) :
    splitOn sep cs = pieces ↔ Divided sep pieces ∧ sep.intercalate pieces = cs := by
  constructor
  · rintro rfl
    exact divided_splitOn hsep cs
  · rintro ⟨h, rfl⟩
    exact splitOn_of_divided hsep h

/-- Cutting undoes joining. -/
theorem splitOn_intercalate {pieces : List (List Char)} (hsep : sep ≠ []) (hne : pieces ≠ [])
    (h : ∀ piece ∈ pieces, Uncut sep piece) : splitOn sep (sep.intercalate pieces) = pieces :=
  splitOn_of_divided hsep (divided_of_uncut hsep hne h)

theorem intercalate_append {as bs : List (List Char)} (ha : as ≠ []) (hb : bs ≠ []) :
    sep.intercalate (as ++ bs) = sep.intercalate as ++ (sep ++ sep.intercalate bs) := by
  induction as with
  | nil => exact absurd rfl ha
  | cons a as ih =>
    cases as with
    | nil =>
      obtain ⟨b, bs, rfl⟩ := List.exists_cons_of_ne_nil hb
      rw [List.singleton_append, List.intercalate_cons_cons, List.intercalate_singleton,
        List.append_assoc]
    | cons next as =>
      have hrest := ih (List.cons_ne_nil next as)
      rw [List.cons_append] at hrest
      rw [List.cons_append, List.cons_append, List.intercalate_cons_cons, hrest,
        List.intercalate_cons_cons]
      simp only [List.append_assoc]

theorem infix_intercalate {piece : List Char} {pieces : List (List Char)}
    (h : piece ∈ pieces) : piece <:+: sep.intercalate pieces := by
  induction pieces with
  | nil => exact absurd h List.not_mem_nil
  | cons first pieces ih =>
    by_cases hne : pieces = []
    · subst hne
      obtain rfl : piece = first := List.mem_singleton.1 h
      simp
    · rw [List.intercalate_cons_of_ne_nil hne]
      rcases List.mem_cons.1 h with rfl | h
      · rw [List.append_assoc]
        exact (List.prefix_append piece _).isInfix
      · exact (ih h).trans (List.suffix_append _ _).isInfix

theorem infix_of_mem_splitOn {cs piece : List Char} (hsep : sep ≠ [])
    (h : piece ∈ splitOn sep cs) : piece <:+: cs := by
  have hpart : piece <:+: sep.intercalate (splitOn sep cs) := infix_intercalate h
  rwa [(divided_splitOn hsep cs).2] at hpart

/-- What holds of the pieces holds of the joined text, if joining two texts keeps it. -/
theorem intercalate_induction {P : List Char → Prop} {pieces : List (List Char)}
    (hne : pieces ≠ []) (hpieces : ∀ piece ∈ pieces, P piece)
    (hjoin : ∀ piece rest, P piece → P rest → P (piece ++ (sep ++ rest))) :
    P (sep.intercalate pieces) := by
  induction pieces with
  | nil => exact absurd rfl hne
  | cons piece pieces ih =>
    have hpiece : P piece := hpieces piece List.mem_cons_self
    cases pieces with
    | nil =>
      rw [List.intercalate_singleton]
      exact hpiece
    | cons next pieces =>
      rw [List.intercalate_cons_cons, List.append_assoc]
      exact hjoin _ _ hpiece (ih (List.cons_ne_nil next pieces) fun p hp =>
        hpieces p (List.mem_cons_of_mem _ hp))

theorem not_mem_intercalate {c : Char} {pieces : List (List Char)} (hsep : c ∉ sep)
    (hpieces : ∀ piece ∈ pieces, c ∉ piece) : c ∉ sep.intercalate pieces := by
  by_cases hne : pieces = []
  · subst hne
    exact List.not_mem_nil
  · refine intercalate_induction (P := (c ∉ ·)) hne hpieces fun piece rest hpiece hrest => ?_
    simp [hpiece, hsep, hrest]

/-! ### Pieces that are uncut -/

theorem not_infix_of_isChain {R : Char → Char → Prop} {piece : List Char}
    (hpiece : List.IsChain R piece) (hsep : ¬List.IsChain R sep) : ¬sep <:+: piece :=
  fun h => hsep <| hpiece.infix h

/-- A separator that begins in a piece ends in it, or else the end of the piece belongs to it. -/
theorem uncut_of_isChain {R : Char → Char → Prop} {piece : List Char}
    (hpiece : List.IsChain R piece) (hsep : ¬List.IsChain R sep)
    (hlast : ∀ c ∈ piece.getLast?, c ∉ sep) : Uncut sep piece := by
  intro back hback hne hstarts
  rcases List.prefix_or_prefix_of_prefix hstarts (List.prefix_append back sep) with hin | hout
  · exact not_infix_of_isChain hpiece hsep (hin.isInfix.trans hback.isInfix)
  · obtain ⟨front, rfl⟩ := hback
    have hend : (front ++ back).getLast? = some (back.getLast hne) := by
      rw [List.getLast?_append_of_ne_nil _ hne, List.getLast?_eq_some_getLast hne]
    exact hlast _ hend (hout.subset (List.getLast_mem hne))

/-! ### Separators of one character -/

variable {mark : Char}

theorem uncut_mark {piece : List Char} (h : mark ∉ piece) : Uncut [mark] piece := by
  intro back hback hne hstarts
  cases back with
  | nil => exact absurd rfl hne
  | cons c back =>
    obtain rfl : mark = c := (List.cons_prefix_cons.1 hstarts).1
    exact h (hback.subset List.mem_cons_self)

theorem splitOn_mark_of_not_mem {piece : List Char} (h : mark ∉ piece) :
    splitOn [mark] piece = [piece] :=
  splitOn_of_uncut (List.cons_ne_nil mark []) (uncut_mark h)

theorem splitOn_mark_append {piece : List Char} (h : mark ∉ piece) (rest : List Char) :
    splitOn [mark] (piece ++ mark :: rest) = piece :: splitOn [mark] rest :=
  splitOn_append (List.cons_ne_nil mark []) (uncut_mark h) rest

theorem mark_not_mem_takeWhile (cs : List Char) : mark ∉ cs.takeWhile (· != mark) := by
  intro hmem
  have hmark := run_takeWhile cs mark hmem
  simp at hmark

/-- The first piece is what stands before the first mark. -/
theorem splitOn_mark (cs : List Char) :
    splitOn [mark] cs = cs.takeWhile (· != mark) ::
      (splitOn [mark] (cs.dropWhile (· != mark))).tail := by
  have hcs : cs.takeWhile (· != mark) ++ cs.dropWhile (· != mark) = cs :=
    List.takeWhile_append_dropWhile
  have hfirst : mark ∉ cs.takeWhile (· != mark) := mark_not_mem_takeWhile cs
  have hstop := stop_dropWhile (p := (· != mark)) cs
  generalize cs.takeWhile (· != mark) = first, cs.dropWhile (· != mark) = rest at *
  subst hcs
  cases rest with
  | nil =>
    rw [List.append_nil, splitOn_mark_of_not_mem hfirst]
    rfl
  | cons c rest =>
    obtain rfl : c = mark := by simpa using hstop c rfl
    have hrest : splitOn [c] (c :: rest) = [] :: splitOn [c] rest :=
      splitOn_append_self (List.cons_ne_nil c []) rest
    rw [splitOn_mark_append hfirst, hrest, List.tail_cons]

theorem cutAt_eq_none {cs : List Char} (h : mark ∉ cs) : cutAt mark cs = none := by
  have hdrop : cs.dropWhile (· != mark) = [] := by
    rw [List.dropWhile_eq_nil_iff]
    intro c hc
    rw [bne_iff_ne]
    rintro rfl
    exact h hc
  unfold cutAt
  rw [hdrop]

theorem cutAt_append {front : List Char} (h : mark ∉ front) (back : List Char) :
    cutAt mark (front ++ mark :: back) = some (front, back) := by
  have hrun : ∀ c ∈ front, (c != mark) = true := by
    intro c hc
    rw [bne_iff_ne]
    rintro rfl
    exact h hc
  have hstop : ∀ c ∈ (mark :: back).head?, (c != mark) = false := by simp
  unfold cutAt
  rw [dropWhile_run hrun hstop, takeWhile_run hrun hstop]

theorem pushFirst_eq_cons (c : Char) {piece : List Char} {pieces : List (List Char)} :
    pushFirst c (piece :: pieces) = (c :: piece) :: pieces := rfl

/-- No piece has a mark. -/
theorem of_mem_splitOn_mark {cs piece : List Char} (h : piece ∈ splitOn [mark] cs) :
    mark ∉ piece := by
  intro hmem
  have hsep : [mark] ≠ [] := List.cons_ne_nil mark []
  obtain ⟨front, back, rfl⟩ := List.append_of_mem hmem
  exact (divided_splitOn hsep cs).1.not_isInfix hsep _ h ⟨front, back, by simp⟩

/-- Joining undoes cutting. -/
theorem intercalate_splitOn_mark (cs : List Char) :
    [mark].intercalate (splitOn [mark] cs) = cs :=
  (divided_splitOn (List.cons_ne_nil mark []) cs).2

end PluralForms.Text
