import Mathlib.Data.List.Induction
import Mathlib.Order.Bounds.Basic
import PluralForms.Table.Suggestion

/-!
# The edit distance is the least number of edits

An edit inserts a character, deletes one or puts one in place of another, anywhere in a text. The
distance of two texts is found row by row in a table, from the distances of their beginnings. It is
the least number of edits that make the one text of the other:

    isLeast_editDistance : IsLeast {n | Edits n source target} (editDistance source target)

Edits one after another may undo each other, so between the two stands the *alignment*: the two
texts side by side, each character kept, replaced, deleted or inserted once. An alignment is a chain
of edits, and an edit of its target costs it one at most.

* `Edits` - so many edits one after another;
* `Aligned` - an alignment, built up at the ends, as the table is.
-/

namespace PluralForms

/-- One edit of a text. -/
inductive Edit : List Char → List Char → Prop
  | insert (front : List Char) (c : Char) (back : List Char) :
      Edit (front ++ back) (front ++ c :: back)
  | delete (front : List Char) (c : Char) (back : List Char) :
      Edit (front ++ c :: back) (front ++ back)
  | replace (front : List Char) (c d : Char) (back : List Char) :
      Edit (front ++ c :: back) (front ++ d :: back)

/-- So many edits, one after another. -/
inductive Edits : Nat → List Char → List Char → Prop
  | none (cs : List Char) : Edits 0 cs cs
  | more {n as bs cs} : Edits n as bs → Edit bs cs → Edits (n + 1) as cs

/-- What it costs to have `d` in place of `c`. -/
def replacementCost (c d : Char) : Nat := if c = d then 0 else 1

theorem replacementCost_le (c d : Char) : replacementCost c d ≤ 1 := by
  unfold replacementCost
  split <;> omega

/-- The source and the target side by side, with so many characters that are not kept. -/
inductive Aligned : Nat → List Char → List Char → Prop
  | nil : Aligned 0 [] []
  | insert {n source target} (d : Char) : Aligned n source target →
      Aligned (n + 1) source (target ++ [d])
  | delete {n source target} (c : Char) : Aligned n source target →
      Aligned (n + 1) (source ++ [c]) target
  | replace {n source target} (c d : Char) : Aligned n source target →
      Aligned (n + replacementCost c d) (source ++ [c]) (target ++ [d])

variable {n : Nat} {source target : List Char} {c d : Char}

/-- The last column of an alignment, if it has one. -/
theorem Aligned.last (h : Aligned n source target) :
    (source = [] ∧ target = []) ∨
      (∃ m target' d, n = m + 1 ∧ target = target' ++ [d] ∧ Aligned m source target') ∨
      (∃ m source' c, n = m + 1 ∧ source = source' ++ [c] ∧ Aligned m source' target) ∨
      ∃ m source' target' c d, n = m + replacementCost c d ∧ source = source' ++ [c] ∧
        target = target' ++ [d] ∧ Aligned m source' target' := by
  cases h with
  | nil => exact Or.inl ⟨rfl, rfl⟩
  | insert d h => exact Or.inr (Or.inl ⟨_, _, d, rfl, rfl, h⟩)
  | delete c h => exact Or.inr (Or.inr (Or.inl ⟨_, _, c, rfl, rfl, h⟩))
  | replace c d h => exact Or.inr (Or.inr (Or.inr ⟨_, _, _, c, d, rfl, rfl, rfl, h⟩))

/-! ### An alignment is a chain of edits -/

theorem Edit.append_singleton {as bs : List Char} (h : Edit as bs) (c : Char) :
    Edit (as ++ [c]) (bs ++ [c]) := by
  cases h with
  | insert front d back => simpa using Edit.insert front d (back ++ [c])
  | delete front d back => simpa using Edit.delete front d (back ++ [c])
  | replace front d e back => simpa using Edit.replace front d e (back ++ [c])

theorem Edits.append_singleton {as bs : List Char} (h : Edits n as bs) (c : Char) :
    Edits n (as ++ [c]) (bs ++ [c]) := by
  induction h with
  | none cs => exact .none _
  | more _ hedit ih => exact ih.more (hedit.append_singleton c)

theorem Aligned.edits (h : Aligned n source target) : Edits n source target := by
  induction h with
  | nil => exact .none []
  | @insert n source target d _ ih =>
    have hedit : Edit target (target ++ [d]) := by simpa using Edit.insert target d []
    exact ih.more hedit
  | @delete n source target c _ ih =>
    have hedit : Edit (target ++ [c]) target := by simpa using Edit.delete target c []
    exact (ih.append_singleton c).more hedit
  | @replace n source target c d _ ih =>
    have hkept := ih.append_singleton c
    by_cases hcd : c = d
    · rw [replacementCost, if_pos hcd]
      exact hcd ▸ hkept
    · rw [replacementCost, if_neg hcd]
      exact hkept.more (.replace target c d [])

/-! ### An edit costs an alignment one at most -/

/-- What is aligned with `target` can be aligned with `target'` for one more. -/
def Near (target target' : List Char) : Prop :=
  ∀ n source, Aligned n source target → ∃ m ≤ n + 1, Aligned m source target'

theorem near_insert (target : List Char) (d : Char) : Near target (target ++ [d]) :=
  fun n _ h => ⟨n + 1, Nat.le_refl _, h.insert d⟩

theorem near_delete (target : List Char) (d : Char) : Near (target ++ [d]) target := by
  intro n source h
  generalize htarget : target ++ [d] = whole at h
  induction h with
  | nil => simp at htarget
  | @insert n _ _ _ h =>
    obtain ⟨rfl, -⟩ := List.append_singleton_inj.1 htarget
    exact ⟨n, by omega, h⟩
  | delete c _ ih =>
    obtain ⟨m, hm, hm'⟩ := ih htarget
    exact ⟨m + 1, by omega, hm'.delete c⟩
  | @replace n _ _ c _ h =>
    obtain ⟨rfl, -⟩ := List.append_singleton_inj.1 htarget
    exact ⟨n + 1, by omega, h.delete c⟩

theorem near_replace (target : List Char) (d e : Char) :
    Near (target ++ [d]) (target ++ [e]) := by
  intro n source h
  generalize htarget : target ++ [d] = whole at h
  induction h with
  | nil => simp at htarget
  | @insert n _ _ _ h =>
    obtain ⟨rfl, -⟩ := List.append_singleton_inj.1 htarget
    exact ⟨n + 1, by omega, h.insert e⟩
  | delete c _ ih =>
    obtain ⟨m, hm, hm'⟩ := ih htarget
    exact ⟨m + 1, by omega, hm'.delete c⟩
  | @replace n _ _ c _ h =>
    obtain ⟨rfl, -⟩ := List.append_singleton_inj.1 htarget
    have := replacementCost_le c e
    exact ⟨n + replacementCost c e, by omega, h.replace c e⟩

/-- Characters behind it do not make an edit dearer. -/
theorem Near.append_singleton {target target' : List Char} (hnear : Near target target')
    (d : Char) : Near (target ++ [d]) (target' ++ [d]) := by
  intro n source h
  generalize htarget : target ++ [d] = whole at h
  induction h with
  | nil => simp at htarget
  | insert _ h =>
    obtain ⟨rfl, rfl⟩ := List.append_singleton_inj.1 htarget
    obtain ⟨m, hm, hm'⟩ := hnear _ _ h
    exact ⟨m + 1, by omega, hm'.insert d⟩
  | delete c _ ih =>
    obtain ⟨m, hm, hm'⟩ := ih htarget
    exact ⟨m + 1, by omega, hm'.delete c⟩
  | replace c _ h =>
    obtain ⟨rfl, rfl⟩ := List.append_singleton_inj.1 htarget
    obtain ⟨m, hm, hm'⟩ := hnear _ _ h
    exact ⟨m + replacementCost c d, by omega, hm'.replace c d⟩

theorem Near.append {target target' : List Char} (hnear : Near target target')
    (back : List Char) : Near (target ++ back) (target' ++ back) := by
  induction back using List.reverseRecOn with
  | nil => simpa using hnear
  | append_singleton back d ih => simpa using ih.append_singleton d

theorem Edit.near {target target' : List Char} (h : Edit target target') :
    Near target target' := by
  cases h with
  | insert front c back => simpa using (near_insert front c).append back
  | delete front c back => simpa using (near_delete front c).append back
  | replace front c d back => simpa using (near_replace front c d).append back

theorem aligned_self (cs : List Char) : Aligned 0 cs cs := by
  induction cs using List.reverseRecOn with
  | nil => exact .nil
  | append_singleton cs c ih =>
    have h := ih.replace c c
    rwa [replacementCost, if_pos rfl] at h

theorem Edits.exists_aligned (h : Edits n source target) : ∃ m ≤ n, Aligned m source target := by
  induction h with
  | none cs => exact ⟨0, Nat.le_refl 0, aligned_self cs⟩
  | more _ hedit ih =>
    obtain ⟨m, hm, haligned⟩ := ih
    obtain ⟨k, hk, hk'⟩ := hedit.near m _ haligned
    exact ⟨k, by omega, hk'⟩

/-! ### The least alignment, from those of the beginnings -/

/-- The cheapest alignment costs so much. -/
def LeastAligned (source target : List Char) (least : Nat) : Prop :=
  IsLeast {n | Aligned n source target} least

theorem LeastAligned.isLeast_edits {least : Nat} (h : LeastAligned source target least) :
    IsLeast {n | Edits n source target} least := by
  refine ⟨h.1.edits, ?_⟩
  intro n hn
  obtain ⟨m, hm, haligned⟩ := hn.exists_aligned
  exact Nat.le_trans (h.2 haligned) hm

theorem leastAligned_nil : LeastAligned [] [] 0 := ⟨.nil, fun _ _ => Nat.zero_le _⟩

/-- From nothing, all characters are inserted. -/
theorem LeastAligned.insert {least : Nat} (h : LeastAligned [] target least) (d : Char) :
    LeastAligned [] (target ++ [d]) (least + 1) := by
  refine ⟨h.1.insert d, fun n hn => ?_⟩
  rcases Aligned.last hn with ⟨-, hempty⟩ | ⟨m, before, e, rfl, heq, hm⟩ |
    ⟨m, before, e, -, heq, -⟩ | ⟨m, before, -, e, -, -, heq, -⟩
  · simp at hempty
  · obtain ⟨rfl, -⟩ := List.append_singleton_inj.1 heq
    exact Nat.succ_le_succ (h.2 hm)
  · simp at heq
  · simp at heq

/-- To nothing, all characters are deleted. -/
theorem LeastAligned.delete {least : Nat} (h : LeastAligned source [] least) (c : Char) :
    LeastAligned (source ++ [c]) [] (least + 1) := by
  refine ⟨h.1.delete c, fun n hn => ?_⟩
  rcases Aligned.last hn with ⟨hempty, -⟩ | ⟨m, before, e, -, heq, -⟩ |
    ⟨m, before, e, rfl, heq, hm⟩ | ⟨m, -, before, -, e, -, -, heq, -⟩
  · simp at hempty
  · simp at heq
  · obtain ⟨rfl, -⟩ := List.append_singleton_inj.1 heq
    exact Nat.succ_le_succ (h.2 hm)
  · simp at heq

/-- The last step inserts, deletes or replaces, whichever is cheapest. -/
theorem LeastAligned.step {left above diagonal : Nat}
    (hleft : LeastAligned (source ++ [c]) target left)
    (habove : LeastAligned source (target ++ [d]) above)
    (hdiagonal : LeastAligned source target diagonal) :
    LeastAligned (source ++ [c]) (target ++ [d])
      (min (min (left + 1) (above + 1)) (diagonal + replacementCost c d)) := by
  constructor
  · rcases Nat.le_total (min (left + 1) (above + 1)) (diagonal + replacementCost c d)
      with hle | hle
    · rw [Nat.min_eq_left hle]
      rcases Nat.le_total (left + 1) (above + 1) with hle' | hle'
      · rw [Nat.min_eq_left hle']
        exact hleft.1.insert d
      · rw [Nat.min_eq_right hle']
        exact habove.1.delete c
    · rw [Nat.min_eq_right hle]
      exact hdiagonal.1.replace c d
  · intro n hn
    rcases Aligned.last hn with ⟨hempty, -⟩ | ⟨m, before, e, rfl, heq, hm⟩ |
      ⟨m, before, e, rfl, heq, hm⟩ | ⟨m, before, before', e, e', rfl, heq, heq', hm⟩
    · simp at hempty
    · obtain ⟨rfl, -⟩ := List.append_singleton_inj.1 heq
      have := hleft.2 hm
      omega
    · obtain ⟨rfl, -⟩ := List.append_singleton_inj.1 heq
      have := habove.2 hm
      omega
    · obtain ⟨rfl, rfl⟩ := List.append_singleton_inj.1 heq
      obtain ⟨rfl, rfl⟩ := List.append_singleton_inj.1 heq'
      have := hdiagonal.2 hm
      omega

/-! ### The table -/

/-- A row has the least costs for the beginnings of the target that go on behind `front`. -/
def Measures (source front : List Char) : List Char → List Nat → Prop
  | [], row => row = []
  | t :: target, row => ∃ least rest, row = least :: rest ∧
      LeastAligned source (front ++ [t]) least ∧ Measures source (front ++ [t]) target rest

variable {front : List Char} {row : List Nat}

theorem measures_nextDistances {left diagonal : Nat}
    (hleft : LeastAligned (source ++ [c]) front left)
    (hdiagonal : LeastAligned source front diagonal) (hrow : Measures source front target row) :
    Measures (source ++ [c]) front target (nextDistances c left diagonal target row) := by
  induction target generalizing front left diagonal row with
  | nil => exact rfl
  | cons t target ih =>
    obtain ⟨above, row, rfl, habove, hrow⟩ := hrow
    have hhere := LeastAligned.step hleft habove hdiagonal
    exact ⟨_, _, rfl, hhere, ih hhere habove hrow⟩

/-- The row for all beginnings of the target, the empty one included. -/
def MeasuresAll (source target : List Char) (row : List Nat) : Prop :=
  ∃ first rest, row = first :: rest ∧ LeastAligned source [] first ∧
    Measures source [] target rest

theorem measuresAll_nextRow (h : MeasuresAll source target row) :
    MeasuresAll (source ++ [c]) target (nextRow target row c) := by
  obtain ⟨first, rest, rfl, hfirst, hrest⟩ := h
  exact ⟨_, _, rfl, hfirst.delete c, measures_nextDistances (hfirst.delete c) hfirst hrest⟩

theorem measures_range' {start : Nat} (h : LeastAligned [] front start) (target : List Char) :
    Measures [] front target (List.range' (start + 1) target.length) := by
  induction target generalizing front start with
  | nil => rfl
  | cons t target ih => exact ⟨_, _, List.range'_succ, h.insert t, ih (h.insert t)⟩

theorem measuresAll_range (target : List Char) :
    MeasuresAll [] target (List.range (target.length + 1)) := by
  refine ⟨0, List.range' 1 target.length, ?_, leastAligned_nil, measures_range' leastAligned_nil _⟩
  rw [List.range_eq_range', List.range'_succ]

/-- Every character of the source makes a new row. -/
theorem measuresAll_foldl (h : MeasuresAll source target row) (more : List Char) :
    MeasuresAll (source ++ more) target (more.foldl (nextRow target) row) := by
  induction more generalizing source row with
  | nil => simpa using h
  | cons c more ih => simpa using ih (measuresAll_nextRow (c := c) h)

theorem exists_getLast? {start : Nat} (hstart : LeastAligned source front start)
    (h : Measures source front target row) :
    ∃ least, (start :: row).getLast? = some least ∧
      LeastAligned source (front ++ target) least := by
  induction target generalizing front start row with
  | nil =>
    obtain rfl : row = [] := h
    exact ⟨start, rfl, by simpa using hstart⟩
  | cons t target ih =>
    obtain ⟨next, row, rfl, hnext, hrow⟩ := h
    obtain ⟨least, hlast, hleast⟩ := ih hnext hrow
    exact ⟨least, by rw [List.getLast?_cons_cons, hlast], by simpa using hleast⟩

theorem isLeast_editDistance (source target : List Char) :
    IsLeast {n | Edits n source target} (editDistance source target) := by
  have htable := measuresAll_foldl (measuresAll_range target) source
  unfold editDistance
  generalize source.foldl (nextRow target) (List.range (target.length + 1)) = row at htable ⊢
  obtain ⟨first, rest, rfl, hfirst, hrest⟩ := htable
  obtain ⟨least, hlast, hleast⟩ := exists_getLast? hfirst hrest
  rw [hlast]
  exact hleast.isLeast_edits

end PluralForms
