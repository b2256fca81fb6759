import Mathlib.Data.List.TakeWhile
import PluralForms.Text.Blank

/-!
# Runs of characters, and trimming

A reader takes the longest run of characters of one class and leaves the rest, so what it takes is
known from the run and from the first character behind it. Trimming takes the runs of blanks off
both ends of a text. It is a function whose reverse is not unique: a text may stand between any
blanks. The relation is

    trim_eq_iff : trim cs = word ↔ Trimmed word ∧ cs is word between blanks

* `takeWhile_run`, `dropWhile_run` - a run ends where the rest begins with another character;
* `trim_eq_iff` - what trimming gives, and of what texts.
-/

namespace PluralForms.Text

/-! ### Runs -/

variable {p : Char → Bool}

theorem takeWhile_run {run rest : List Char} (hrun : ∀ c ∈ run, p c = true)
    (hstop : ∀ c ∈ rest.head?, p c = false) : (run ++ rest).takeWhile p = run := by
  have hrest : rest.takeWhile p = [] := by
    cases rest with
    | nil => rfl
    | cons c rest => simp [hstop c rfl]
  rw [List.takeWhile_append_of_pos hrun, hrest, List.append_nil]

theorem dropWhile_run {run rest : List Char} (hrun : ∀ c ∈ run, p c = true)
    (hstop : ∀ c ∈ rest.head?, p c = false) : (run ++ rest).dropWhile p = rest := by
  rw [List.dropWhile_append_of_pos hrun]
  cases rest with
  | nil => rfl
  | cons c rest => simp [hstop c rfl]

/-- The rest behind a run begins with a character of another class. -/
theorem stop_dropWhile (cs : List Char) : ∀ c ∈ (cs.dropWhile p).head?, p c = false := by
  intro c hc
  have h := List.head?_dropWhile_not p cs
  rw [Option.mem_def.1 hc] at h
  exact h

theorem run_takeWhile (cs : List Char) : ∀ c ∈ cs.takeWhile p, p c = true :=
  fun _ hc => List.mem_takeWhile_imp hc

/-! ### Trimming -/

/-- Blanks only, perhaps none. -/
def IsBlankRun (cs : List Char) : Prop := ∀ c ∈ cs, isBlank c = true

instance (cs : List Char) : Decidable (IsBlankRun cs) :=
  decidable_of_iff (cs.all isBlank = true) List.all_eq_true

theorem isBlankRun_nil : IsBlankRun [] := fun _ hc => absurd hc List.not_mem_nil

theorem isBlankRun_space : IsBlankRun [' '] := by
  intro c hc
  obtain rfl : c = ' ' := by simpa using hc
  rfl

/-- The printed characters of ASCII are no blanks. -/
theorem not_isBlank_of_printed {c : Char} (h : 0x21 ≤ c.toNat ∧ c.toNat ≤ 0x7E) :
    isBlank c = false := by
  unfold isBlank
  dsimp only
  simp only [Bool.or_eq_false_iff, Bool.and_eq_false_iff, decide_eq_false_iff_not,
    beq_eq_false_iff_ne]
  omega

/-- No blank at either end. -/
structure Trimmed (cs : List Char) : Prop where
  first : ∀ c ∈ cs.head?, isBlank c = false
  last : ∀ c ∈ cs.getLast?, isBlank c = false

theorem trimmed_iff {cs : List Char} :
    Trimmed cs ↔ cs.head?.all (!isBlank ·) = true ∧ cs.getLast?.all (!isBlank ·) = true := by
  rw [Option.all_eq_true, Option.all_eq_true]
  constructor
  · rintro ⟨hfirst, hlast⟩
    exact ⟨fun c hc => by simp [hfirst c hc], fun c hc => by simp [hlast c hc]⟩
  · rintro ⟨hfirst, hlast⟩
    exact ⟨fun c hc => by simpa using hfirst c hc, fun c hc => by simpa using hlast c hc⟩

instance (cs : List Char) : Decidable (Trimmed cs) := decidable_of_iff _ trimmed_iff.symm

theorem trimmed_nil : Trimmed [] := by decide

theorem trimEnd_run {word back : List Char} (hback : IsBlankRun back)
    (hlast : ∀ c ∈ word.getLast?, isBlank c = false) : trimEnd (word ++ back) = word := by
  unfold trimEnd
  rw [List.reverse_append, dropWhile_run, List.reverse_reverse]
  · intro c hc
    exact hback c (List.mem_reverse.1 hc)
  · simpa [List.head?_reverse] using hlast

/-- Blanks around a trimmed text are taken off. -/
theorem trim_between {front word back : List Char} (hfront : IsBlankRun front)
    (hback : IsBlankRun back) (hword : Trimmed word) : trim (front ++ word ++ back) = word := by
  unfold trim trimStart
  rw [List.append_assoc, List.dropWhile_append_of_pos hfront]
  cases word with
  | nil =>
    rw [List.nil_append, List.dropWhile_eq_nil_iff.2 hback]
    rfl
  | cons c word =>
    have hc : isBlank c = false := hword.first c rfl
    rw [List.cons_append, List.dropWhile_cons_of_neg (by simp [hc])]
    exact trimEnd_run hback hword.last

theorem trim_eq_self {word : List Char} (hword : Trimmed word) : trim word = word := by
  simpa using trim_between isBlankRun_nil isBlankRun_nil hword

theorem trim_of_not_isBlank {cs : List Char} (h : ∀ c ∈ cs, isBlank c = false) : trim cs = cs := by
  apply trim_eq_self
  exact ⟨fun c hc => h c (List.mem_of_mem_head? hc), fun c hc => h c (List.mem_of_mem_getLast? hc)⟩

theorem trimEnd_prefix (cs : List Char) : ∃ back, cs = trimEnd cs ++ back ∧ IsBlankRun back := by
  refine ⟨(cs.reverse.takeWhile isBlank).reverse, ?_, ?_⟩
  · unfold trimEnd
    rw [← List.reverse_append, List.takeWhile_append_dropWhile, List.reverse_reverse]
  · intro c hc
    exact run_takeWhile _ c (List.mem_reverse.1 hc)

theorem trimmed_trim (cs : List Char) : Trimmed (trim cs) where
  first := by
    intro c hc
    obtain ⟨back, hback, -⟩ := trimEnd_prefix (trimStart cs)
    have hhead : c ∈ (trimStart cs).head? := by
      rw [hback, List.head?_append]
      unfold trim at hc
      simp [Option.mem_def.1 hc]
    exact stop_dropWhile cs c hhead
  last := by
    intro c hc
    unfold trim trimEnd at hc
    rw [List.getLast?_reverse] at hc
    exact stop_dropWhile _ c hc

/-- A text is its trimmed part between two runs of blanks. -/
theorem exists_trim (cs : List Char) :
    ∃ front back, IsBlankRun front ∧ IsBlankRun back ∧ cs = front ++ trim cs ++ back := by
  obtain ⟨back, hback, hrun⟩ := trimEnd_prefix (trimStart cs)
  refine ⟨leadingBlanks cs, back, run_takeWhile cs, hrun, ?_⟩
  have hcs : leadingBlanks cs ++ trimStart cs = cs := List.takeWhile_append_dropWhile
  rw [List.append_assoc, trim, ← hback, hcs]

theorem trim_eq_iff {cs word : List Char} :
    trim cs = word ↔
      Trimmed word ∧ ∃ front back, IsBlankRun front ∧ IsBlankRun back ∧
        cs = front ++ word ++ back := by
  constructor
  · rintro rfl
    exact ⟨trimmed_trim cs, exists_trim cs⟩
  · rintro ⟨hword, front, back, hfront, hback, rfl⟩
    exact trim_between hfront hback hword

/-- More blanks around a text are ignored too. -/
theorem trim_surrounded {front cs back : List Char} (hfront : IsBlankRun front)
    (hback : IsBlankRun back) : trim (front ++ (cs ++ back)) = trim cs := by
  obtain ⟨front', back', hfront', hback', hcs⟩ := exists_trim cs
  refine trim_eq_iff.2 ⟨trimmed_trim cs, front ++ front', back' ++ back, ?_, ?_, ?_⟩
  · exact fun c hc => (List.mem_append.1 hc).elim (hfront c) (hfront' c)
  · exact fun c hc => (List.mem_append.1 hc).elim (hback' c) (hback c)
  · have hmiddle : front' ++ trim cs ++ back' = cs := hcs.symm
    calc front ++ (cs ++ back) = front ++ ((front' ++ trim cs ++ back') ++ back) := by rw [hmiddle]
      _ = front ++ front' ++ trim cs ++ (back' ++ back) := by simp

theorem trim_append {cs back : List Char} (hback : IsBlankRun back) :
    trim (cs ++ back) = trim cs :=
  trim_surrounded isBlankRun_nil hback

/-- The blanks in front of a text come before its own, unless it is blank itself. -/
theorem leadingBlanks_surrounded {front cs back : List Char} (hfront : IsBlankRun front)
    (hcs : ¬IsBlankRun cs) : leadingBlanks (front ++ (cs ++ back)) = front ++ leadingBlanks cs := by
  unfold leadingBlanks
  rw [List.takeWhile_append_of_pos hfront, List.takeWhile_append, if_neg]
  intro hlength
  have hall : cs.takeWhile isBlank = cs := (List.takeWhile_prefix _).eq_of_length hlength
  exact hcs (hall ▸ run_takeWhile cs)

theorem mem_of_mem_trim {cs : List Char} {c : Char} (h : c ∈ trim cs) : c ∈ cs := by
  obtain ⟨front, back, -, -, hcs⟩ := exists_trim cs
  rw [hcs]
  exact List.mem_append_left _ (List.mem_append_right _ h)

theorem mem_trim {cs : List Char} {c : Char} (hc : c ∈ cs) (h : isBlank c = false) :
    c ∈ trim cs := by
  obtain ⟨front, back, hfront, hback, hcs⟩ := exists_trim cs
  rw [hcs, List.mem_append, List.mem_append] at hc
  have hrun : ∀ run, IsBlankRun run → c ∉ run := by
    intro run hblank hmem
    rw [hblank c hmem] at h
    exact absurd h.symm Bool.false_ne_true
  rcases hc with (hc | hc) | hc
  · exact absurd hc (hrun front hfront)
  · exact hc
  · exact absurd hc (hrun back hback)

theorem trim_reverse (cs : List Char) : trim cs.reverse = (trim cs).reverse := by
  obtain ⟨front, back, hfront, hback, hcs⟩ := exists_trim cs
  obtain ⟨hfirst, hlast⟩ := trimmed_trim cs
  refine trim_eq_iff.2 ⟨⟨?_, ?_⟩, back.reverse, front.reverse, ?_, ?_, ?_⟩
  · rwa [List.head?_reverse]
  · rwa [List.getLast?_reverse]
  · exact fun c hc => hback c (List.mem_reverse.1 hc)
  · exact fun c hc => hfront c (List.mem_reverse.1 hc)
  · have hreverse : (front ++ trim cs ++ back).reverse =
        back.reverse ++ (trim cs).reverse ++ front.reverse := by simp
    rwa [← hcs] at hreverse

theorem trim_map {f : Char → Char} (h : ∀ c, isBlank (f c) = isBlank c)
    (cs : List Char) : trim (cs.map f) = (trim cs).map f := by
  have hblank : isBlank ∘ f = isBlank := funext h
  unfold trim trimEnd trimStart
  rw [List.dropWhile_map, hblank, ← List.map_reverse, List.dropWhile_map, hblank, List.map_reverse]

end PluralForms.Text
