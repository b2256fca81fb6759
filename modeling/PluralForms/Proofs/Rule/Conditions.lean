import PluralForms.Condition
import PluralForms.Proofs.Clause.Rendering

/-!
# Canonical conditions

A condition is joined from clauses at two levels, and cut apart by looking for the same two words
in the text. The words are found nowhere else in a canonical text: no clause has a letter behind
its first character, and no group of clauses has the letters of `or` next to each other. So the
groups and the clauses that were joined are those that are cut,

    readChars_render : c.WellFormed → readChars c.render.toList = c

Without a broken clause, what is read from any text is well-formed (`wellFormed_readChars`).
-/

namespace PluralForms

/-! ### Well-formed conditions -/

/-- A relation that a clause can write; a broken clause is none. -/
def Clause.WellFormed : Clause → Prop
  | .relation r => r.WellFormed
  | .broken .. => False

/-- One clause or more. -/
structure Group.WellFormed (g : Group) : Prop where
  ne_nil : g.clauses ≠ []
  clauses : ∀ clause ∈ g.clauses, clause.WellFormed

namespace Condition

/-- The empty condition, or one group or more. -/
def WellFormed : Condition → Prop
  | .always => True
  | .anyOf groups => groups ≠ [] ∧ ∀ g ∈ groups, g.WellFormed

/-- Every clause has been read. -/
def Unbroken (condition : Condition) : Prop :=
  ∀ clause ∈ condition.clauses, ∃ r, clause = .relation r

theorem unbroken_of_wellFormed {condition : Condition} (h : condition.WellFormed) :
    condition.Unbroken := by
  intro clause hclause
  cases condition with
  | always => exact absurd hclause List.not_mem_nil
  | anyOf groups =>
    obtain ⟨g, hg, hmem⟩ := List.mem_flatMap.1 hclause
    have hwell : clause.WellFormed := (h.2 g hg).clauses clause hmem
    cases clause with
    | relation r => exact ⟨r, rfl⟩
    | broken text error => exact absurd hwell id

end Condition

/-! ### The clauses of a group -/

/-- No letter stands behind another character. -/
def NoLaterLetter (_ c : Char) : Prop := c.isLower = false

/-- Not the two letters of `or`. -/
def NotOr (a b : Char) : Prop := ¬(a = 'o' ∧ b = 'r')

theorem isChain_render {r : Relation} (h : r.WellFormed) :
    List.IsChain NoLaterLetter r.render.toList := by
  obtain ⟨rest, hrest, hinner, -⟩ := Relation.exists_inner_render h
  rw [hrest, List.isChain_iff_forall_rel_of_append_cons_cons]
  intro a b front back heq
  have hb : b ∈ rest := by
    cases front with
    | nil =>
      obtain ⟨-, rfl⟩ := List.cons.inj heq
      exact List.mem_cons_self
    | cons first front =>
      obtain ⟨-, rfl⟩ := List.cons.inj heq
      simp
  exact Relation.not_isLower_of_isInner (hinner b hb)

namespace Clause

theorem read_render {clause : Clause} (h : clause.WellFormed) :
    read clause.render.toList = clause := by
  cases clause with
  | relation r =>
    unfold read
    rw [show (relation r).render = r.render from rfl, Relation.readChars_render h]
  | broken text error => exact absurd h id

theorem outline_render {clause : Clause} (h : clause.WellFormed) :
    Outline clause.render.toList ∧ List.IsChain NoLaterLetter clause.render.toList := by
  cases clause with
  | relation r => exact ⟨Relation.outline_render h, isChain_render h⟩
  | broken text error => exact absurd h id

theorem wellFormed_read {cs : List Char} {r : Relation} (h : read cs = .relation r) :
    (read cs).WellFormed := by
  rw [h]
  unfold read at h
  split at h
  · next hread =>
    cases h
    exact Relation.wellFormed_of_readChars hread
  · simp at h

end Clause

/-- The end of a canonical text is in neither of the joining words. -/
theorem uncut_of_outline {R : Char → Char → Prop} {sep cs : List Char} (h : Outline cs)
    (hchain : List.IsChain R cs) (hsep : ¬List.IsChain R sep)
    (hdigits : sep.any Char.isDigit = false) : Text.Uncut sep cs := by
  refine Text.uncut_of_isChain hchain hsep fun c hc hmem => ?_
  obtain ⟨front, d, rfl, hd⟩ := h.last
  obtain rfl : d = c := by simpa using hc
  exact absurd hd (List.any_eq_false.1 hdigits d hmem)

namespace Group

theorem toList_render (g : Group) :
    g.render.toList = " and ".toList.intercalate (g.clauses.map (·.render.toList)) := by
  unfold render
  rw [String.toList_intercalate, List.map_map]
  rfl

/-- The clauses that were joined are cut apart. -/
theorem splitOn_render {g : Group} (h : g.WellFormed) :
    Text.splitOn " and ".toList g.render.toList = g.clauses.map (·.render.toList) := by
  rw [toList_render]
  refine Text.splitOn_intercalate (by decide) (by simpa using h.ne_nil) fun piece hpiece => ?_
  obtain ⟨clause, hclause, rfl⟩ := List.mem_map.1 hpiece
  obtain ⟨houtline, hchain⟩ := Clause.outline_render (h.clauses clause hclause)
  refine uncut_of_outline houtline hchain ?_ (by decide)
  intro hand
  exact absurd (List.isChain_cons_cons.1 hand).1 (by unfold NoLaterLetter; decide)

theorem outline_render {g : Group} (h : g.WellFormed) :
    Outline g.render.toList ∧ List.IsChain NotOr g.render.toList := by
  rw [toList_render]
  refine Text.intercalate_induction (P := fun cs => Outline cs ∧ List.IsChain NotOr cs)
    (by simpa using h.ne_nil) ?_ ?_
  · intro piece hpiece
    obtain ⟨clause, hclause, rfl⟩ := List.mem_map.1 hpiece
    obtain ⟨houtline, hchain⟩ := Clause.outline_render (h.clauses clause hclause)
    refine ⟨houtline, hchain.imp fun a b hab => ?_⟩
    rintro ⟨-, rfl⟩
    exact absurd hab (by unfold NoLaterLetter; decide)
  · rintro piece rest ⟨hpiece, hpiecechain⟩ ⟨hrest, hrestchain⟩
    refine ⟨hpiece.join hrest (by decide), ?_⟩
    have hand : List.IsChain NotOr " and ".toList := by
      simp [NotOr]
    refine List.isChain_append.2 ⟨hpiecechain, List.isChain_append.2 ⟨hand, hrestchain, ?_⟩, ?_⟩
    · intro a ha b hb
      obtain rfl : ' ' = a := by simpa using ha
      exact fun hor => absurd hor.1 (by decide)
    · intro a ha b hb
      obtain rfl : ' ' = b := by simpa using hb
      exact fun hor => absurd hor.2 (by decide)

/-- The group is read back from its clauses. -/
theorem read_render {g : Group} (h : g.WellFormed) :
    Group.mk ((Text.splitOn " and ".toList g.render.toList).map Clause.read) = g := by
  rw [splitOn_render h, List.map_map]
  have hclauses : g.clauses.map (Clause.read ∘ fun clause => clause.render.toList) = g.clauses :=
    (List.map_congr_left fun clause hclause => Clause.read_render (h.clauses clause hclause)).trans
      (List.map_id g.clauses)
  rw [hclauses]

end Group

namespace Condition

/-! ### The whole condition -/

theorem toList_render (groups : List Group) :
    (anyOf groups).render.toList = " or ".toList.intercalate (groups.map (·.render.toList)) := by
  unfold render
  dsimp only
  rw [String.toList_intercalate, List.map_map]
  rfl

/-- The groups that were joined are cut apart. -/
theorem splitOn_render {groups : List Group} (h : (anyOf groups).WellFormed) :
    Text.splitOn " or ".toList (anyOf groups).render.toList = groups.map (·.render.toList) := by
  rw [toList_render]
  refine Text.splitOn_intercalate (by decide) (by simpa using h.1) fun piece hpiece => ?_
  obtain ⟨g, hg, rfl⟩ := List.mem_map.1 hpiece
  obtain ⟨houtline, hchain⟩ := Group.outline_render (h.2 g hg)
  exact uncut_of_outline houtline hchain (by simp [NotOr]) (by decide)

theorem outline_render {groups : List Group} (h : (anyOf groups).WellFormed) :
    Outline (anyOf groups).render.toList := by
  rw [toList_render]
  refine Text.intercalate_induction (by simpa using h.1) ?_ ?_
  · intro piece hpiece
    obtain ⟨g, hg, rfl⟩ := List.mem_map.1 hpiece
    exact (Group.outline_render (h.2 g hg)).1
  · intro piece rest hpiece hrest
    exact hpiece.join hrest (by decide)

theorem unmarked_render {condition : Condition} (h : condition.WellFormed) :
    '@' ∉ condition.render.toList := by
  cases condition with
  | always => exact List.not_mem_nil
  | anyOf groups => exact (outline_render h).unmarked

theorem trimmed_render {condition : Condition} (h : condition.WellFormed) :
    Text.Trimmed condition.render.toList := by
  cases condition with
  | always => exact Text.trimmed_nil
  | anyOf groups => exact (outline_render h).trimmed

theorem clauseTexts_of_trimmed {cs : List Char} (h : Text.Trimmed cs) (hne : cs ≠ []) :
    clauseTexts cs = (Text.splitOn " or ".toList cs).map (Text.splitOn " and ".toList) := by
  unfold clauseTexts
  rw [Text.trim_eq_self h]
  cases cs with
  | nil => exact absurd rfl hne
  | cons c cs => rfl

/-- Reading undoes rendering. -/
theorem readChars_render {condition : Condition} (h : condition.WellFormed) :
    readChars condition.render.toList = condition := by
  cases condition with
  | always => rfl
  | anyOf groups =>
    have houtline : Outline (anyOf groups).render.toList := outline_render h
    have hne : (anyOf groups).render.toList ≠ [] := by
      obtain ⟨c, rest, heq, -⟩ := houtline.first
      rw [heq]
      exact List.cons_ne_nil c rest
    have htexts := clauseTexts_of_trimmed houtline.trimmed hne
    rw [splitOn_render h, List.map_map] at htexts
    have hgroups : (clauseTexts (anyOf groups).render.toList).map
        (fun clauses => Group.mk (clauses.map Clause.read)) = groups := by
      rw [htexts, List.map_map]
      exact (List.map_congr_left fun g hg => Group.read_render (h.2 g hg)).trans
        (List.map_id groups)
    unfold readChars
    split
    · next hnil =>
      rw [hnil] at hgroups
      exact absurd hgroups.symm h.1
    · rw [hgroups]

/-- Blanks around a condition are ignored. -/
theorem readChars_trim (cs : List Char) : readChars (Text.trim cs) = readChars cs := by
  unfold readChars clauseTexts
  rw [Text.trim_eq_self (Text.trimmed_trim cs)]

/-- Without a broken clause, every text is read as a condition that has a text. -/
theorem wellFormed_readChars {cs : List Char} (h : (readChars cs).Unbroken) :
    (readChars cs).WellFormed := by
  have hpieces : ∀ clauses ∈ clauseTexts cs, clauses ≠ [] := by
    intro clauses hclauses
    unfold clauseTexts at hclauses
    split at hclauses
    · exact absurd hclauses List.not_mem_nil
    · obtain ⟨text, -, rfl⟩ := List.mem_map.1 hclauses
      exact Text.splitOn_ne_nil _ _
  unfold readChars at h ⊢
  cases htexts : clauseTexts cs with
  | nil => trivial
  | cons first others =>
    rw [htexts] at h hpieces
    refine ⟨List.cons_ne_nil _ _, fun g hg => ?_⟩
    obtain ⟨clauses, hclauses, rfl⟩ := List.mem_map.1 hg
    refine ⟨fun hnil => hpieces clauses hclauses (List.map_eq_nil_iff.1 hnil), fun c hc => ?_⟩
    obtain ⟨text, -, rfl⟩ := List.mem_map.1 hc
    obtain ⟨r, hr⟩ := h _ (List.mem_flatMap.2 ⟨_, hg, hc⟩)
    exact Clause.wellFormed_read hr

end Condition

end PluralForms
