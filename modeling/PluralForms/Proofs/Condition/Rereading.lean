import PluralForms.Proofs.Rule.Conditions
import PluralForms.Proofs.Text.Rejoining

/-!
# Conditions read from their canonical text

The canonical text of a condition is joined from clauses again, and a clause that could not be read
stands in it as it was, without the blanks around it. Such a clause may be any text, so the joined
text need not be cut where it was joined:

* if a broken clause ends in `and`, the cut moves, but the clause behind it is broken then;
* if trimming has brought an `or` to light, a group falls apart in two, and a part that holds may
  come free.

The second is the only way to another verdict:

    holds_readChars_render :
      ¬HidesOr cs → (readChars (readChars cs).render.toList).holds o = (readChars cs).holds o
-/

namespace PluralForms

/-! ### Clauses that cannot be read -/

theorem not_endsInDigit_append {front back : List Char}
    (h : back.getLast?.all Char.isDigit = false) : ¬EndsInDigit (front ++ back) := by
  rintro ⟨init, d, heq, hd⟩
  have hlast : (front ++ back).getLast? = some d := by rw [heq, List.getLast?_concat]
  rw [List.getLast?_append] at hlast
  cases hback : back.getLast? with
  | none => simp [hback] at h
  | some c =>
    rw [hback] at h hlast
    obtain rfl : c = d := by simpa using hlast
    simp [hd] at h

namespace Relation

/-- No relation begins as `or` or `and` does. -/
theorem not_writes_of_letters {a b : Char} {rest : List Char} {r : Relation}
    (hb : b ∈ "rn".toList) : ¬Writes (a :: b :: rest) r := by
  intro h
  have hform := readForm_complete h
  unfold readForm at hform
  dsimp only at hform
  split at hform
  · obtain rfl | rfl : b = 'r' ∨ b = 'n' := by simpa using hb
    · cases hform
    · cases hform
  · cases hform

end Relation

namespace Clause

/-- The canonical text of the clause with this text. -/
def canonical (cs : List Char) : List Char := (read cs).render.toList

theorem read_of_ok {cs : List Char} {r : Relation} (h : Relation.readChars cs = .ok r) :
    read cs = .relation r := by
  unfold read
  rw [h]

theorem read_of_error {cs : List Char} {e : ClauseError} (h : Relation.readChars cs = .error e) :
    read cs = .broken (String.ofList (Text.trim cs)) e := by
  unfold read
  rw [h]

theorem canonical_of_ok {cs : List Char} {r : Relation} (h : Relation.readChars cs = .ok r) :
    canonical cs = r.render.toList := by
  unfold canonical
  rw [read_of_ok h]
  rfl

/-- A broken clause is written as it was, without the blanks around it. -/
theorem canonical_of_error {cs : List Char} {e : ClauseError}
    (h : Relation.readChars cs = .error e) : canonical cs = Text.trim cs := by
  unfold canonical
  rw [read_of_error h]
  exact String.toList_ofList

theorem readChars_trim_eq_ok_iff {cs : List Char} {r : Relation} :
    Relation.readChars (Text.trim cs) = .ok r ↔ Relation.readChars cs = .ok r := by
  rw [Relation.readChars_eq_ok_iff, Relation.readChars_eq_ok_iff,
    Text.trim_eq_self (Text.trimmed_trim cs)]

/-- A clause means the same when its canonical text is read. -/
theorem holds_read_canonical (cs : List Char) (o : Operands) :
    (read (canonical cs)).holds o = (read cs).holds o := by
  cases h : Relation.readChars cs with
  | ok r =>
    have hread : Relation.readChars r.render.toList = .ok r :=
      Relation.readChars_render (Relation.wellFormed_of_readChars h)
    rw [canonical_of_ok h, read_of_ok h, read_of_ok hread]
  | error e =>
    rw [canonical_of_error h, read_of_error h]
    cases htrim : Relation.readChars (Text.trim cs) with
    | ok r =>
      rw [readChars_trim_eq_ok_iff, h] at htrim
      cases htrim
    | error e' =>
      rw [read_of_error htrim]
      rfl

theorem holds_of_not_writes {cs : List Char} (h : ∀ r, ¬Writes (Text.trim cs) r)
    (o : Operands) : (read cs).holds o = false := by
  obtain ⟨column, fault, hbad⟩ := Relation.readChars_of_not_writes fun ⟨r, hr⟩ => h r hr
  rw [read_of_error hbad]
  rfl

/-- A clause that begins with `and` is broken. -/
theorem holds_of_starts {cs : List Char} (h : "and".toList <+: cs) (o : Operands) :
    (read cs).holds o = false := by
  obtain ⟨rest, hrest⟩ := Text.prefix_trim (by decide) (by decide) h
  refine holds_of_not_writes (fun r hwrites => ?_) o
  rw [← hrest] at hwrites
  exact Relation.not_writes_of_letters (by decide) hwrites

/-! ### Their canonical texts -/

theorem trimmed_canonical (cs : List Char) : Text.Trimmed (canonical cs) := by
  cases h : Relation.readChars cs with
  | ok r =>
    rw [canonical_of_ok h]
    exact (Relation.outline_render (Relation.wellFormed_of_readChars h)).trimmed
  | error e =>
    rw [canonical_of_error h]
    exact Text.trimmed_trim cs

theorem canonical_ne_nil {cs : List Char} (h : Text.trim cs ≠ []) : canonical cs ≠ [] := by
  cases hread : Relation.readChars cs with
  | ok r =>
    obtain ⟨c, rest, hrender, -⟩ :=
      (Relation.outline_render (Relation.wellFormed_of_readChars hread)).first
    rw [canonical_of_ok hread, hrender]
    exact List.cons_ne_nil c rest
  | error e => rwa [canonical_of_error hread]

/-- A canonical text has no blanks around it; it is empty only for a blank clause. -/
theorem opens_canonical {cs : List Char} (h : Text.Opens cs) : Text.Opens (canonical cs) :=
  (Text.opens_closes_iff.2 ⟨canonical_ne_nil h.trim_ne_nil, trimmed_canonical cs⟩).1

theorem closes_canonical {cs : List Char} (h : Text.Closes cs) : Text.Closes (canonical cs) :=
  (Text.opens_closes_iff.2 ⟨canonical_ne_nil h.trim_ne_nil, trimmed_canonical cs⟩).2

theorem unmarked_canonical {cs : List Char} (h : '@' ∉ cs) : '@' ∉ canonical cs := by
  cases hread : Relation.readChars cs with
  | ok r =>
    rw [canonical_of_ok hread]
    exact (Relation.outline_render (Relation.wellFormed_of_readChars hread)).unmarked
  | error e =>
    rw [canonical_of_error hread]
    exact fun hmem => h (Text.mem_of_mem_trim hmem)

/-- What cannot be in a clause that is read is not in its canonical text. -/
theorem not_infix_canonical {sep cs : List Char} (hsep : ¬List.IsChain NoLaterLetter sep)
    (h : ¬sep <:+: cs) : ¬sep <:+: canonical cs := by
  cases hread : Relation.readChars cs with
  | ok r =>
    rw [canonical_of_ok hread]
    exact Text.not_infix_of_isChain (isChain_render (Relation.wellFormed_of_readChars hread)) hsep
  | error e =>
    rw [canonical_of_error hread]
    obtain ⟨front, back, -, -, hcs⟩ := Text.exists_trim cs
    exact fun hpart => h (hpart.trans ⟨front, back, hcs.symm⟩)

/-- A clause whose text ends in `and` is broken. -/
theorem holds_of_ends {cs : List Char} (h : "and".toList <:+ canonical cs) (o : Operands) :
    (read cs).holds o = false := by
  cases hread : Relation.readChars cs with
  | ok r =>
    have hdigit := (Relation.outline_render (Relation.wellFormed_of_readChars hread)).last
    rw [← canonical_of_ok hread] at hdigit
    obtain ⟨front, hfront⟩ := h
    rw [← hfront] at hdigit
    exact absurd hdigit (not_endsInDigit_append (by decide))
  | error e =>
    rw [read_of_error hread]
    rfl

/-- Only trimming adds an `or` to a clause. -/
theorem thinned_canonical {cs : List Char} (h : ¬Text.Hides "or".toList cs) :
    Text.Thinned "or".toList cs (canonical cs) := by
  have htrim : Text.Thinned "or".toList cs (Text.trim cs) :=
    Text.thinned_trim (by decide) (by decide) h
  cases hread : Relation.readChars cs with
  | ok r =>
    -- a clause that is read has no `or`, before and after
    obtain ⟨hwrites, -⟩ := Relation.readChars_eq_ok_iff.1 hread
    refine htrim.trans ⟨?_, fun hfirst => ?_, fun hlast => ?_⟩
    · have hnone : "or".toList ∉ Text.words (canonical cs) := by
        intro hmem
        have hchain := isChain_render (Relation.wellFormed_of_readChars hread)
        rw [canonical_of_ok hread] at hmem
        refine Text.not_infix_of_isChain hchain ?_ (Text.infix_of_mem_words hmem)
        unfold NoLaterLetter
        decide
      rw [List.count_eq_zero.2 hnone]
      exact Nat.zero_le _
    · obtain ⟨rest, hrest⟩ := Text.prefix_of_head?_words hfirst
      rw [← hrest] at hwrites
      exact absurd hwrites (Relation.not_writes_of_letters (by decide))
    · obtain ⟨front, hfront⟩ := Text.suffix_of_getLast?_words hlast
      have hdigit := Relation.endsInDigit_of_writes hwrites
      rw [← hfront] at hdigit
      exact absurd hdigit (not_endsInDigit_append (by decide))
  | error e => rwa [canonical_of_error hread]

end Clause

/-! ### Groups -/

namespace Group

/-- The canonical text of the group of clauses with this text. -/
def canonical (cs : List Char) : List Char :=
  " and ".toList.intercalate ((Text.splitOn " and ".toList cs).map Clause.canonical)

/-- The verdict on the group of clauses with this text. -/
def verdict (o : Operands) (cs : List Char) : Bool :=
  (Text.splitOn " and ".toList cs).all fun clause => (Clause.read clause).holds o

theorem verdict_eq_false {o : Operands} {cs clause : List Char}
    (hclause : clause ∈ Text.splitOn " and ".toList cs)
    (h : (Clause.read clause).holds o = false) : verdict o cs = false := by
  rw [verdict, List.all_eq_false]
  exact ⟨clause, hclause, by rw [h]; exact Bool.false_ne_true⟩

/-- A group means the same when its canonical text is read, however that is cut. -/
theorem verdict_canonical (o : Operands) (cs : List Char) :
    verdict o (canonical cs) = verdict o cs := by
  have hsep : " and ".toList ≠ [] := by decide
  have hchain : ¬List.IsChain NoLaterLetter " and ".toList := by
    unfold NoLaterLetter
    decide
  have hclauses : ∀ clause ∈ (Text.splitOn " and ".toList cs).map Clause.canonical,
      ¬Text.spaced "and".toList <:+: clause := by
    intro piece hpiece
    obtain ⟨clause, hclause, rfl⟩ := List.mem_map.1 hpiece
    exact Clause.not_infix_canonical hchain
      ((Text.divided_splitOn hsep cs).1.not_isInfix hsep clause hclause)
  have hne : (Text.splitOn " and ".toList cs).map Clause.canonical ≠ [] := by
    simpa using Text.splitOn_ne_nil _ cs
  rcases Text.splitOn_intercalate_or (by decide) hne hclauses with
    hsame | ⟨⟨piece, hpiece, hend⟩, next, hnext, hstart⟩
  · have hsame : Text.splitOn " and ".toList (canonical cs) =
        (Text.splitOn " and ".toList cs).map Clause.canonical := hsame
    unfold verdict
    rw [hsame, List.all_map]
    congr 1
    funext clause
    exact Clause.holds_read_canonical clause o
  · -- one clause ends in `and`, and so is broken; the clause behind it begins with `and` now
    obtain ⟨clause, hclause, rfl⟩ := List.mem_map.1 hpiece
    have hnext : next ∈ Text.splitOn " and ".toList (canonical cs) := hnext
    have hend : "and".toList <:+ Clause.canonical clause := (List.suffix_cons ' ' _).trans hend
    rw [verdict_eq_false hnext (Clause.holds_of_starts hstart o),
      verdict_eq_false hclause (Clause.holds_of_ends hend o)]

theorem intercalate_splitOn (cs : List Char) :
    " and ".toList.intercalate (Text.splitOn " and ".toList cs) = cs :=
  (Text.divided_splitOn (by decide) cs).2

theorem thinned_canonical {cs : List Char}
    (h : ∀ clause ∈ Text.splitOn " and ".toList cs, ¬Text.Hides "or".toList clause) :
    Text.Thinned "or".toList cs (canonical cs) := by
  have hjoined := Text.Thinned.intercalate (show ' ' ∉ "and".toList by decide)
    (fun clause hclause => Clause.thinned_canonical (h clause hclause)) (Text.splitOn_ne_nil _ cs)
  have hcs := intercalate_splitOn cs
  rw [show Text.spaced "and".toList = " and ".toList from rfl, hcs] at hjoined
  exact hjoined

/-- No blanks come to stand at an end. -/
theorem opens_canonical {cs : List Char} (h : Text.Opens cs) : Text.Opens (canonical cs) := by
  rw [← intercalate_splitOn cs] at h
  exact Text.opens_intercalate_map "and".toList
    (fun clause _ => Clause.opens_canonical) h

theorem closes_canonical {cs : List Char} (h : Text.Closes cs) : Text.Closes (canonical cs) := by
  rw [← intercalate_splitOn cs] at h
  exact Text.closes_intercalate_map "and".toList
    (fun clause _ => Clause.closes_canonical) h

theorem unmarked_canonical {cs : List Char} (h : '@' ∉ cs) : '@' ∉ canonical cs := by
  refine Text.not_mem_intercalate (by decide) fun piece hpiece => ?_
  obtain ⟨clause, hclause, rfl⟩ := List.mem_map.1 hpiece
  have hpart := Text.infix_of_mem_splitOn (by decide) hclause
  exact Clause.unmarked_canonical fun hmem => h (hpart.subset hmem)

end Group

/-! ### Conditions -/

namespace Condition

/-- Trimming brings an `or` to light in a clause of this condition. -/
def HidesOr (cs : List Char) : Prop :=
  ∃ clauses ∈ clauseTexts cs, ∃ clause ∈ clauses, Text.Hides "or".toList clause

instance (cs : List Char) : Decidable (HidesOr cs) := by
  unfold HidesOr
  infer_instance

variable {cs : List Char}

theorem clauseTexts_of_not_blank (h : Text.trim cs ≠ []) :
    clauseTexts cs =
      (Text.splitOn " or ".toList (Text.trim cs)).map (Text.splitOn " and ".toList) := by
  unfold clauseTexts
  split
  · next hblank => exact absurd hblank h
  · rfl

theorem readChars_of_blank (h : Text.trim cs = []) : readChars cs = .always := by
  unfold readChars clauseTexts
  rw [h]

theorem readChars_of_not_blank (h : Text.trim cs ≠ []) :
    readChars cs = .anyOf ((Text.splitOn " or ".toList (Text.trim cs)).map fun group =>
      ⟨(Text.splitOn " and ".toList group).map Clause.read⟩) := by
  unfold readChars
  rw [clauseTexts_of_not_blank h]
  split
  · next hnil => exact absurd (List.map_eq_nil_iff.1 hnil) (Text.splitOn_ne_nil _ _)
  · rw [List.map_map]
    rfl

theorem holds_readChars (h : Text.trim cs ≠ []) (o : Operands) :
    (readChars cs).holds o =
      (Text.splitOn " or ".toList (Text.trim cs)).any (Group.verdict o) := by
  rw [readChars_of_not_blank h, holds, List.any_map]
  congr 1
  funext group
  exact List.all_map

theorem toList_render_readChars (h : Text.trim cs ≠ []) :
    (readChars cs).render.toList = " or ".toList.intercalate
      ((Text.splitOn " or ".toList (Text.trim cs)).map Group.canonical) := by
  rw [readChars_of_not_blank h, toList_render, List.map_map]
  congr 2
  funext group
  rw [Function.comp_apply, Group.toList_render, List.map_map]
  rfl

theorem trimmed_render_readChars (cs : List Char) :
    Text.Trimmed (readChars cs).render.toList ∧
      (Text.trim cs ≠ [] → (readChars cs).render.toList ≠ []) := by
  by_cases h : Text.trim cs = []
  · rw [readChars_of_blank h]
    exact ⟨Text.trimmed_nil, fun hne => absurd h hne⟩
  · obtain ⟨hopens, hcloses⟩ := Text.opens_closes_iff.2 ⟨h, Text.trimmed_trim cs⟩
    rw [← (Text.divided_splitOn (show " or ".toList ≠ [] by decide) (Text.trim cs)).2]
      at hopens hcloses
    have hsolid := Text.opens_closes_iff.1
      ⟨Text.opens_intercalate_map "or".toList
          (fun group _ => Group.opens_canonical) hopens,
        Text.closes_intercalate_map "or".toList
          (fun group _ => Group.closes_canonical) hcloses⟩
    rw [toList_render_readChars h]
    exact ⟨hsolid.2, fun _ => hsolid.1⟩

theorem unmarked_render_readChars (h : '@' ∉ cs) : '@' ∉ (readChars cs).render.toList := by
  by_cases hblank : Text.trim cs = []
  · rw [readChars_of_blank hblank]
    exact List.not_mem_nil
  · rw [toList_render_readChars hblank]
    refine Text.not_mem_intercalate (by decide) fun piece hpiece => ?_
    obtain ⟨group, hgroup, rfl⟩ := List.mem_map.1 hpiece
    have hpart := Text.infix_of_mem_splitOn (by decide) hgroup
    exact Group.unmarked_canonical fun hmem => h (Text.mem_of_mem_trim (hpart.subset hmem))

/-- The groups of a canonical text are the canonical texts of the groups. -/
theorem splitOn_render_readChars (hblank : Text.trim cs ≠ []) (h : ¬HidesOr cs) :
    Text.splitOn " or ".toList (readChars cs).render.toList =
      (Text.splitOn " or ".toList (Text.trim cs)).map Group.canonical := by
  rw [toList_render_readChars hblank]
  refine Text.splitOn_rejoined (show ' ' ∉ "or".toList by decide) fun group hgroup => ?_
  refine Group.thinned_canonical fun clause hclause hhides => h ?_
  refine ⟨Text.splitOn " and ".toList group, ?_, clause, hclause, hhides⟩
  rw [clauseTexts_of_not_blank hblank]
  exact List.mem_map_of_mem hgroup

theorem holds_readChars_render (h : ¬HidesOr cs) (o : Operands) :
    (readChars (readChars cs).render.toList).holds o = (readChars cs).holds o := by
  by_cases hblank : Text.trim cs = []
  · rw [readChars_of_blank hblank]
    rfl
  · obtain ⟨htrimmed, hne⟩ := trimmed_render_readChars cs
    have htrim := Text.trim_eq_self htrimmed
    have hsome : Text.trim (readChars cs).render.toList ≠ [] := by
      rw [htrim]
      exact hne hblank
    rw [holds_readChars hsome, holds_readChars hblank, htrim, splitOn_render_readChars hblank h,
      List.any_map]
    congr 1
    funext group
    exact Group.verdict_canonical o group

/-- Where all blanks are spaces, nothing is hidden. -/
theorem not_hidesOr_of_spaces (h : ∀ c ∈ cs, Text.isBlank c = true → c = ' ') :
    ¬HidesOr cs := by
  rintro ⟨clauses, hclauses, clause, hclause, hhides⟩
  by_cases hblank : Text.trim cs = []
  · have hnone : clauseTexts cs = [] := by
      unfold clauseTexts
      rw [hblank]
    rw [hnone] at hclauses
    exact List.not_mem_nil hclauses
  · rw [clauseTexts_of_not_blank hblank] at hclauses
    obtain ⟨group, hgroup, rfl⟩ := List.mem_map.1 hclauses
    refine Text.not_hides_of_spaces (fun c hc => h c ?_) hhides
    have hcg : c ∈ group := (Text.infix_of_mem_splitOn (by decide) hclause).subset hc
    exact Text.mem_of_mem_trim ((Text.infix_of_mem_splitOn (by decide) hgroup).subset hcg)

end Condition

end PluralForms
