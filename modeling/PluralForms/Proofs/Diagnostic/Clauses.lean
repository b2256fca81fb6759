import PluralForms.Check
import PluralForms.Proofs.Condition.Rereading
import PluralForms.Proofs.Diagnostic.Symbols
import PluralForms.Proofs.RuleSet.Flaws
import PluralForms.Proofs.Table.Mapping
import PluralForms.Proofs.Text.Occurrences

/-!
# Where the clause of a warning is shown

A warning names a clause by its text, or by the symbol that its relation reads, and the diagnostic
looks for this in the text of the rule. What is at fault has a place of its own in that text: the
clauses of a rule stand where its condition is cut. The diagnostic shows that place if, and only if,
the search comes upon it first:

    labels_of_declared : label = the stretch at fault ↔ no stretch in front of it looks the same

For a clause that cannot be read, another stretch looks the same if it has the same characters, be
it inside a word. For a symbol it has to be set off from other letters, and the symbol at fault has
to be set off as well: with a blank of ASCII in front of it, and no tab and no `mod` right behind.
-/

namespace PluralForms

open Text

/-! ### Clauses where they stand -/

namespace Rule

/-- The condition of a rule. -/
def conditionStretch (cs : List Char) : Stretch :=
  ⟨[], conditionText cs, cs.dropWhile (· != '@')⟩

/-- The clauses of a rule, in order. -/
def clauseStretches (text : String) : List Stretch :=
  let condition := (conditionStretch text.toList).trim
  if condition.word = [] then []
  else (condition.splitOn " or ".toList).flatMap (Stretch.splitOn " and ".toList)

theorem text_conditionStretch (cs : List Char) : (conditionStretch cs).text = cs :=
  List.takeWhile_append_dropWhile

theorem map_word_clauseStretches (text : String) :
    (clauseStretches text).map Stretch.word = clauseTexts text := by
  have hcondition :
      (conditionStretch text.toList).trim.word = trim (conditionText text.toList) := rfl
  unfold clauseStretches clauseTexts Condition.clauseTexts
  dsimp only
  split
  · next hblank => rw [← hcondition, hblank]; rfl
  · next hne =>
    rw [← hcondition]
    generalize (conditionStretch text.toList).trim = condition at hne ⊢
    split
    · next hnil => exact absurd hnil hne
    · rw [← Stretch.map_word_splitOn, List.map_map, List.map_flatMap, List.flatMap_def]
      congr 1
      apply List.map_congr_left
      intro s _
      exact Stretch.map_word_splitOn _ s

theorem within_of_mem_clauseStretches {text : String} {s : Stretch}
    (h : s ∈ clauseStretches text) : s.Within (conditionStretch text.toList) := by
  unfold clauseStretches at h
  dsimp only at h
  split at h
  · exact absurd h List.not_mem_nil
  · obtain ⟨group, hgroup, hs⟩ := List.mem_flatMap.1 h
    have hclause : s.Within group := Stretch.within_of_mem_splitOn (by decide) hs
    have hcondition := Stretch.within_of_mem_splitOn (by decide) hgroup
    exact (hclause.trans hcondition).trans (Stretch.trim_within _)

theorem text_of_mem_clauseStretches {text : String} {s : Stretch}
    (h : s ∈ clauseStretches text) : s.text = text.toList :=
  (within_of_mem_clauseStretches h).text_eq.trans (text_conditionStretch text.toList)

/-- A letter that is set off in the condition stands in a clause: neither of the joining words has
one. -/
theorem exists_clause_of_isSetOff {text : String} {o : Stretch} {c : Char}
    (h : o.Within (conditionStretch text.toList)) (hword : o.word = [c]) (hc : c.isLower = true)
    (hset : o.IsSetOff) : ∃ s ∈ clauseStretches text, o.Within s.trim := by
  have hne : o.word ≠ [] := by
    rw [hword]
    exact List.cons_ne_nil c []
  have htrimmed : Trimmed o.word := by
    have hblank := not_isBlank_of_isLower hc
    rw [hword]
    exact ⟨by simpa using hblank, by simpa using hblank⟩
  have hcondition := h.trim hne htrimmed
  have hnonblank : (conditionStretch text.toList).trim.word ≠ [] := by
    obtain ⟨before, behind, -, hparts, -⟩ := hcondition
    rw [hparts]
    exact List.append_ne_nil_of_right_ne_nil before (List.append_ne_nil_of_left_ne_nil hne behind)
  unfold clauseStretches
  dsimp only
  rw [if_neg hnonblank]
  rcases hcondition.exists_splitOn_or " or ".toList (by decide) hword with
    ⟨group, hgroup, hin⟩ | hor
  · rcases hin.exists_splitOn_or " and ".toList (by decide) hword with
      ⟨s, hs, hin⟩ | hand
    · exact ⟨s, List.mem_flatMap.2 ⟨group, hgroup, hs⟩, hin.trim hne htrimmed⟩
    · exact absurd hset (not_isSetOff_of_inSeparator (by decide) hword hc hand)
  · exact absurd hset (not_isSetOff_of_inSeparator (by decide) hword hc hor)

end Rule

theorem Clause.writes_of_read {cs : List Char} {r : Relation}
    (h : Clause.read cs = .relation r) : Writes (trim cs) r := by
  cases hread : Relation.readChars cs with
  | error e =>
    rw [Clause.read_of_error hread] at h
    cases h
  | ok r' =>
    rw [Clause.read_of_ok hread] at h
    cases h
    exact (Relation.readChars_eq_ok_iff.1 hread).1

/-- A relation is written with its symbol first. -/
theorem exists_cons_of_writes {cs : List Char} {r : Relation} (h : Writes cs r) :
    ∃ rest, cs = r.symbol :: rest ∧ r.symbol.isLower = true := by
  cases h with
  | mk hsymbol => exact ⟨_, rfl, hsymbol⟩

/-- A clause of the rule that is declared for a category of a language. -/
structure DeclaredClause where
  language : String
  category : Category
  /-- The text of the rule. -/
  rule : String
  clause : Stretch
  deriving DecidableEq

/-- The clauses of a table, in order. -/
def Table.declaredClauses (t : Table) : List DeclaredClause :=
  t.languages.entries.flatMap fun (language, set) => set.rules.flatMap fun (category, rule) =>
    (Rule.clauseStretches rule).map fun clause => ⟨language, category, rule, clause⟩

namespace DeclaredClause

variable {d : DeclaredClause} {w : Warning}

/-- The warning about the clause, if there is one. -/
def warning? (d : DeclaredClause) : Option Warning :=
  RuleSet.clauseWarning d.language d.category (Clause.read d.clause.word)

/-- What is at fault if there is a warning: a clause that cannot be read, without the blanks around
it, and of a relation its symbol. -/
def fault (d : DeclaredClause) : Stretch :=
  match Clause.read d.clause.word with
  | .broken .. => d.clause.trim
  | .relation _ => d.clause.trim.first

/-- How the fault is known by its surroundings: a clause is not, and a symbol is set off. -/
def Marked (d : DeclaredClause) (s : Stretch) : Prop :=
  match Clause.read d.clause.word with
  | .broken .. => True
  | .relation _ => s.IsSetOff

theorem text_fault (d : DeclaredClause) : d.fault.text = d.clause.text := by
  unfold fault
  split
  · exact d.clause.trim_within.text_eq
  · exact (d.clause.trim.first_within.trans d.clause.trim_within).text_eq

theorem fault_of_broken {text : String} {e : ClauseError}
    (h : Clause.read d.clause.word = .broken text e) :
    d.fault = d.clause.trim ∧ d.Marked = fun _ => True := by
  unfold fault Marked
  rw [h]
  exact ⟨rfl, rfl⟩

theorem fault_of_relation {r : Relation} (h : Clause.read d.clause.word = .relation r) :
    d.fault = d.clause.trim.first ∧ d.Marked = Stretch.IsSetOff := by
  unfold fault Marked
  rw [h]
  exact ⟨rfl, rfl⟩

/-- There is a warning about a clause that cannot be read, and about a relation whose symbol names
no operand. -/
theorem warning?_cases (h : d.warning? = some w) :
    (∃ e, Clause.read d.clause.word = .broken (String.ofList (trim d.clause.word)) e ∧
      w = .brokenClause d.language d.category (String.ofList (trim d.clause.word)) e.message) ∨
    ∃ r, Clause.read d.clause.word = .relation r ∧ r.operand? = none ∧
      w = .unknownOperand d.language d.category r.symbol := by
  unfold warning? at h
  cases hread : Relation.readChars d.clause.word with
  | error e =>
    have hclause := Clause.read_of_error hread
    rw [hclause] at h
    exact Or.inl ⟨e, hclause, (Option.some.inj h).symm⟩
  | ok r =>
    have hclause := Clause.read_of_ok hread
    rw [hclause] at h
    obtain ⟨hnone, hw⟩ := Option.ite_none_right_eq_some.1 h
    exact Or.inr ⟨r, hclause, Option.isNone_iff_eq_none.1 hnone, (Option.some.inj hw).symm⟩

theorem word_fault_of_relation {r : Relation} (h : Clause.read d.clause.word = .relation r) :
    d.fault.word = [r.symbol] := by
  rw [(fault_of_relation h).1]
  show (trim d.clause.word).take 1 = [r.symbol]
  obtain ⟨rest, hrest, -⟩ := exists_cons_of_writes (Clause.writes_of_read h)
  rw [hrest]
  rfl

end DeclaredClause

/-! ### What the searches find -/

section Searches

variable {s : Stretch} {cs : List Char}

theorem isPrefixOf_place_iff {word : List Char} (hs : s.word = word) :
    word.isPrefixOf s.place.rest = true ↔ True := by
  rw [List.isPrefixOf_iff_prefix, ← hs]
  exact iff_true_intro (List.prefix_append s.word s.back)

theorem wordSpan_eq_iff (htext : s.text = cs) :
    wordSpan s.word cs = some s.span ↔ s.IsFirst fun _ => True :=
  map_span_find?_iff (fun _ => List.isPrefixOf_iff_prefix.1) (fun _ => isPrefixOf_place_iff) htext
    rfl

/-- A word that is there is found. -/
theorem isSome_wordSpan (htext : s.text = cs) : (wordSpan s.word cs).isSome = true := by
  unfold wordSpan
  rw [Option.isSome_map]
  exact find?_places_isSome (fun _ => isPrefixOf_place_iff) htext rfl trivial

theorem prefix_of_hasSymbol {symbol : Char} (p : Place) (h : p.hasSymbol symbol = true) :
    [symbol] <+: p.rest := by
  unfold Place.hasSymbol at h
  split at h
  · cases h
  · next c rest hrest =>
    simp only [Bool.and_eq_true, beq_iff_eq] at h
    rw [hrest, h.1.1]
    exact List.prefix_append [symbol] rest

theorem hasSymbol_place_iff {symbol : Char} (hs : s.word = [symbol]) :
    s.place.hasSymbol symbol = true ↔ s.IsSetOff := by
  obtain ⟨front, word, back⟩ := s
  obtain rfl : word = [symbol] := hs
  simp [Stretch.place, Place.hasSymbol, Stretch.IsSetOff]

theorem symbolSpan_eq_iff {symbol : Char} (htext : s.text = cs) (hs : s.word = [symbol]) :
    symbolSpan symbol cs = some s.span ↔ s.IsFirst Stretch.IsSetOff :=
  map_span_find?_iff prefix_of_hasSymbol (fun _ => hasSymbol_place_iff) htext hs

end Searches

/-! ### Labels -/

namespace DeclaredClause

variable {d : DeclaredClause} {w : Warning}

theorem category?_of_warning? (h : d.warning? = some w) :
    w.language = d.language ∧ w.category? = some d.category := by
  rcases warning?_cases h with ⟨e, -, rfl⟩ | ⟨r, -, -, rfl⟩
  · exact ⟨rfl, rfl⟩
  · exact ⟨rfl, rfl⟩

/-- The label is the fault if the fault is the first stretch that looks like it. -/
theorem label_eq_iff (htext : d.clause.text = d.rule.toList) (h : d.warning? = some w) :
    (Diagnostic.ofWarning w (some d.rule)).span = some d.fault.span ↔
      d.fault.IsFirst d.Marked := by
  have hfault : d.fault.text = d.rule.toList := d.text_fault.trans htext
  rcases warning?_cases h with ⟨e, hread, rfl⟩ | ⟨r, hread, -, rfl⟩
  · obtain ⟨hstretch, hmarked⟩ := fault_of_broken hread
    rw [hmarked, ← wordSpan_eq_iff hfault, hstretch]
    show wordSpan (String.ofList (trim d.clause.word)).toList d.rule.toList = _ ↔ _
    rw [String.toList_ofList]
    rfl
  · rw [(fault_of_relation hread).2, ← symbolSpan_eq_iff hfault (word_fault_of_relation hread)]
    rfl

/-- A clause that cannot be read is shown somewhere. -/
theorem isSome_label_of_broken {e : ClauseError} {text : String}
    (htext : d.clause.text = d.rule.toList) (h : d.warning? = some w)
    (hread : Clause.read d.clause.word = .broken text e) :
    (Diagnostic.ofWarning w (some d.rule)).span.isSome = true := by
  rcases warning?_cases h with ⟨e, -, rfl⟩ | ⟨r, hrelation, -, -⟩
  · show (wordSpan (String.ofList (trim d.clause.word)).toList d.rule.toList).isSome = true
    rw [String.toList_ofList]
    exact isSome_wordSpan (s := d.clause.trim) (d.clause.trim_within.text_eq.trans htext)
  · rw [hread] at hrelation
    cases hrelation

/-- A symbol that is set off comes first among what looks like it, if all clauses that begin in
front of it can be read and have other symbols. -/
theorem isFirst_of_readable {r : Relation} (hclause : d.clause ∈ Rule.clauseStretches d.rule)
    (hread : Clause.read d.clause.word = .relation r) (hset : d.fault.IsSetOff)
    (hearlier : ∀ s ∈ Rule.clauseStretches d.rule, s.trim.front.length < d.fault.front.length →
      ∃ r', Clause.read s.word = .relation r' ∧ r'.symbol ≠ r.symbol) :
    d.fault.IsFirst Stretch.IsSetOff := by
  refine ⟨hset, fun o htext hword hoset => ?_⟩
  have hfault := word_fault_of_relation hread
  have hlower : r.symbol.isLower = true :=
    (exists_cons_of_writes (Clause.writes_of_read hread)).choose_spec.2
  rw [hfault] at hword
  by_contra hbefore
  have hcondition : d.fault.Within (Rule.conditionStretch d.rule.toList) := by
    rw [(fault_of_relation hread).1]
    exact (d.clause.trim.first_within.trans d.clause.trim_within).trans
      (Rule.within_of_mem_clauseStretches hclause)
  have hend := hcondition.end_le
  have hin : o.Within (Rule.conditionStretch d.rule.toList) := by
    refine Stretch.within_of_length_le (htext.trans hcondition.text_eq) (Nat.zero_le _) ?_
    rw [hfault] at hend
    rw [hword]
    simp only [List.length_singleton] at hend ⊢
    omega
  obtain ⟨s, hs, hwithin⟩ := Rule.exists_clause_of_isSetOff hin hword hlower hoset
  have hstart := hwithin.length_le
  obtain ⟨r', hread', hne⟩ := hearlier s hs (by omega)
  have hwrites : Writes s.trim.word r' := Clause.writes_of_read hread'
  exact hne (eq_first_of_writes hwrites hwithin hword hlower hoset).2.symm

end DeclaredClause

/-! ### Loaded tables -/

namespace Table

variable {t : Table} {d : DeclaredClause} {origin json : String} {type : PluralType}

theorem mem_declaredClauses_iff : d ∈ t.declaredClauses ↔
    ∃ set, (d.language, set) ∈ t.languages.entries ∧ (d.category, d.rule) ∈ set.rules ∧
      d.clause ∈ Rule.clauseStretches d.rule := by
  obtain ⟨language, category, rule, clause⟩ := d
  unfold declaredClauses
  simp only [List.mem_flatMap, List.mem_map, Prod.exists, DeclaredClause.mk.injEq]
  constructor
  · rintro ⟨_, set, hset, _, _, hrule, _, hclause, rfl, rfl, rfl, rfl⟩
    exact ⟨set, hset, hrule, hclause⟩
  · rintro ⟨set, hset, hrule, hclause⟩
    exact ⟨language, set, hset, category, rule, hrule, clause, hclause, rfl, rfl, rfl, rfl⟩

theorem text_of_mem_declaredClauses (h : d ∈ t.declaredClauses) :
    d.clause.text = d.rule.toList := by
  obtain ⟨_, -, -, hclause⟩ := mem_declaredClauses_iff.1 h
  exact Rule.text_of_mem_clauseStretches hclause

/-- The warnings about rules are those of the clauses, in order. -/
theorem flatMap_validate_eq (t : Table) :
    (t.languages.entries.flatMap fun (language, set) => set.validate language) =
      t.declaredClauses.filterMap DeclaredClause.warning? := by
  unfold declaredClauses RuleSet.validate
  rw [List.filterMap_flatMap]
  apply List.flatMap_congr
  rintro ⟨language, set⟩ -
  dsimp only
  rw [List.filterMap_flatMap]
  apply List.flatMap_congr
  rintro ⟨category, rule⟩ -
  dsimp only
  rw [Rule.clauses_read, ← Rule.map_word_clauseStretches, List.map_map, List.filterMap_map,
    List.filterMap_map]
  rfl

theorem filter_validate_eq (h : Table.read origin type json = .ok t) :
    t.validate.filter (·.category?.isSome) =
      t.declaredClauses.filterMap DeclaredClause.warning? := by
  obtain ⟨document, hwrites⟩ := exists_writes h
  obtain ⟨written, -, rfl⟩ := exists_written hwrites h
  unfold validate
  rw [List.filter_append, flatMap_validate_eq, List.filter_eq_nil_iff.2, List.nil_append,
    List.filter_eq_self]
  · intro w hw
    obtain ⟨d, -, hd⟩ := List.mem_filterMap.1 hw
    rw [(DeclaredClause.category?_of_warning? hd).2]
    rfl
  · intro w hw
    obtain ⟨language, label, text, -, -, rfl⟩ := mem_warnings_ofSection.1 hw
    exact Bool.false_ne_true

/-- A loaded table declares each of its rules: no category has two. -/
theorem declared?_of_mem (h : Table.read origin type json = .ok t)
    (hd : d ∈ t.declaredClauses) : t.declared? d.language d.category = some d.rule := by
  obtain ⟨document, hwrites⟩ := exists_writes h
  obtain ⟨written, -, rfl⟩ := exists_written hwrites h
  obtain ⟨set, hset, hrule, -⟩ := mem_declaredClauses_iff.1 hd
  have hget : (ofSection type written).get? d.language = some set :=
    (Dictionary.mem_entries_iff _).1 hset
  have hincreasing : Increasing set :=
    (holds_ofSection type written).increasing d.language set hget
  unfold declared?
  rw [hget, Option.bind_some, RuleSet.get?, ← List.head?_filter]
  have honly := filter_eq_singleton hincreasing hrule
  have heq : set.rules.filter (·.1 == d.category) = set.rules.filter (·.1 = d.category) := by
    congr 1
  rw [heq, honly]
  rfl

/-- The warnings of a loaded table about rules are those of its clauses, in order. Each is shown in
the text of the rule that has the clause. The label is what is at fault if that comes first of all
that looks like it; a clause that cannot be read has a label in any case, and a symbol that is set
off by blanks that the search knows has its own if the clauses in front of it can be read and have
other symbols. -/
theorem labels_of_declared (h : Table.read origin type json = .ok t) :
    t.validate.filter (·.category?.isSome) =
      t.declaredClauses.filterMap DeclaredClause.warning? ∧
    ∀ d ∈ t.declaredClauses, ∀ w, d.warning? = some w →
      let shown := Diagnostic.ofWarning w (w.category?.bind (t.declared? w.language))
      d.fault.text = d.rule.toList ∧ shown.text = d.rule ∧
      (shown.span = some d.fault.span ↔ d.fault.IsFirst d.Marked) ∧
      (∀ text e, Clause.read d.clause.word = .broken text e → shown.span.isSome = true) ∧
      (∀ r, Clause.read d.clause.word = .relation r →
        d.fault.front.getLast?.all isAsciiBlank = true →
        d.fault.back.head? ≠ some '\t' → d.fault.back.head? ≠ some 'm' →
        (∀ s ∈ Rule.clauseStretches d.rule, s.trim.front.length < d.fault.front.length →
          ∃ r', Clause.read s.word = .relation r' ∧ r'.symbol ≠ r.symbol) →
        shown.span = some d.fault.span) := by
  refine ⟨filter_validate_eq h, fun d hd w hw => ?_⟩
  have htext := text_of_mem_declaredClauses hd
  obtain ⟨hlanguage, hcategory⟩ := DeclaredClause.category?_of_warning? hw
  rw [hlanguage, hcategory, Option.bind_some, declared?_of_mem h hd]
  refine ⟨d.text_fault.trans htext, ?_, DeclaredClause.label_eq_iff htext hw, ?_, ?_⟩
  · rcases DeclaredClause.warning?_cases hw with ⟨e, -, rfl⟩ | ⟨r, -, -, rfl⟩ <;> rfl
  · intro text e hread
    exact DeclaredClause.isSome_label_of_broken htext hw hread
  · intro r hread hbefore htab hmod hearlier
    obtain ⟨_, -, -, hclause⟩ := mem_declaredClauses_iff.1 hd
    obtain ⟨hfault, hmarked⟩ := DeclaredClause.fault_of_relation hread
    have hset : d.fault.IsSetOff := by
      have hwrites : Writes d.clause.trim.word r := Clause.writes_of_read hread
      rw [hfault] at hbefore htab hmod ⊢
      exact (isSetOff_first_iff hwrites).2 ⟨hbefore, htab, hmod⟩
    rw [DeclaredClause.label_eq_iff htext hw, hmarked]
    exact DeclaredClause.isFirst_of_readable hclause hread hset hearlier

/-- A clause that stands inside another one, and a symbol with `mod` right behind it. -/
def flawed : LabelledRules :=
  [("xx", [("pluralRule-count-one", "max is 1 and x"),
    ("pluralRule-count-few", "i = 1 or q% 2 = 1 and rmod 2 = 1")])]

/-- The first clause of it with a symbol that names no operand. -/
def flawedClause : DeclaredClause :=
  ⟨"xx", .few, "i = 1 or q% 2 = 1 and rmod 2 = 1",
    ⟨"i = 1 or ".toList, "q% 2 = 1".toList, " and rmod 2 = 1".toList⟩⟩

theorem read_flawed : Table.read "flawed" .cardinal (documentWith [] flawed).text =
    .ok (ofSection .cardinal flawed) :=
  (read_eq_ok_iff (Json.Value.writes_text _)).2 ⟨flawed, by decide +kernel, rfl⟩

theorem labels_of_declared_flawed :
    Table.read "flawed" .cardinal (documentWith [] flawed).text =
      .ok (ofSection .cardinal flawed) ∧
    flawedClause ∈ (ofSection .cardinal flawed).declaredClauses ∧
    flawedClause.warning? = some (.unknownOperand "xx" .few 'q') ∧
    (Diagnostic.ofWarning (.unknownOperand "xx" .few 'q')
      ((ofSection .cardinal flawed).declared? "xx" .few)).span = some ⟨9, 1⟩ := by
  have hmem : flawedClause ∈ (ofSection .cardinal flawed).declaredClauses := by decide +kernel
  have hwarning : flawedClause.warning? = some (.unknownOperand "xx" .few 'q') := by
    decide +kernel
  obtain ⟨-, hlabels⟩ := labels_of_declared read_flawed
  obtain ⟨-, -, -, -, hsymbol⟩ := hlabels flawedClause hmem _ hwarning
  have hspan : flawedClause.fault.span = ⟨9, 1⟩ := by decide +kernel
  refine ⟨read_flawed, hmem, hwarning, ?_⟩
  rw [← hspan]
  -- only the first clause begins in front of it
  apply hsymbol ⟨'q', some 2, .equals, [.value 1]⟩
  · decide +kernel
  · decide +kernel
  · decide +kernel
  · decide +kernel
  · intro s hs hearlier
    refine ⟨⟨'i', none, .equals, [.value 1]⟩, ?_, by decide⟩
    revert s
    decide +kernel

/-- The search passes over a symbol that is not set off, and shows a clause inside another one. -/
theorem exists_label_elsewhere :
    Table.read "flawed" .cardinal (documentWith [] flawed).text =
      .ok (ofSection .cardinal flawed) ∧
    (∃ d ∈ (ofSection .cardinal flawed).declaredClauses, ∃ w ∈ d.warning?,
      (Diagnostic.ofWarning w (w.category?.bind
        ((ofSection .cardinal flawed).declared? w.language))).span = none) ∧
    ∃ d ∈ (ofSection .cardinal flawed).declaredClauses, ∃ w ∈ d.warning?,
      (Diagnostic.ofWarning w (w.category?.bind
        ((ofSection .cardinal flawed).declared? w.language))).span = some ⟨2, 1⟩ ∧
      d.fault.span = ⟨13, 1⟩ := by
  refine ⟨read_flawed, ?_, ?_⟩
  · decide +kernel
  · decide +kernel

end Table

end PluralForms
