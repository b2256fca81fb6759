import Mathlib.Algebra.BigOperators.Group.Finset.Piecewise
import PluralForms.Proofs.CommandLine.Running
import PluralForms.Proofs.Json.Written
import PluralForms.Proofs.Table.Fallback

/-!
# What a check of languages comes to

Languages are given for a check by identifiers, which may repeat a key or name it in another way.
What counts are the keys that they are found under, as a set; its members are the table's keys if no
language is given. The numbers that are reported are those of the set, whatever order it is gone
through in, and they are the same in both forms of the report:

    languages  : the number of keys
    warnings   : ∑ key ∈ chosen, t.warningCount key
    mismatches : ∑ key ∈ chosen, t.mismatchCount key

* `Counts` - a document that has three numbers;
* `Reports` - the report and the exit code that belong to three numbers;
* `check_verdict` - a check reports the numbers of its keys, or the first language it does not know.
-/

namespace PluralForms

open Text

/-! ### Counting -/

/-- What is picked by one of several keys is counted key by key. -/
theorem length_filter_contains {α : Type} (keyOf : α → String) (keys : List String)
    (as : List α) :
    (as.filter fun a => keys.contains (keyOf a)).length =
      ∑ key ∈ keys.toFinset, (as.filter fun a => keyOf a = key).length := by
  induction as with
  | nil => simp
  | cons a as ih =>
    have hcons : ∀ key, ((a :: as).filter fun a => keyOf a = key).length =
        (as.filter fun a => keyOf a = key).length + if keyOf a = key then 1 else 0 := by
      intro key
      by_cases h : keyOf a = key <;> simp [h]
    simp only [hcons, Finset.sum_add_distrib, Finset.sum_ite_eq, List.mem_toFinset, ← ih]
    by_cases h : keyOf a ∈ keys <;> simp [h]

namespace Table

variable (t : Table)

/-- How many warnings there are about a key: those of loading, and those about its rules. -/
def warningCount (key : String) : Nat :=
  (t.warnings.filter fun warning => warning.language = key).length
    + ((t.get? key).map fun set => (set.validate key).length).getD 0

/-- How many samples of a key are not classified as they are listed. -/
def mismatchCount (key : String) : Nat := ((t.get? key).map fun set => set.verify.length).getD 0

/-- There is nothing to report about a key. -/
def Faultless (key : String) : Prop := t.warningCount key = 0 ∧ t.mismatchCount key = 0

/-- The warnings about the rules of a language name this language. -/
theorem language_of_mem_validate {set : RuleSet} {language : String} {w : Warning}
    (h : w ∈ set.validate language) : w.language = language := by
  unfold RuleSet.validate at h
  obtain ⟨⟨category, text⟩, -, hrule⟩ := List.mem_flatMap.1 h
  obtain ⟨clause, -, hclause⟩ := List.mem_filterMap.1 hrule
  cases clause with
  | broken text error =>
    obtain rfl := Option.some.inj hclause
    rfl
  | relation r =>
    obtain ⟨-, hw⟩ := Option.ite_none_right_eq_some.1 hclause
    obtain rfl := Option.some.inj hw
    rfl

theorem length_filter_validate (key : String) :
    (t.validate.filter fun warning => warning.language = key).length = t.warningCount key := by
  have hown : ∀ entry : String × RuleSet,
      (entry.2.validate entry.1).filter (fun warning => warning.language = key) =
        if entry.1 = key then entry.2.validate entry.1 else [] := by
    rintro ⟨language, set⟩
    split
    · next hkey =>
      rw [List.filter_eq_self]
      intro w hw
      simpa [language_of_mem_validate hw] using hkey
    · next hkey =>
      rw [List.filter_eq_nil_iff]
      intro w hw
      simpa [language_of_mem_validate hw] using hkey
  unfold validate warningCount
  rw [List.filter_append, List.filter_flatMap, List.length_append]
  simp only [hown]
  rw [t.languages.flatMap_own_key key fun language set => set.validate language]
  show _ + _ = _ + ((t.languages.get? key).map _).getD 0
  cases t.languages.get? key <;> rfl

theorem length_mismatches (key : String) : (t.mismatches key).length = t.mismatchCount key := by
  unfold mismatches mismatchCount
  cases t.get? key <;> simp

section Findings

variable {keys : List String}

theorem length_warnings_check : (t.check keys).warnings.length =
    ∑ key ∈ keys.toFinset, t.warningCount key := by
  show (t.validate.filter fun warning => keys.contains warning.language).length = _
  rw [length_filter_contains Warning.language keys t.validate]
  simp only [length_filter_validate]

/-- The mismatches of a key are counted once, since no key stands twice in the list. -/
theorem length_mismatches_check (h : keys.Nodup) : (t.check keys).mismatches.length =
    ∑ key ∈ keys.toFinset, t.mismatchCount key := by
  show (keys.flatMap t.mismatches).length = _
  rw [List.length_flatMap, List.sum_toFinset _ h]
  simp only [length_mismatches]

end Findings

/-! ### The keys of languages -/

/-- The key that a language is found under. -/
def keyOf? (language : String) : Option String := (t.lookup [language]).map (·.1)

/-- The keys that some languages are found under; all keys, if there is no language. -/
def chosen (languages : List String) : Finset String :=
  if languages = [] then t.keys.toFinset else (languages.filterMap t.keyOf?).toFinset

variable {t} {language : String} {languages : List String}

theorem mem_chosen_iff (h : languages ≠ []) {key : String} :
    key ∈ t.chosen languages ↔ ∃ language ∈ languages, t.keyOf? language = some key := by
  simp [chosen, h]

theorem mem_chosen_singleton_iff {key : String} :
    key ∈ t.chosen [language] ↔ t.keyOf? language = some key := by
  simp [mem_chosen_iff]

/-- Only the keys matter: not how a language is written, how often it is given, or when. -/
theorem chosen_congr {others : List String}
    (h : ∀ key?, key? ∈ others.map t.keyOf? ↔ key? ∈ languages.map t.keyOf?) :
    t.chosen others = t.chosen languages := by
  have hnone : others.map t.keyOf? = [] ↔ languages.map t.keyOf? = [] := by
    simp only [List.eq_nil_iff_forall_not_mem, h]
  rw [List.map_eq_nil_iff, List.map_eq_nil_iff] at hnone
  by_cases hempty : languages = []
  · rw [hnone.2 hempty, hempty]
  · ext key
    rw [mem_chosen_iff (mt hnone.1 hempty), mem_chosen_iff hempty]
    simpa only [List.mem_map] using h (some key)

/-- A list with a language that is not found has a first one. -/
theorem exists_first_unknown (h : ∃ language ∈ languages, t.keyOf? language = none) :
    ∃ before language behind, languages = before ++ language :: behind ∧
      (∀ l ∈ before, t.keyOf? l ≠ none) ∧ t.keyOf? language = none := by
  cases hfind : languages.find? fun language => (t.keyOf? language).isNone with
  | none =>
    obtain ⟨language, hmem, hunknown⟩ := h
    simpa [hunknown] using List.find?_eq_none.1 hfind language hmem
  | some language =>
    obtain ⟨hunknown, before, behind, heq, hbefore⟩ := List.find?_eq_some_iff_append.1 hfind
    refine ⟨before, language, behind, heq, ?_, by simpa using hunknown⟩
    intro l hl hnone
    simpa [hnone] using hbefore l hl

theorem require_eq_ok_iff {found : String × RuleSet} :
    t.require language = .ok found ↔ t.lookup [language] = some found := by
  unfold require
  cases t.lookup [language] <;> simp

theorem exists_require_of_known (h : t.keyOf? language ≠ none) :
    ∃ found, t.require language = .ok found := by
  cases hlookup : t.lookup [language] with
  | none => exact absurd (by simp [keyOf?, hlookup]) h
  | some found => exact ⟨found, require_eq_ok_iff.2 hlookup⟩

theorem require_of_unknown (h : t.keyOf? language = none) :
    t.require language = .error (t.unknown language) := by
  unfold keyOf? at h
  rw [Option.map_eq_none_iff] at h
  simp [require, h]

end Table

namespace CommandLine

variable {t : Table} {languages : List String}

theorem keyOf?_of_mapM_require {found : List (String × RuleSet)}
    (h : languages.mapM t.require = .ok found) :
    languages.filterMap t.keyOf? = found.map (·.1) := by
  have hall := mapM_eq_ok_iff.1 h
  clear h
  induction hall with
  | nil => rfl
  | @cons language entry languages found hfound _ ih =>
    have hkey : t.keyOf? language = some entry.1 := by
      simp [Table.keyOf?, Table.require_eq_ok_iff.1 hfound]
    rw [List.filterMap_cons_some hkey, ih, List.map_cons]

/-- Languages that are all found have keys to check, each once. -/
theorem exists_keysToCheck (h : ∀ language ∈ languages, t.keyOf? language ≠ none) :
    ∃ keys, keysToCheck t languages = .ok keys ∧ keys.Nodup ∧
      keys.toFinset = t.chosen languages := by
  cases hall : languages.mapM t.require with
  | error f =>
    obtain ⟨before, language, behind, rfl, -, hfails⟩ := mapM_eq_error_iff.1 hall
    obtain ⟨found, hfound⟩ := Table.exists_require_of_known (h language (by simp))
    cases hfound.symm.trans hfails
  | ok found =>
    have hkeys : keysToCheck t languages =
        .ok (if languages = [] then t.keys else (found.map (·.1)).eraseDups) := by
      unfold keysToCheck
      rw [hall]
      rfl
    refine ⟨_, hkeys, ?_⟩
    unfold Table.chosen
    split
    · exact ⟨t.languages.nodup_keys, rfl⟩
    · refine ⟨nodup_eraseDups _, ?_⟩
      rw [keyOf?_of_mapM_require hall]
      ext key
      simp

/-- The first language that is not found ends a check. -/
theorem keysToCheck_of_unknown {before behind : List String} {language : String}
    (hbefore : ∀ l ∈ before, t.keyOf? l ≠ none) (h : t.keyOf? language = none) :
    keysToCheck t (before ++ language :: behind) = .error (t.unknown language) := by
  have hall : (before ++ language :: behind).mapM t.require = .error (t.unknown language) := by
    refine mapM_eq_error_iff.2 ⟨before, language, behind, rfl, ?_, Table.require_of_unknown h⟩
    intro l hl
    exact Table.exists_require_of_known (hbefore l hl)
  unfold keysToCheck
  rw [hall]
  rfl

/-! ### Reports -/

/-- The line of a report with its three numbers. -/
def countLine (languages warnings mismatches : Nat) : String :=
  "checked " ++ toString languages ++ " language(s): " ++ toString warnings ++ " warning(s), "
    ++ toString mismatches ++ " sample mismatch(es)"

/-- A document that has three numbers: one as such, the others as the lengths of arrays. -/
inductive Counts (languages warnings mismatches : Nat) : Json.Value → Prop
  | mk {checked warnedKey warned mismatchedKey mismatched} :
      Json.SpellsMember checked ("languages", .natural languages) →
      Json.textOf warnedKey = some "warnings" → warned.length = warnings →
      Json.textOf mismatchedKey = some "mismatches" → mismatched.length = mismatches →
      Counts languages warnings mismatches
        (.object [checked, (warnedKey, .array warned), (mismatchedKey, .array mismatched)])

/-- The reports of three numbers, as a line and as JSON, and the exit code that belongs to them. -/
structure Reports (run : Bool → Outcome) (languages warnings mismatches : Nat) : Prop where
  exitCode_eq : ∀ json,
    (run json).exitCode = if warnings = 0 ∧ mismatches = 0 then 0 else 65
  line : (run false).output =
    (if warnings = 0 ∧ mismatches = 0 then Style.green else Style.red).apply
      (countLine languages warnings mismatches) ++ "\n"
  document : ∃ warned mismatched : List Json,
    warned.length = warnings ∧ mismatched.length = mismatches ∧
      (run true).output = (Json.object [("languages", .natural languages),
        ("warnings", .array warned), ("mismatches", .array mismatched)]).pretty ++ "\n"
  written : ∃ v, Counts languages warnings mismatches v ∧ v.Writes (run true).output

theorem counts_of_spells {languages : Nat} {warned mismatched : List Json} {v : Json.Value}
    (h : Json.Spells v (.object [("languages", .natural languages), ("warnings", .array warned),
      ("mismatches", .array mismatched)])) :
    Counts languages warned.length mismatched.length v := by
  cases h with
  | object hmembers =>
    simp only [List.forall₂_cons_right_iff, List.forall₂_nil_right_iff] at hmembers
    obtain ⟨checked, _, hchecked, ⟨_, _, hwarned, ⟨_, _, hmismatched, rfl, rfl⟩, rfl⟩, rfl⟩ :=
      hmembers
    cases hwarned with
    | mk hwarnedKey hwarned =>
      cases hmismatched with
      | mk hmismatchedKey hmismatched =>
        cases hwarned with
        | array hwarned =>
          cases hmismatched with
          | array hmismatched =>
            exact .mk hchecked hwarnedKey hwarned.length_eq hmismatchedKey hmismatched.length_eq

/-- The JSON text of three numbers is a document that has them. -/
theorem exists_counts_writes (languages : Nat) (warned mismatched : List Json) :
    ∃ v, Counts languages warned.length mismatched.length v ∧
      v.Writes ((Json.object [("languages", .natural languages), ("warnings", .array warned),
        ("mismatches", .array mismatched)]).pretty ++ "\n") := by
  obtain ⟨v, hspells, hwrites⟩ := Json.exists_writes_pretty (.object
    [("languages", .natural languages), ("warnings", .array warned),
      ("mismatches", .array mismatched)]) Json.isSpaceRun_lineEnd
  exact ⟨v, counts_of_spells hspells, hwrites⟩

theorem isClean_iff {f : Findings} :
    f.isClean = true ↔ f.warnings.length = 0 ∧ f.mismatches.length = 0 := by
  simp [Findings.isClean]

theorem exists_check_eq_ok {keys : List String} (hkeys : keysToCheck t languages = .ok keys)
    (json : Bool) : ∃ outcome, check t languages json = .ok outcome ∧
      outcome.exitCode = (if (t.check keys).isClean then 0 else 65) ∧
      outcome.output = (if json then (t.check keys).json.pretty else
        (if (t.check keys).isClean then Style.green else Style.red).apply
          (t.check keys).summary) ++ "\n" := by
  unfold check
  rw [hkeys]
  exact ⟨_, rfl, rfl, rfl⟩

/-- What was found is reported by its numbers. -/
theorem reports_check {run : Bool → Outcome} {keys : List String}
    (hkeys : keysToCheck t languages = .ok keys)
    (hrun : ∀ json outcome, check t languages json = .ok outcome →
      (run json).exitCode = outcome.exitCode ∧ (run json).output = outcome.output) :
    Reports run (t.check keys).languages.length (t.check keys).warnings.length
      (t.check keys).mismatches.length := by
  have hdocument : ∃ warned mismatched : List Json,
      warned.length = (t.check keys).warnings.length ∧
      mismatched.length = (t.check keys).mismatches.length ∧
      (run true).output = (Json.object [("languages", .natural (t.check keys).languages.length),
        ("warnings", .array warned), ("mismatches", .array mismatched)]).pretty ++ "\n" := by
    obtain ⟨outcome, hcheck, -, htext⟩ := exists_check_eq_ok hkeys true
    exact ⟨_, _, List.length_map _, List.length_map _, (hrun true outcome hcheck).2.trans htext⟩
  refine ⟨fun json => ?_, ?_, hdocument, ?_⟩
  · obtain ⟨outcome, hcheck, hcode, -⟩ := exists_check_eq_ok hkeys json
    rw [(hrun json outcome hcheck).1, hcode]
    simp only [isClean_iff]
  · obtain ⟨outcome, hcheck, -, hline⟩ := exists_check_eq_ok hkeys false
    rw [(hrun false outcome hcheck).2, hline]
    simp only [isClean_iff]
    rfl
  · obtain ⟨warned, mismatched, hwarned, hmismatched, houtput⟩ := hdocument
    rw [← hwarned, ← hmismatched, houtput]
    exact exists_counts_writes _ warned mismatched

section Verdict

variable {files : Files} {path : String} {type : PluralType} (verbose : Bool)

theorem reports_chosen (hload : Table.load files path type = .ok t)
    (h : ∀ language ∈ languages, t.keyOf? language ≠ none) :
    Reports (fun json => Invocation.run ⟨some path, type, verbose, .check languages json⟩ files)
      (t.chosen languages).card (∑ key ∈ t.chosen languages, t.warningCount key)
      (∑ key ∈ t.chosen languages, t.mismatchCount key) := by
  obtain ⟨keys, hkeys, hnodup, hchosen⟩ := exists_keysToCheck h
  rw [← hchosen, List.toFinset_card_of_nodup hnodup, ← t.length_warnings_check,
    ← t.length_mismatches_check hnodup]
  exact reports_check hkeys fun json outcome hcheck =>
    run_of_success (.check languages json) hload hcheck

theorem run_check_of_unknown (hload : Table.load files path type = .ok t)
    {before behind : List String} {language : String}
    (hbefore : ∀ l ∈ before, t.keyOf? l ≠ none) (h : t.keyOf? language = none) (json : Bool) :
    Invocation.run ⟨some path, type, verbose, .check (before ++ language :: behind) json⟩ files =
      .ofFailure (t.unknown language) := by
  apply run_of_failure (.check (before ++ language :: behind) json) hload
  show check t (before ++ language :: behind) json = _
  unfold check
  rw [keysToCheck_of_unknown hbefore h]
  rfl

/-- A check passes just if there is nothing to report about its keys. -/
theorem exitCode_check_eq_zero_iff (hload : Table.load files path type = .ok t) (json : Bool) :
    (Invocation.run ⟨some path, type, verbose, .check languages json⟩ files).exitCode = 0 ↔
      (∀ language ∈ languages, t.keyOf? language ≠ none) ∧
        ∀ key ∈ t.chosen languages, t.Faultless key := by
  by_cases hknown : ∀ language ∈ languages, t.keyOf? language ≠ none
  · have hreports := reports_chosen verbose hload hknown
    have hzero : ((∑ key ∈ t.chosen languages, t.warningCount key) = 0 ∧
        (∑ key ∈ t.chosen languages, t.mismatchCount key) = 0) ↔
          ∀ key ∈ t.chosen languages, t.Faultless key := by
      simp only [Finset.sum_eq_zero_iff, ← forall₂_and, Table.Faultless]
    rw [hreports.exitCode_eq json]
    split
    · next hclean => exact ⟨fun _ => ⟨hknown, hzero.1 hclean⟩, fun _ => rfl⟩
    · next hfound =>
      constructor
      · intro h
        cases h
      · rintro ⟨-, hclean⟩
        exact absurd (hzero.2 hclean) hfound
  · have hunknown : ∃ language ∈ languages, t.keyOf? language = none := by
      simpa using hknown
    obtain ⟨before, language, behind, rfl, hbefore, hnone⟩ := Table.exists_first_unknown hunknown
    rw [run_check_of_unknown verbose hload hbefore hnone]
    constructor
    · intro h
      cases h
    · rintro ⟨hall, -⟩
      exact absurd hnone (hall language (by simp))

/-- A check of some languages passes just if a check of each of them does. -/
theorem exitCode_check_eq_zero_iff_each (hload : Table.load files path type = .ok t)
    (hne : languages ≠ []) (json json' : Bool) :
    (Invocation.run ⟨some path, type, verbose, .check languages json⟩ files).exitCode = 0 ↔
      ∀ language ∈ languages,
        (Invocation.run ⟨some path, type, verbose, .check [language] json'⟩ files).exitCode =
          0 := by
  simp only [exitCode_check_eq_zero_iff verbose hload, Table.mem_chosen_iff hne,
    Table.mem_chosen_singleton_iff, List.forall_mem_singleton]
  constructor
  · rintro ⟨hknown, hclean⟩ language hmem
    exact ⟨hknown language hmem, fun key hkey => hclean key ⟨language, hmem, hkey⟩⟩
  · intro h
    refine ⟨fun language hmem => (h language hmem).1, ?_⟩
    rintro key ⟨language, hmem, hkey⟩
    exact (h language hmem).2 key hkey

/-- A check reports the numbers of the set of keys that its languages stand for, in either form, and
passes if nothing was found; or it reports the first language that is not known. So it matters to
neither the numbers nor the exit code which languages stand for the keys, how often or in which
order, and a check of some languages passes just if a check of each of them does. -/
theorem check_verdict {files : Files} {path : String} {type : PluralType} {t : Table}
    (hload : Table.load files path type = .ok t) (verbose : Bool) (languages : List String) :
    let run := fun languages json =>
      Invocation.run ⟨some path, type, verbose, .check languages json⟩ files
    ((∃ language ∈ languages, t.keyOf? language = none) →
      ∃ before language behind, languages = before ++ language :: behind ∧
        (∀ l ∈ before, t.keyOf? l ≠ none) ∧ t.keyOf? language = none ∧
        ∀ json, run languages json = .ofFailure (t.unknown language) ∧
          (run languages json).FailsWith 65) ∧
    ((∀ language ∈ languages, t.keyOf? language ≠ none) →
      Reports (run languages) (t.chosen languages).card
        (∑ key ∈ t.chosen languages, t.warningCount key)
        (∑ key ∈ t.chosen languages, t.mismatchCount key) ∧
      ∀ others, (∀ language ∈ others, t.keyOf? language ≠ none) →
        t.chosen others = t.chosen languages →
        Reports (run others) (t.chosen languages).card
          (∑ key ∈ t.chosen languages, t.warningCount key)
          (∑ key ∈ t.chosen languages, t.mismatchCount key)) ∧
    (∀ others, (∀ key?, key? ∈ others.map t.keyOf? ↔ key? ∈ languages.map t.keyOf?) →
      t.chosen others = t.chosen languages) ∧
    (languages ≠ [] → ∀ json json', (run languages json).exitCode = 0 ↔
      ∀ language ∈ languages, (run [language] json').exitCode = 0) := by
  intro run
  refine ⟨?_, ?_, fun others => Table.chosen_congr, ?_⟩
  · intro hunknown
    obtain ⟨before, language, behind, rfl, hbefore, hnone⟩ := Table.exists_first_unknown hunknown
    refine ⟨before, language, behind, rfl, hbefore, hnone, ?_⟩
    intro json
    have hrun : run (before ++ language :: behind) json = .ofFailure (t.unknown language) :=
      run_check_of_unknown verbose hload hbefore hnone json
    exact ⟨hrun, hrun ▸ ⟨rfl, rfl⟩⟩
  · intro hknown
    refine ⟨reports_chosen verbose hload hknown, ?_⟩
    intro others hothers hsame
    have hreports := reports_chosen verbose hload hothers
    rwa [hsame] at hreports
  · intro hne json json'
    exact exitCode_check_eq_zero_iff_each verbose hload hne json json'

end Verdict

/-- Three languages that stand for two keys, of which one has a label that names no category; and a
language that is not known behind one that is. -/
theorem check_verdict_specimen :
    let run := fun languages json => Invocation.run
      ⟨some "rules", .cardinal, false, .check languages json⟩ specimenFiles
    Table.load specimenFiles "rules" .cardinal =
      .ok (Table.ofSection .cardinal Table.specimen) ∧
    Reports (run ["en-GB", "ja", "en"]) 2 1 0 ∧
    (run ["en-GB", "ja", "en"] true).output = "\x7b\n  \"languages\": 2,\n  \"warnings\": [\n"
      ++ "    \x7b\n      \"UnknownCategoryKey\": \x7b\n        \"language\": \"en\",\n"
      ++ "        \"key\": \"note\"\n      \x7d\n    \x7d\n  ],\n  \"mismatches\": []\n\x7d\n" ∧
    (run ["ja", "xx"] true).FailsWith 65 := by
  intro run
  have hload := load_specimenFiles "rules"
  refine ⟨hload, ?_, ?_, ?_⟩
  · obtain ⟨-, hreports, -⟩ := check_verdict hload false ["en-GB", "ja", "en"]
    obtain ⟨hreports, -⟩ := hreports (by decide +kernel)
    have hchosen : (Table.ofSection .cardinal Table.specimen).chosen ["en-GB", "ja", "en"] =
        {"en", "ja"} := by decide +kernel
    have hwarnings : (∑ key ∈ {"en", "ja"},
        (Table.ofSection .cardinal Table.specimen).warningCount key) = 1 := by decide +kernel
    have hmismatches : (∑ key ∈ {"en", "ja"},
        (Table.ofSection .cardinal Table.specimen).mismatchCount key) = 0 := by decide +kernel
    rw [hchosen, hwarnings, hmismatches] at hreports
    exact hreports
  · have hkeys : keysToCheck (Table.ofSection .cardinal Table.specimen) ["en-GB", "ja", "en"] =
        .ok ["en", "ja"] := by decide +kernel
    obtain ⟨outcome, hcheck, -, houtput⟩ := exists_check_eq_ok hkeys true
    rw [(run_of_success (.check ["en-GB", "ja", "en"] true) hload hcheck).2, houtput]
    decide +kernel
  · obtain ⟨hunknown, -⟩ := check_verdict hload false ["ja", "xx"]
    obtain ⟨before, language, behind, -, -, -, hrun⟩ := hunknown ⟨"xx", by simp, by decide +kernel⟩
    exact (hrun true).2

end CommandLine

end PluralForms
