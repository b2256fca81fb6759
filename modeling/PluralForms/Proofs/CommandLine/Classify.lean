import PluralForms.Proofs.CommandLine.Running
import PluralForms.Proofs.Json.Written
import PluralForms.Proofs.Store.Refinement

/-!
# Numbers are classified all or none

A list of numbers is classified as a whole. If there is an *obstacle*, from a missing file to a text
somewhere in the list that is no numeral, then nothing is written, and the exit code tells what kind
of obstacle it was. If there is none, then each number has its result, in the order in which they
were given, and what is written is those results, as lines or as a JSON document:

    classify_all_or_nothing :
      (Obstacle … code → run.FailsWith code) ∧
      ((∀ code, ¬Obstacle … code) → Forall₂ (IsResult …) numbers results ∧
        run.Writes (…results…) ∧ Forall₂ Shows results items ∧ (array items).Writes …)

* `IsResult` - the result of one number, which takes no notice of the others;
* `resultText`, `Shows` - the lines of a result, and the object that a document has for it;
* `Store.exists_requireRules` - a store hands out what the table's rules compile to.
-/

namespace PluralForms

namespace Store

variable {s : Store} {language : String}

/-! ### Rules for a language -/

theorem requireRules_of_not_found (hs : s.Coherent) (h : s.table.lookup [language] = none) :
    s.requireRules language = .error (s.table.unknown language) := by
  obtain ⟨hanswer, -, -⟩ := rulesFor_refines hs [language]
  rw [h, Option.map_none, Option.map_eq_none_iff] at hanswer
  simp [requireRules, hanswer]

theorem exists_requireRules {key : String} {set : RuleSet} (hs : s.Coherent)
    (h : s.table.lookup [language] = some (key, set)) :
    ∃ step, s.requireRules language = .ok step ∧ step.answer.classifier = set.compile := by
  obtain ⟨hanswer, -, -⟩ := rulesFor_refines hs [language]
  rw [h, Option.map_some, Option.map_eq_some_iff] at hanswer
  obtain ⟨compiled, hcompiled, hclassifier⟩ := hanswer
  refine ⟨⟨compiled, (s.rulesFor [language]).state, (s.rulesFor [language]).events⟩, ?_,
    hclassifier⟩
  simp only [requireRules, hcompiled]

end Store

namespace CommandLine

/-! ### Results -/

/-- The operands of a number that is shown with at least so many fraction digits, if it is said how
many. -/
def shownWith : Option Nat → Operands → Operands
  | none, o => o
  | some digits, o => o.withFractionDigits digits

/-- The result of a number under the rules of a language. -/
structure IsResult (set : RuleSet) (digits : Option Nat) (explain : Bool) (number : String)
    (result : Classification) : Prop where
  number_eq : result.number = number
  category_eq : ∃ o, Operands.ofText number = .ok o ∧
    result.category = set.compile.classify (shownWith digits o) ∧
    result.explanation = if explain then some (set.compile.explain (shownWith digits o)) else none

variable {set : RuleSet} {digits : Option Nat} {explain : Bool}

theorem classifyNumber_eq_ok_iff {number : String} {result : Classification} :
    set.compile.classifyNumber digits explain number = .ok result ↔
      IsResult set digits explain number result := by
  have hshown : ∀ o : Operands,
      (digits.map o.withFractionDigits).getD o = shownWith digits o := by
    intro o
    cases digits <;> rfl
  unfold Classifier.classifyNumber
  simp only [hshown]
  constructor
  · intro h
    cases hread : Operands.ofText number with
    | error e =>
      rw [hread] at h
      cases h
    | ok o =>
      rw [hread] at h
      cases h
      exact ⟨rfl, o, hread, rfl, rfl⟩
  · rintro ⟨hnumber, o, hread, hcategory, hexplanation⟩
    obtain ⟨number', category, explanation⟩ := result
    cases hnumber
    cases hcategory
    cases hexplanation
    rw [hread]
    rfl

/-- Numbers have results just if each of them is a numeral. -/
theorem classifyAll_eq_ok_iff {numbers : List String} {results : List Classification} :
    set.compile.classifyAll digits explain numbers = .ok results ↔
      List.Forall₂ (IsResult set digits explain) numbers results := by
  unfold Classifier.classifyAll
  simp only [mapM_eq_ok_iff, classifyNumber_eq_ok_iff]

theorem exists_classifyAll_eq_error {numbers : List String} {number : String} {e : NumberError}
    (hmem : number ∈ numbers) (hread : Operands.ofText number = .error e) :
    ∃ e', set.compile.classifyAll digits explain numbers = .error e' := by
  cases hall : set.compile.classifyAll digits explain numbers with
  | error e' => exact ⟨e', rfl⟩
  | ok results =>
    obtain ⟨result, hresult⟩ := exists_of_mapM_eq_ok hall number hmem
    unfold Classifier.classifyNumber at hresult
    rw [hread] at hresult
    cases hresult

/-- There are results if every number is a numeral. -/
theorem exists_classifyAll_eq_ok {numbers : List String}
    (h : ∀ number ∈ numbers, ∃ o, Operands.ofText number = .ok o) :
    ∃ results, set.compile.classifyAll digits explain numbers = .ok results := by
  cases hall : set.compile.classifyAll digits explain numbers with
  | ok results => exact ⟨results, rfl⟩
  | error e =>
    obtain ⟨before, number, behind, rfl, -, hnumber⟩ := mapM_eq_error_iff.1 hall
    obtain ⟨o, hread⟩ := h number (by simp)
    unfold Classifier.classifyNumber at hnumber
    rw [hread] at hnumber
    cases hnumber

/-! ### What is written -/

/-- The lines of a result: its number and, in bold, its category, then those of its explanation. -/
def resultText (result : Classification) : String :=
  result.number ++ "\t\x1b[1m" ++ result.category.name ++ "\x1b[0m\n"
    ++ String.join ((result.explanation.elim [] Explanation.lines).map (· ++ "\n"))

/-- The object that a document has for a result: its number and the name of its category, and its
explanation if there is one. -/
inductive Shows (result : Classification) : Json.Value → Prop
  | mk {number category explained} :
      Json.SpellsMember number ("number", .string result.number) →
      Json.SpellsMember category ("category", .string result.category.name) →
      List.Forall₂ (fun member explanation =>
        Json.SpellsMember member ("explanation", Explanation.json explanation))
        explained result.explanation.toList →
      Shows result (.object (number :: category :: explained))

theorem tab_append_bold (name : String) :
    "\t" ++ Text.Style.bold.apply name = "\t\x1b[1m" ++ name ++ "\x1b[0m" := by
  have hon : "\t" ++ Text.Style.sequence (Text.Style.onCode .bold) = "\t\x1b[1m" := by
    decide +kernel
  have hoff : Text.Style.sequence (Text.Style.offCode .bold) = "\x1b[0m" := by decide +kernel
  unfold Text.Style.apply
  rw [← String.append_assoc, ← String.append_assoc, hon, hoff]

theorem join_lines (results : List Classification) :
    String.join ((results.flatMap Classification.lines).map (· ++ "\n")) =
      String.join (results.map resultText) := by
  induction results with
  | nil => rfl
  | cons result results ih =>
    have hlines : String.join (result.lines.map (· ++ "\n")) = resultText result := by
      unfold Classification.lines resultText
      rw [String.append_assoc, tab_append_bold]
      cases result.explanation <;> simp [String.append_assoc]
    rw [List.flatMap_cons, List.map_append, String.join_append, hlines, ih, List.map_cons,
      String.join_cons]

theorem shows_of_spells {result : Classification} {v : Json.Value}
    (h : Json.Spells v result.json) : Shows result v := by
  unfold Classification.json at h
  cases h with
  | object hmembers =>
    obtain ⟨number, others, hnumber, hothers, rfl⟩ := List.forall₂_cons_right_iff.1 hmembers
    obtain ⟨category, explained, hcategory, hexplained, rfl⟩ :=
      List.forall₂_cons_right_iff.1 hothers
    exact .mk hnumber hcategory (List.forall₂_map_right_iff.1 hexplained)

/-- The results in a document, one by one. -/
theorem forall₂_shows {results : List Classification} {v : Json.Value}
    (h : Json.Spells v (.array (results.map Classification.json))) :
    ∃ items, v = .array items ∧ List.Forall₂ Shows results items := by
  cases h with
  | @array items _ hitems =>
    refine ⟨items, rfl, List.Forall₂.flip ?_⟩
    apply List.Forall₂.imp _ (List.forall₂_map_right_iff.1 hitems)
    intro item result hspells
    exact shows_of_spells hspells

section Store

variable {s : Store} {language : String} {json : Bool} {numbers : List String}

theorem classify_of_not_found (hs : s.Coherent) (h : s.table.lookup [language] = none) :
    classify s language digits explain json numbers = .error (s.table.unknown language) := by
  unfold classify
  rw [Store.requireRules_of_not_found hs h]
  rfl

/-- Once the language is found, all that is left are the numbers. -/
theorem exists_classify_eq {key : String} (hs : s.Coherent)
    (h : s.table.lookup [language] = some (key, set)) :
    ∃ events, ∀ digits explain json numbers, classify s language digits explain json numbers =
      ((set.compile.classifyAll digits explain numbers).mapError Failure.badNumber).map
        fun results => .ofLines (if json then
          [(Json.array (results.map Classification.json)).pretty]
            else results.flatMap Classification.lines) events := by
  obtain ⟨step, hstep, hclassifier⟩ := Store.exists_requireRules hs h
  refine ⟨step.events, ?_⟩
  intro digits explain json numbers
  unfold classify
  rw [hstep, ← hclassifier]
  rfl

end Store

/-! ### Obstacles -/

/-- What keeps numbers from being classified, with the exit code that tells so. -/
inductive Obstacle (files : Files) (type : PluralType) (language : String)
    (numbers : List String) : Option String → Nat → Prop
  /-- No file is named. -/
  | noRules : Obstacle files type language numbers none 64
  /-- The file cannot be read. -/
  | unreadable {path : String} {reason : ReadError} :
    files path = .error reason → Obstacle files type language numbers (some path) 66
  /-- The file's text is no rule file, or has no section of this type. -/
  | unread {path text : String} {e : LoadError} :
    files path = .ok text → Table.read path type text = .error e →
      Obstacle files type language numbers (some path) 65
  /-- There are no rules for the language. -/
  | unknownLanguage {path : String} {t : Table} :
    Table.load files path type = .ok t → t.lookup [language] = none →
      Obstacle files type language numbers (some path) 65
  /-- One of the numbers is no numeral, wherever it stands in the list. -/
  | badNumber {path : String} {t : Table} {found : String × RuleSet} {number : String}
    {e : NumberError} :
    Table.load files path type = .ok t → t.lookup [language] = some found →
      number ∈ numbers → Operands.ofText number = .error e →
      Obstacle files type language numbers (some path) 65

variable {files : Files} {type : PluralType} {verbose json : Bool} {language : String}
  {numbers : List String}

theorem Obstacle.failsWith {rules : Option String} {code : Nat}
    (h : Obstacle files type language numbers rules code) :
    (Invocation.run ⟨rules, type, verbose, .classify language digits explain json numbers⟩
      files).FailsWith code := by
  cases h with
  | noRules => exact run_of_no_rules files type verbose _
  | unreadable hfile => exact run_of_unreadable hfile
  | unread hfile hread => exact run_of_unread hfile hread
  | @unknownLanguage path t hload hlookup =>
    have hs := Store.coherent_ofTable t (some path)
    rw [run_of_failure (.classify language digits explain json numbers) hload
      (classify_of_not_found hs hlookup)]
    exact ⟨rfl, rfl⟩
  | @badNumber path t found number e hload hlookup hmem hread =>
    have hs := Store.coherent_ofTable t (some path)
    obtain ⟨e', hall⟩ := exists_classifyAll_eq_error hmem hread
    obtain ⟨events, hclassify⟩ := exists_classify_eq hs hlookup
    have hfailure := hclassify digits explain json numbers
    rw [hall] at hfailure
    rw [run_of_failure (.classify language digits explain json numbers) hload hfailure]
    exact ⟨rfl, rfl⟩

/-- Where there is no obstacle, every step succeeds. -/
theorem exists_of_no_obstacle {rules : Option String}
    (h : ∀ code, ¬Obstacle files type language numbers rules code) :
    ∃ path t key set, rules = some path ∧ Table.load files path type = .ok t ∧
      t.lookup [language] = some (key, set) ∧
      ∀ number ∈ numbers, ∃ o, Operands.ofText number = .ok o := by
  cases rules with
  | none => exact absurd .noRules (h 64)
  | some path =>
    cases hfile : files path with
    | error reason => exact absurd (.unreadable hfile) (h 66)
    | ok text =>
      cases hread : Table.read path type text with
      | error e => exact absurd (.unread hfile hread) (h 65)
      | ok t =>
        have hload : Table.load files path type = .ok t := (load_of_readable hfile).trans hread
        cases hlookup : t.lookup [language] with
        | none => exact absurd (.unknownLanguage hload hlookup) (h 65)
        | some found =>
          refine ⟨path, t, found.1, found.2, rfl, hload, hlookup, ?_⟩
          intro number hmem
          cases hnumber : Operands.ofText number with
          | error e => exact absurd (.badNumber hload hlookup hmem hnumber) (h 65)
          | ok o => exact ⟨o, rfl⟩

section Results

variable {path key : String} {t : Table} {results : List Classification}

/-- Where the numbers have results, nothing but these is written. -/
theorem run_classify_of_results (verbose : Bool) (hload : Table.load files path type = .ok t)
    (hlookup : t.lookup [language] = some (key, set))
    (hall : set.compile.classifyAll digits explain numbers = .ok results) (json : Bool) :
    (Invocation.run ⟨some path, type, verbose, .classify language digits explain json numbers⟩
      files).Writes (String.join ((if json then
        [(Json.array (results.map Classification.json)).pretty]
          else results.flatMap Classification.lines).map (· ++ "\n"))) := by
  obtain ⟨events, hclassify⟩ := exists_classify_eq (Store.coherent_ofTable t (some path)) hlookup
  have hcommand := hclassify digits explain json numbers
  rw [hall] at hcommand
  exact run_of_success (.classify language digits explain json numbers) hload hcommand

/-- What is written is a document that shows the results. -/
theorem exists_document (results : List Classification) :
    ∃ items, List.Forall₂ Shows results items ∧ (Json.Value.array items).Writes
      ((Json.array (results.map Classification.json)).pretty ++ "\n") := by
  obtain ⟨v, hspells, hwrites⟩ :=
    Json.exists_writes_pretty (.array (results.map Classification.json)) Json.isSpaceRun_lineEnd
  obtain ⟨items, rfl, hitems⟩ := forall₂_shows hspells
  exact ⟨items, hitems, hwrites⟩

end Results

/-- If anything keeps numbers from being classified, nothing is written and the exit code tells
what it was. Else every number has a result of its own, in order, and these are what is written: the
lines of each, or a JSON document with an object for each, which names the same category. -/
theorem classify_all_or_nothing (files : Files) (rules : Option String) (type : PluralType)
    (verbose : Bool) (language : String) (digits : Option Nat) (explain : Bool)
    (numbers : List String) :
    let run := fun json => Invocation.run
      ⟨rules, type, verbose, .classify language digits explain json numbers⟩ files
    (∀ code, Obstacle files type language numbers rules code → ∀ json, (run json).FailsWith code) ∧
    ((∀ code, ¬Obstacle files type language numbers rules code) →
      ∃ path t key set results, rules = some path ∧ Table.load files path type = .ok t ∧
        t.lookup [language] = some (key, set) ∧
        List.Forall₂ (IsResult set digits explain) numbers results ∧
        (∀ others, List.Forall₂ (IsResult set digits explain) numbers others → others = results) ∧
        (run false).Writes (String.join (results.map resultText)) ∧
        ∃ text items, (run true).Writes text ∧ (Json.Value.array items).Writes text ∧
          List.Forall₂ Shows results items) := by
  intro run
  refine ⟨fun code hobstacle json => hobstacle.failsWith, ?_⟩
  intro hfree
  obtain ⟨path, t, key, set, rfl, hload, hlookup, hnumbers⟩ := exists_of_no_obstacle hfree
  obtain ⟨results, hall⟩ := exists_classifyAll_eq_ok hnumbers
  have hrun := run_classify_of_results verbose hload hlookup hall
  refine ⟨path, t, key, set, results, rfl, hload, hlookup, classifyAll_eq_ok_iff.1 hall, ?_, ?_, ?_⟩
  · intro others hothers
    have hsame := hall.symm.trans (classifyAll_eq_ok_iff.2 hothers)
    exact (Except.ok.inj hsame).symm
  · rw [← join_lines]
    exact hrun false
  · obtain ⟨items, hitems, hwrites⟩ := exists_document results
    refine ⟨_, items, hrun true, ?_, hitems⟩
    simpa using hwrites

/-- Two numbers are classified, in either form; with a third text that is no numeral none is. -/
theorem classify_all_or_nothing_specimen :
    let run := fun numbers json => Invocation.run ⟨some "rules", .cardinal, false,
      .classify "en-GB" none false json numbers⟩ specimenFiles
    (run ["1", "5", "x"] false).FailsWith 65 ∧ (run ["1", "5", "x"] true).FailsWith 65 ∧
    (run ["1", "5"] false).Writes "1\t\x1b[1mone\x1b[0m\n5\t\x1b[1mother\x1b[0m\n" ∧
    ∃ text items, (run ["1", "5"] true).Writes text ∧ (Json.Value.array items).Writes text ∧
      List.Forall₂ Shows [⟨"1", .one, none⟩, ⟨"5", .other, none⟩] items ∧
      text = "[\n  \x7b\n    \"number\": \"1\",\n    \"category\": \"one\"\n  \x7d,\n"
        ++ "  \x7b\n    \"number\": \"5\",\n    \"category\": \"other\"\n  \x7d\n]\n" := by
  intro run
  have hload := load_specimenFiles "rules"
  have hone : Operands.ofText "1" = .ok (.ofNat 1) := by decide +kernel
  have hfive : Operands.ofText "5" = .ok (.ofNat 5) := by decide +kernel
  have hbad : Operands.ofText "x" = .error (.malformed "x") := by decide +kernel
  have hlookup : (Table.ofSection .cardinal Table.specimen).lookup ["en-GB"] =
      some ("en", ⟨[(.one, "i = 1"), (.other, "")]⟩) := by decide +kernel
  obtain ⟨hfails, -⟩ := classify_all_or_nothing specimenFiles (some "rules") .cardinal false
    "en-GB" none false ["1", "5", "x"]
  obtain ⟨-, hsucceeds⟩ := classify_all_or_nothing specimenFiles (some "rules") .cardinal false
    "en-GB" none false ["1", "5"]
  have hnothing := hfails 65 (.badNumber hload hlookup (by simp) hbad)
  refine ⟨hnothing false, hnothing true, ?_⟩
  have hfree : ∀ code, ¬Obstacle specimenFiles .cardinal "en-GB" ["1", "5"] (some "rules")
      code := by
    intro code h
    cases h with
    | unreadable hfile => cases hfile
    | unread hfile hread =>
      cases ((load_of_readable hfile).symm.trans hload).symm.trans hread
    | unknownLanguage hload' hmissing =>
      cases hload.symm.trans hload'
      cases hlookup.symm.trans hmissing
    | badNumber _ _ hmem hread =>
      simp only [List.mem_cons, List.not_mem_nil, or_false] at hmem
      rcases hmem with rfl | rfl
      · cases hone.symm.trans hread
      · cases hfive.symm.trans hread
  obtain ⟨path, t, key, set, results, hpath, hload', hlookup', hresults, hunique, hlines, text,
    items, htext, hdocument, hitems⟩ := hsucceeds hfree
  cases hpath
  cases hload.symm.trans hload'
  cases hlookup.symm.trans hlookup'
  have hexpected : List.Forall₂ (IsResult ⟨[(.one, "i = 1"), (.other, "")]⟩ none false) ["1", "5"]
      [⟨"1", .one, none⟩, ⟨"5", .other, none⟩] :=
    .cons ⟨rfl, _, hone, by decide +kernel, rfl⟩
      (.cons ⟨rfl, _, hfive, by decide +kernel, rfl⟩ .nil)
  obtain rfl := hunique _ hexpected
  refine ⟨?_, text, items, htext, hdocument, hitems, ?_⟩
  · have hwritten : String.join ([⟨"1", .one, none⟩, ⟨"5", .other, none⟩].map resultText) =
        "1\t\x1b[1mone\x1b[0m\n5\t\x1b[1mother\x1b[0m\n" := by decide +kernel
    rw [← hwritten]
    exact hlines
  · -- the same run once more, computed
    have hsame := (run_classify_of_results false hload hlookup
      (classifyAll_eq_ok_iff.2 hexpected) true).2.symm.trans htext.2
    rw [← hsame]
    decide +kernel

end CommandLine

end PluralForms
