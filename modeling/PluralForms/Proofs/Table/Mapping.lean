import Mathlib.Data.List.Nodup
import PluralForms.Proofs.Dictionary
import PluralForms.Proofs.RuleFile.Documents
import PluralForms.Table.Basic

/-!
# A table is what its section says

A section of a document is a mapping from languages and labels to texts, once repetitions are
settled: of languages and of labels the last one counts. The table that is loaded from a document is
a function of this mapping. Nothing else of the document leaves a trace in it, neither the order of
members, nor the other section, nor members that are passed over:

    read_eq_ok_iff     : which documents are loaded, and as which table
    ofSection_eq_of_eq : equal mappings have equal tables
    holds_ofSection    : the rules of a table and its warnings, label by label
    read_by_mapping    : all of this, of texts
-/

namespace PluralForms

open Json

/-! ### Mappings -/

/-- For each language that has rules, the text under each label that it has. -/
abbrev Mapping : Type := String → Option (String → Option String)

/-- The language has the label, with this text. -/
def Mapping.Has (m : Mapping) (language label text : String) : Prop :=
  ∃ labels, m language = some labels ∧ labels label = some text

/-- The mapping of a section as written. -/
def mappingOf (written : LabelledRules) : Mapping :=
  fun language => (Dictionary.lastOf written language).map Dictionary.lastOf

/-- The section of a document as written, if the document is a rule file that has the section. -/
def sectionIn (type : PluralType) (document : Value) : Option LabelledRules :=
  (RuleFile.documentOf document).bind fun file => file.labelledRules type

/-- The mapping of a document's section. -/
def documentMapping (type : PluralType) (document : Value) : Option Mapping :=
  (sectionIn type document).map mappingOf

namespace Table

/-! ### Loading -/

theorem read_eq_ok_iff {origin text : String} {type : PluralType} {document : Value}
    (h : document.Writes text) {t : Table} :
    Table.read origin type text = .ok t ↔
      ∃ written, sectionIn type document = some written ∧ t = ofSection type written := by
  unfold Table.read sectionIn
  rw [← RuleFile.read_of_writes h]
  cases RuleFile.read text with
  | error fault => simp [Except.toOption]
  | ok file =>
    simp only [Except.toOption, Option.bind_some]
    cases file.labelledRules type with
    | none => simp
    | some written => simp [eq_comm]

/-- A text that is loaded is the text of a document. -/
theorem exists_writes {origin text : String} {type : PluralType} {t : Table}
    (h : Table.read origin type text = .ok t) : ∃ document : Value, document.Writes text := by
  unfold Table.read at h
  split at h
  · cases h
  · next hread => exact RuleFile.exists_writes hread

theorem exists_written {origin text : String} {type : PluralType} {document : Value} {t : Table}
    (hwrites : document.Writes text) (hread : Table.read origin type text = .ok t) :
    ∃ written, documentMapping type document = some (mappingOf written) ∧
      t = ofSection type written := by
  obtain ⟨written, hwritten, rfl⟩ := (read_eq_ok_iff hwrites).1 hread
  exact ⟨written, congrArg (Option.map mappingOf) hwritten, rfl⟩

/-! ### Languages -/

/-- The languages of a section with their labels, in order and without repetitions. -/
def labelled (written : LabelledRules) : Dictionary (Dictionary String) :=
  Dictionary.ofList (written.map fun entry => (entry.1, Dictionary.ofList entry.2))

theorem get?_labelled (written : LabelledRules) (language : String) :
    (labelled written).get? language =
      (Dictionary.lastOf written language).map Dictionary.ofList := by
  unfold labelled
  rw [Dictionary.get?_ofList, Dictionary.lastOf_map]

/-- The labels of a language are found under it, and their texts under them. -/
theorem map_get?_labelled (written : LabelledRules) (language : String) :
    ((labelled written).get? language).map Dictionary.get? = mappingOf written language := by
  rw [get?_labelled, Option.map_map]
  unfold mappingOf
  congr 1
  funext labels
  exact Dictionary.get?_ofList labels

theorem mappingOf_eq_iff {written written' : LabelledRules} :
    mappingOf written = mappingOf written' ↔ labelled written = labelled written' := by
  have hmapping : ∀ written, mappingOf written =
      fun language => ((labelled written).get? language).map Dictionary.get? :=
    fun written => funext fun language => (map_get?_labelled written language).symm
  constructor
  · intro h
    apply Dictionary.ext_get?
    intro language
    apply Option.map_injective Dictionary.get?_injective
    rw [map_get?_labelled, map_get?_labelled, h]
  · intro h
    rw [hmapping, hmapping, h]

theorem ofSection_eq (type : PluralType) (written : LabelledRules) :
    ofSection type written =
      ⟨type, (labelled written).mapValues orderedRules,
        (labelled written).entries.flatMap fun entry => labelWarnings entry.1 entry.2⟩ := by
  have hlanguages := Dictionary.ofList_entries ((labelled written).mapValues orderedRules)
  unfold ofSection
  dsimp only
  exact congrArg (Table.mk type · _) hlanguages

theorem ofSection_eq_of_eq {type : PluralType} {written written' : LabelledRules}
    (h : mappingOf written = mappingOf written') :
    ofSection type written = ofSection type written' := by
  rw [ofSection_eq, ofSection_eq, mappingOf_eq_iff.1 h]

/-! ### Rules -/

theorem mem_orderedRules {labels : Dictionary String} {category : Category} {text : String} :
    (category, text) ∈ (orderedRules labels).rules ↔
      labels.get? category.ruleKey = some text := by
  unfold orderedRules
  simp only [List.mem_filterMap, Option.map_eq_some_iff, Prod.mk.injEq]
  constructor
  · rintro ⟨category', -, text', hget, rfl, rfl⟩
    exact hget
  · intro hget
    exact ⟨category, Category.mem_all category, text, hget, rfl, rfl⟩

/-- One rule in front of another has the smaller category. -/
def Increasing (set : RuleSet) : Prop :=
  set.rules.Pairwise fun a b => a.1.index < b.1.index

theorem increasing_orderedRules (labels : Dictionary String) :
    Increasing (orderedRules labels) := by
  have hall : Category.all.Pairwise fun a b => a.index < b.index := by decide
  unfold Increasing orderedRules
  rw [List.pairwise_filterMap]
  refine hall.imp fun {a b} hlt => ?_
  intro rule hrule rule' hrule'
  obtain ⟨text, -, rfl⟩ := Option.map_eq_some_iff.1 hrule
  obtain ⟨text', -, rfl⟩ := Option.map_eq_some_iff.1 hrule'
  exact hlt

/-! ### Warnings -/

theorem ofRuleKey?_eq_none_iff {label : String} :
    Category.ofRuleKey? label = none ↔ ∀ category : Category, label ≠ category.ruleKey := by
  unfold Category.ofRuleKey?
  rw [List.find?_eq_none]
  constructor
  · intro h category heq
    exact h category (Category.mem_all category) (beq_iff_eq.2 heq.symm)
  · intro h category _ heq
    exact h category (eq_of_beq heq).symm

theorem mem_labelWarnings {language : String} {labels : Dictionary String} {w : Warning} :
    w ∈ labelWarnings language labels ↔ ∃ label text, labels.get? label = some text ∧
      (∀ category : Category, label ≠ category.ruleKey) ∧ w = .unknownRuleKey language label := by
  unfold labelWarnings Dictionary.keys
  simp only [List.mem_map, List.mem_filter, Option.isNone_iff_eq_none, ofRuleKey?_eq_none_iff]
  constructor
  · rintro ⟨label, ⟨⟨⟨label', text⟩, hmem, rfl⟩, hlabel⟩, rfl⟩
    exact ⟨_, text, labels.mem_entries_iff.1 hmem, hlabel, rfl⟩
  · rintro ⟨label, text, hget, hlabel, rfl⟩
    exact ⟨label, ⟨⟨(label, text), labels.mem_entries_iff.2 hget, rfl⟩, hlabel⟩, rfl⟩

theorem nodup_labelWarnings (language : String) (labels : Dictionary String) :
    (labelWarnings language labels).Nodup :=
  (labels.nodup_keys.filter _).map fun _ _ heq => (Warning.unknownRuleKey.inj heq).2

theorem nodup_flatMap_labelWarnings (d : Dictionary (Dictionary String)) :
    (d.entries.flatMap fun entry => labelWarnings entry.1 entry.2).Nodup := by
  rw [List.nodup_flatMap]
  refine ⟨fun entry _ => nodup_labelWarnings entry.1 entry.2, d.ordered.imp fun {a b} hlt => ?_⟩
  intro w hw hw'
  obtain ⟨label, text, -, -, rfl⟩ := mem_labelWarnings.1 hw
  obtain ⟨label', text', -, -, heq⟩ := mem_labelWarnings.1 hw'
  exact String.ne_of_lt hlt (Warning.unknownRuleKey.inj heq).1

/-! ### What a table holds -/

/-- The table of a mapping: its rules are in order, and each label is accounted for once, as a rule
if it names a category and else as a warning. -/
structure Holds (t : Table) (m : Mapping) : Prop where
  languages : ∀ language, (t.get? language).isSome = (m language).isSome
  increasing : ∀ language set, t.get? language = some set → Increasing set
  rule_of_label : ∀ language (category : Category) text, m.Has language category.ruleKey text →
    ∃ set, t.get? language = some set ∧
      set.rules.filter (·.1 = category) = [(category, text)]
  label_of_rule : ∀ language set category text, t.get? language = some set →
    (category, text) ∈ set.rules → m.Has language category.ruleKey text
  warning_of_label : ∀ language label text, m.Has language label text →
    (∀ category : Category, label ≠ category.ruleKey) →
      t.warnings.count (.unknownRuleKey language label) = 1
  label_of_warning : ∀ w ∈ t.warnings, ∃ language label text, m.Has language label text ∧
    (∀ category : Category, label ≠ category.ruleKey) ∧ w = .unknownRuleKey language label

theorem filter_eq_singleton {set : RuleSet} (h : Increasing set) {category : Category}
    {text : String} (hrule : (category, text) ∈ set.rules) :
    set.rules.filter (·.1 = category) = [(category, text)] := by
  obtain ⟨rules⟩ := set
  have hindex : ∀ {rule rule' : Category × String}, rule.1.index < rule'.1.index →
      rule.1 ≠ rule'.1 := by
    intro rule rule' hlt heq
    rw [heq] at hlt
    exact Nat.lt_irrefl _ hlt
  induction rules with
  | nil => exact absurd hrule List.not_mem_nil
  | cons rule rules ih =>
    obtain ⟨hfirst, hrest⟩ := List.pairwise_cons.1 h
    rcases List.mem_cons.1 hrule with rfl | hlater
    · have hnone : rules.filter (·.1 = category) = [] := by
        rw [List.filter_eq_nil_iff]
        intro rule' hmem heq
        exact hindex (hfirst rule' hmem) (of_decide_eq_true heq).symm
      show List.filter _ ((category, text) :: rules) = _
      rw [List.filter_cons_of_pos (by simp), hnone]
    · have hne : rule.1 ≠ category := hindex (hfirst _ hlater)
      show List.filter _ (rule :: rules) = _
      rw [List.filter_cons_of_neg (by simpa using hne)]
      exact ih hrest hlater

theorem has_mappingOf {written : LabelledRules} {language label text : String} :
    (mappingOf written).Has language label text ↔
      ∃ labels, (labelled written).get? language = some labels ∧
        labels.get? label = some text := by
  unfold Mapping.Has
  rw [← map_get?_labelled]
  simp only [Option.map_eq_some_iff, exists_exists_and_eq_and]

theorem get?_ofSection (type : PluralType) (written : LabelledRules) (language : String) :
    (ofSection type written).get? language =
      ((labelled written).get? language).map orderedRules := by
  rw [ofSection_eq]
  exact Dictionary.get?_mapValues orderedRules (labelled written) language

theorem mem_warnings_ofSection {type : PluralType} {written : LabelledRules} {w : Warning} :
    w ∈ (ofSection type written).warnings ↔ ∃ language label text,
      (mappingOf written).Has language label text ∧
        (∀ category : Category, label ≠ category.ruleKey) ∧
        w = .unknownRuleKey language label := by
  rw [ofSection_eq]
  simp only [List.mem_flatMap, mem_labelWarnings, has_mappingOf]
  constructor
  · rintro ⟨⟨language, labels⟩, hmem, label, text, hget, hlabel, rfl⟩
    exact ⟨language, label, text, ⟨labels, (Dictionary.mem_entries_iff _).1 hmem, hget⟩, hlabel,
      rfl⟩
  · rintro ⟨language, label, text, ⟨labels, hlanguage, hget⟩, hlabel, rfl⟩
    exact ⟨(language, labels), (Dictionary.mem_entries_iff _).2 hlanguage, label, text, hget,
      hlabel, rfl⟩

theorem holds_ofSection (type : PluralType) (written : LabelledRules) :
    (ofSection type written).Holds (mappingOf written) where
  languages := by
    intro language
    rw [get?_ofSection, ← map_get?_labelled, Option.isSome_map, Option.isSome_map]
  increasing := by
    intro language set hset
    rw [get?_ofSection] at hset
    obtain ⟨labels, -, rfl⟩ := Option.map_eq_some_iff.1 hset
    exact increasing_orderedRules labels
  rule_of_label := by
    intro language category text hhas
    obtain ⟨labels, hlanguage, htext⟩ := has_mappingOf.1 hhas
    refine ⟨orderedRules labels, ?_, ?_⟩
    · rw [get?_ofSection, hlanguage]
      rfl
    · exact filter_eq_singleton (increasing_orderedRules labels) (mem_orderedRules.2 htext)
  label_of_rule := by
    intro language set category text hset hrule
    rw [get?_ofSection] at hset
    obtain ⟨labels, hlanguage, rfl⟩ := Option.map_eq_some_iff.1 hset
    exact has_mappingOf.2 ⟨labels, hlanguage, mem_orderedRules.1 hrule⟩
  warning_of_label := by
    intro language label text hhas hlabel
    apply List.count_eq_one_of_mem
    · rw [ofSection_eq]
      exact nodup_flatMap_labelWarnings (labelled written)
    · exact mem_warnings_ofSection.2 ⟨language, label, text, hhas, hlabel, rfl⟩
  label_of_warning := fun _ hw => mem_warnings_ofSection.1 hw

/-! ### Documents -/

/-- The texts that are loaded are those of the documents that are rule files and have the section.
The table holds what the section of the document maps, and documents whose sections are equal as
mappings have the same table. -/
theorem read_by_mapping (type : PluralType) :
    (∀ origin text, (∃ t, Table.read origin type text = .ok t) ↔
      ∃ document, document.Writes text ∧ (documentMapping type document).isSome = true) ∧
    (∀ origin document text t, document.Writes text → Table.read origin type text = .ok t →
      ∃ m, documentMapping type document = some m ∧ t.Holds m) ∧
    (∀ origin origin' document document' text text' t t', document.Writes text →
      document'.Writes text' → Table.read origin type text = .ok t →
        Table.read origin' type text' = .ok t' →
          documentMapping type document = documentMapping type document' → t = t') := by
  refine ⟨fun origin text => ⟨?_, ?_⟩, ?_, ?_⟩
  · rintro ⟨t, hread⟩
    obtain ⟨document, hwrites⟩ := exists_writes hread
    obtain ⟨written, hsome, -⟩ := exists_written hwrites hread
    exact ⟨document, hwrites, Option.isSome_of_eq_some hsome⟩
  · rintro ⟨document, hwrites, hsome⟩
    obtain ⟨m, hm⟩ := Option.isSome_iff_exists.1 hsome
    obtain ⟨written, hwritten, -⟩ := Option.map_eq_some_iff.1 hm
    exact ⟨_, (read_eq_ok_iff hwrites).2 ⟨written, hwritten, rfl⟩⟩
  · intro origin document text t hwrites hread
    obtain ⟨written, hsome, rfl⟩ := exists_written hwrites hread
    exact ⟨_, hsome, holds_ofSection type written⟩
  · intro origin origin' document document' text text' t t' hwrites hwrites' hread hread' heq
    obtain ⟨written, hsome, rfl⟩ := exists_written hwrites hread
    obtain ⟨written', hsome', rfl⟩ := exists_written hwrites' hread'
    rw [hsome, hsome'] at heq
    exact ofSection_eq_of_eq (Option.some.inj heq)

/-- The characters of a text, each for itself; those that cannot stand for themselves are left
out. -/
def spelled (text : String) : List Letter :=
  text.toList.filterMap fun c =>
    if h : 0x20 ≤ c.toNat ∧ c ≠ '"' ∧ c ≠ '\\' then some (.plain c h) else none

def objectOf (members : List (String × Value)) : Value :=
  .object (members.map fun (key, value) => (spelled key, value))

/-- A document with a section, behind other members that stand next to it. -/
def documentWith (others : List (String × Value)) (written : LabelledRules) : Value :=
  let languages := written.map fun (language, labels) =>
    (language, objectOf (labels.map fun (label, text) => (label, .string (spelled text))))
  objectOf [("supplemental",
    objectOf (others ++ [("plurals-type-cardinal", objectOf languages)]))]

/-- Two languages, with a label that names no category. -/
def specimen : LabelledRules :=
  [("en", [("pluralRule-count-one", "i = 1"), ("pluralRule-count-other", ""), ("note", "none")]),
    ("ja", [("pluralRule-count-other", "")])]

/-- The same in another order, with a text that does not count. -/
def shuffled : LabelledRules :=
  [("ja", [("pluralRule-count-other", "")]),
    ("en", [("note", "some"), ("pluralRule-count-other", ""), ("note", "none"),
      ("pluralRule-count-one", "i = 1")])]

theorem read_by_mapping_shuffled :
    ∃ t, Table.read "first" .cardinal (documentWith [] specimen).text = .ok t ∧
      Table.read "second" .cardinal (documentWith
        [("version", .array [.null]), ("plurals-type-ordinal", .null)] shuffled).text = .ok t := by
  obtain ⟨hloaded, -, hequal⟩ := read_by_mapping .cardinal
  have hspecimen : sectionIn .cardinal (documentWith [] specimen) = some specimen := by
    decide +kernel
  have hshuffled : sectionIn .cardinal (documentWith
      [("version", .array [.null]), ("plurals-type-ordinal", .null)] shuffled) =
        some shuffled := by
    decide +kernel
  have hmapping : mappingOf specimen = mappingOf shuffled := mappingOf_eq_iff.2 (by decide +kernel)
  obtain ⟨t, ht⟩ := (hloaded "first" _).2 ⟨_, Value.writes_text (documentWith [] specimen), by
    rw [documentMapping, hspecimen]
    rfl⟩
  obtain ⟨t', ht'⟩ := (hloaded "second" _).2 ⟨_, Value.writes_text (documentWith
      [("version", .array [.null]), ("plurals-type-ordinal", .null)] shuffled), by
    rw [documentMapping, hshuffled]
    rfl⟩
  have heq : t = t' := by
    refine hequal _ _ _ _ _ _ t t' (Value.writes_text _) (Value.writes_text _) ht ht' ?_
    rw [documentMapping, documentMapping, hspecimen, hshuffled, Option.map_some, Option.map_some,
      hmapping]
  exact ⟨t, ht, heq ▸ ht'⟩

end Table

end PluralForms
