import PluralForms.Proofs.Rule.RoundTrip
import PluralForms.Proofs.Text.Stretches
import PluralForms.Sample

/-!
# Samples where they stand

The sections of a rule stand behind its marks, the lists of samples behind the names of their
sections, and the tokens of a list between its commas. Cutting stretches in the way that the texts
are cut gives the lists and tokens that a rule is read with, each in its place:

    map_word_sampleStretches : the lists are those of the rule
    map_word_tokenStretches : the tokens are those of its samples

A section that is followed by another one with its name does not count, and neither does one whose
name is not known (`EverySectionCounts`: there is none of these).
-/

namespace PluralForms

open Text

/-! ### Of each name the last -/

/-- The samples of a section with the one name, or with the other. -/
def Section.integer? : Section → Option String
  | .integer samples => some samples
  | _ => none

def Section.decimal? : Section → Option String
  | .decimal samples => some samples
  | _ => none

namespace Rule

theorem foldl_withSection (secs : List Section) (rule : Rule) :
    (secs.foldl withSection rule).integerSamples =
      ((secs.filterMap Section.integer?).getLast?).or rule.integerSamples ∧
    (secs.foldl withSection rule).decimalSamples =
      ((secs.filterMap Section.decimal?).getLast?).or rule.decimalSamples := by
  induction secs generalizing rule with
  | nil => exact ⟨rfl, rfl⟩
  | cons sec secs ih =>
    obtain ⟨hinteger, hdecimal⟩ := ih (rule.withSection sec)
    rw [List.foldl_cons, hinteger, hdecimal]
    cases sec <;>
      simp [withSection, Section.integer?, Section.decimal?, List.getLast?_cons,
        List.filterMap_cons]

/-! ### Sections and lists -/

/-- The sections of a rule without the blanks around them. -/
def sectionStretches (text : String) : List Stretch :=
  (((Stretch.whole text.toList).splitOn ['@']).tail.map Stretch.trim).filter (·.word ≠ [])

/-- The list of samples of a section that has this name. -/
def samplesNamed? (name : List Char) (sec : Stretch) : Option Stretch :=
  (dropLead name sec.word).map fun _ => (sec.skip name).trim

/-- The lists of samples that count: of each name the last one, whole numbers first. -/
def sampleStretches (text : String) : List Stretch :=
  ((sectionStretches text).filterMap (samplesNamed? "integer".toList)).getLast?.toList
    ++ ((sectionStretches text).filterMap (samplesNamed? "decimal".toList)).getLast?.toList

/-- The tokens of the samples that a rule lists, whole numbers first. -/
def tokens (rule : Rule) : List (List Char) :=
  rule.sampleTexts.flatMap fun samples => sampleTokens samples.toList

/-- The tokens of the lists of samples that count. -/
def tokenStretches (text : String) : List Stretch :=
  (sampleStretches text).flatMap fun samples =>
    ((samples.splitOn [',']).map Stretch.trim).filter (·.word ≠ [])

/-- Each section has a name that is known, and it is the last one that has it. -/
def EverySectionCounts (text : String) : Prop :=
  ∀ sec ∈ sectionStretches text, ∃ name ∈ ["integer".toList, "decimal".toList],
    ∃ samples ∈ sampleStretches text, samplesNamed? name sec = some samples

instance (text : String) : Decidable (EverySectionCounts text) :=
  inferInstanceAs (Decidable (∀ sec ∈ sectionStretches text, _))

theorem map_word_filter_trim (ss : List Stretch) :
    ((ss.map Stretch.trim).filter (·.word ≠ [])).map Stretch.word =
      ((ss.map Stretch.word).map trim).filter (· ≠ []) := by
  rw [List.map_map, List.filter_map, List.filter_map, List.map_map]
  rfl

theorem map_read_sectionStretches (text : String) :
    (sectionStretches text).map (fun sec => Section.read sec.word) = sections text.toList := by
  have hwords : (sectionStretches text).map Stretch.word =
      ((splitOn ['@'] text.toList).map trim).tail.filter (· ≠ []) := by
    unfold sectionStretches
    rw [map_word_filter_trim, List.map_tail, Stretch.map_word_splitOn, ← List.map_tail]
    rfl
  rw [sections_eq, ← hwords, List.map_map]
  rfl

theorem word_samplesNamed? (name : List Char) (sec : Stretch) :
    (samplesNamed? name sec).map (fun s => String.ofList s.word) =
      (dropLead name sec.word).map fun rest => String.ofList (trim rest) := by
  unfold samplesNamed? dropLead
  split <;> rfl

theorem integer?_read (sec : Stretch) : (Section.read sec.word).integer? =
    (samplesNamed? "integer".toList sec).map fun s => String.ofList s.word := by
  rw [word_samplesNamed?]
  unfold Section.read
  cases dropLead "integer".toList sec.word with
  | some rest => rfl
  | none => cases dropLead "decimal".toList sec.word <;> rfl

/-- No section has both names. -/
theorem decimal?_read (sec : Stretch) : (Section.read sec.word).decimal? =
    (samplesNamed? "decimal".toList sec).map fun s => String.ofList s.word := by
  rw [word_samplesNamed?]
  unfold Section.read
  cases hinteger : dropLead "integer".toList sec.word with
  | none => cases dropLead "decimal".toList sec.word <;> rfl
  | some rest =>
    have hdecimal : dropLead "decimal".toList sec.word = none := by
      unfold dropLead at hinteger ⊢
      split at hinteger
      · next hlead =>
        obtain ⟨rest', hrest⟩ := List.isPrefixOf_iff_prefix.1 hlead
        rw [← hrest]
        rfl
      · cases hinteger
    rw [hdecimal]
    rfl

/-- The last list of a name, read in either order. -/
theorem map_getLast?_filterMap {α β γ : Type} (f : α → Option β) (g : β → γ) (as : List α) :
    ((as.filterMap f).getLast?.toList).map g =
      (as.filterMap fun a => (f a).map g).getLast?.toList := by
  rw [← List.map_filterMap, List.getLast?_map, Option.toList_map]

theorem map_word_sampleStretches (text : String) :
    (sampleStretches text).map (fun s => String.ofList s.word) = (read text).sampleTexts := by
  have hread : Section.integer? ∘ (fun sec : Stretch => Section.read sec.word) = _ ∧
      Section.decimal? ∘ (fun sec : Stretch => Section.read sec.word) = _ :=
    ⟨funext integer?_read, funext decimal?_read⟩
  obtain ⟨hinteger, hdecimal⟩ := foldl_withSection (sections text.toList)
    ⟨Condition.readChars (conditionText text.toList), none, none⟩
  rw [Option.or_none, ← map_read_sectionStretches, List.filterMap_map] at hinteger hdecimal
  unfold sampleTexts read readChars sampleStretches
  rw [← map_read_sectionStretches, hinteger, hdecimal, hread.1, hread.2, List.map_append,
    map_getLast?_filterMap, map_getLast?_filterMap]

theorem map_word_tokenStretches (text : String) :
    (tokenStretches text).map Stretch.word = (read text).tokens := by
  unfold tokenStretches tokens
  rw [← map_word_sampleStretches, List.map_flatMap, List.flatMap_map]
  apply List.flatMap_congr
  intro s _
  rw [map_word_filter_trim, Stretch.map_word_splitOn]
  unfold sampleTokens
  rw [String.toList_ofList]

end Rule

end PluralForms
