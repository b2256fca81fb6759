import PluralForms.Proofs.Rule.Conditions
import PluralForms.Rule

/-!
# Rules read back

The canonical text of a rule is its condition and its samples, each sample section behind a mark.
Neither holds a mark of its own, so the text is cut at the marks into the parts that it was joined
from, and each of them is read as what it was. Rendering is not the only way of writing a rule, but
it loses nothing: of the rules that can be written without a broken clause,

    round_trip : rule.WellFormed → read rule.render = rule, and
                 (read text).WellFormed, when no clause of the text is broken

so to read a text and to render what was read is to bring the text into its canonical form.
-/

namespace PluralForms

/-- A list of samples that a section can hold. -/
structure IsSamples (samples : String) : Prop where
  unmarked : '@' ∉ samples.toList
  trimmed : Text.Trimmed samples.toList

/-- A rule that a text can write. -/
structure Rule.WellFormed (rule : Rule) : Prop where
  condition : rule.condition.WellFormed
  samples : ∀ samples ∈ rule.sampleTexts, IsSamples samples

/-- A rule whose text can be cut into its condition and its samples again. -/
structure Rule.Legible (rule : Rule) : Prop where
  unmarked : '@' ∉ rule.condition.render.toList
  trimmed : Text.Trimmed rule.condition.render.toList
  samples : ∀ samples ∈ rule.sampleTexts, IsSamples samples

theorem Rule.WellFormed.legible {rule : Rule} (h : rule.WellFormed) : rule.Legible where
  unmarked := Condition.unmarked_render h.condition
  trimmed := Condition.trimmed_render h.condition
  samples := h.samples

/-! ### Sections -/

namespace Section

theorem dropLead_append (lead cs : List Char) : Text.dropLead lead (lead ++ cs) = some cs := by
  unfold Text.dropLead
  rw [if_pos (List.isPrefixOf_iff_prefix.2 (List.prefix_append lead cs)), List.drop_left]

/-- What stands behind the name of a section, when the section is trimmed. -/
theorem exists_trim_named {name samples : List Char} (hname : Text.Trimmed name)
    (hne : name ≠ []) (hsamples : Text.Trimmed samples) :
    ∃ rest, Text.trim (name ++ ' ' :: samples) = name ++ rest ∧ Text.trim rest = samples := by
  cases samples with
  | nil =>
    refine ⟨[], ?_, rfl⟩
    rw [List.append_nil]
    exact Text.trim_between Text.isBlankRun_nil Text.isBlankRun_space hname
  | cons c samples =>
    refine ⟨' ' :: c :: samples, Text.trim_eq_self ⟨fun d hd => hname.first d ?_, ?_⟩, ?_⟩
    · rwa [List.head?_append_of_ne_nil _ hne] at hd
    · intro d hd
      refine hsamples.last d ?_
      rwa [List.getLast?_append_of_ne_nil _ (List.cons_ne_nil _ _),
        List.getLast?_cons_cons] at hd
    · have htrim := Text.trim_between Text.isBlankRun_space Text.isBlankRun_nil hsamples
      rwa [List.append_nil] at htrim

theorem trim_named_ne_nil {name samples : List Char} (hname : Text.Trimmed name)
    (hne : name ≠ []) (hsamples : Text.Trimmed samples) :
    Text.trim (name ++ ' ' :: samples) ≠ [] := by
  obtain ⟨rest, htext, -⟩ := exists_trim_named hname hne hsamples
  rw [htext]
  exact List.append_ne_nil_of_left_ne_nil hne rest

/-- A section without its name is the list of its samples. -/
theorem read_integer {samples : String} (h : Text.Trimmed samples.toList) :
    read (Text.trim ("integer".toList ++ ' ' :: samples.toList)) = .integer samples := by
  have hname : Text.Trimmed "integer".toList := by decide
  obtain ⟨rest, htext, hrest⟩ := exists_trim_named hname (by decide) h
  unfold read
  rw [htext, dropLead_append]
  show Section.integer (String.ofList (Text.trim rest)) = _
  rw [hrest, String.ofList_toList]

theorem read_decimal {samples : String} (h : Text.Trimmed samples.toList) :
    read (Text.trim ("decimal".toList ++ ' ' :: samples.toList)) = .decimal samples := by
  have hname : Text.Trimmed "decimal".toList := by decide
  obtain ⟨rest, htext, hrest⟩ := exists_trim_named hname (by decide) h
  have hother : Text.dropLead "integer".toList ("decimal".toList ++ rest) = none := rfl
  unfold read
  rw [htext, hother, dropLead_append]
  show Section.decimal (String.ofList (Text.trim rest)) = _
  rw [hrest, String.ofList_toList]

/-- The samples of a known section. -/
def WellFormed : Section → Prop
  | .integer samples => IsSamples samples
  | .decimal samples => IsSamples samples
  | .unknown _ => True

theorem isSamples_of_dropLead {lead cs rest : List Char} (hcs : '@' ∉ cs)
    (h : Text.dropLead lead cs = some rest) : IsSamples (String.ofList (Text.trim rest)) := by
  unfold Text.dropLead at h
  split at h
  · cases h
    refine ⟨fun hmem => ?_, ?_⟩
    · rw [String.toList_ofList] at hmem
      exact hcs (List.mem_of_mem_drop (Text.mem_of_mem_trim hmem))
    · rw [String.toList_ofList]
      exact Text.trimmed_trim _
  · simp at h

theorem wellFormed_read {cs : List Char} (h : '@' ∉ cs) : (read cs).WellFormed := by
  unfold read
  split
  · next hlead => exact isSamples_of_dropLead h hlead
  · next hlead => exact isSamples_of_dropLead h hlead
  · trivial

end Section

namespace Rule

/-! ### Cutting at the marks -/

/-- Parts joined with blanks, each but the first behind a mark, are cut apart at the marks. -/
theorem trim_splitOn_intercalate {lead : List Char} {parts : List (List Char)}
    (hlead : '@' ∉ lead) (hparts : ∀ part ∈ parts, '@' ∉ part) :
    (Text.splitOn ['@'] ([' '].intercalate (lead :: parts.map ('@' :: ·)))).map Text.trim =
      Text.trim lead :: parts.map Text.trim := by
  induction parts generalizing lead with
  | nil =>
    rw [List.map_nil, List.intercalate_singleton, Text.splitOn_mark_of_not_mem hlead]
    rfl
  | cons part parts ih =>
    have hpart : '@' ∉ part := hparts part List.mem_cons_self
    have hlead' : '@' ∉ lead ++ [' '] := by
      simpa using hlead
    have hrest := ih hpart fun p hp => hparts p (List.mem_cons_of_mem _ hp)
    rw [List.map_cons, List.intercalate_cons_cons, List.intercalate_cons_cons_left,
      Text.splitOn_mark_append hlead', List.map_cons, hrest, Text.trim_append Text.isBlankRun_space]
    rfl

/-- The parts of a text between its marks: the condition, and the sections. -/
theorem splitOn_eq (cs : List Char) :
    Text.splitOn ['@'] cs =
      conditionText cs :: (Text.splitOn ['@'] (cs.dropWhile (· != '@'))).tail :=
  Text.splitOn_mark cs

theorem sections_eq (cs : List Char) :
    sections cs =
      (((Text.splitOn ['@'] cs).map Text.trim).tail.filter (· ≠ [])).map Section.read := by
  have hstop : conditionText (cs.dropWhile (· != '@')) = [] :=
    Text.takeWhile_run (fun _ hc => absurd hc List.not_mem_nil) (Text.stop_dropWhile cs)
  have hrest := splitOn_eq (cs.dropWhile (· != '@'))
  rw [hstop] at hrest
  unfold sections
  rw [splitOn_eq cs, hrest]
  rfl

/-- A text that is cut into a condition and sections is the rule of these. -/
theorem readChars_of_parts {cs condition : List Char} {parts : List (List Char)}
    (h : (Text.splitOn ['@'] cs).map Text.trim = condition :: parts)
    (hne : ∀ part ∈ parts, part ≠ []) :
    readChars cs = (parts.map Section.read).foldl withSection
      ⟨Condition.readChars condition, none, none⟩ := by
  have hcondition : Text.trim (conditionText cs) = condition := by
    rw [splitOn_eq] at h
    exact (List.cons.inj h).1
  have hsections : sections cs = parts.map Section.read := by
    rw [sections_eq, h, List.tail_cons, List.filter_eq_self.2]
    simpa using hne
  unfold readChars
  rw [hsections, ← hcondition, Condition.readChars_trim]

/-! ### The parts of a canonical text -/

/-- The sections of a rule without their marks. -/
def sampleParts (rule : Rule) : List (List Char) :=
  rule.integerSamples.toList.map (fun samples => "integer".toList ++ ' ' :: samples.toList) ++
    rule.decimalSamples.toList.map (fun samples => "decimal".toList ++ ' ' :: samples.toList)

theorem toList_render (rule : Rule) :
    rule.render.toList = [' '].intercalate ((match rule.condition with
      | .always => []
      | condition => [condition.render.toList]) ++ rule.sampleParts.map ('@' :: ·)) := by
  unfold render sampleParts
  rw [String.toList_intercalate]
  cases rule.condition <;> cases rule.integerSamples <;> cases rule.decimalSamples <;> simp

theorem mem_sampleParts {rule : Rule} {part : List Char} (h : part ∈ rule.sampleParts) :
    ∃ samples ∈ rule.sampleTexts, part = "integer".toList ++ ' ' :: samples.toList ∨
      part = "decimal".toList ++ ' ' :: samples.toList := by
  unfold sampleParts at h
  unfold sampleTexts
  rcases List.mem_append.1 h with hpart | hpart
  · obtain ⟨samples, hsamples, rfl⟩ := List.mem_map.1 hpart
    exact ⟨samples, List.mem_append_left _ hsamples, Or.inl rfl⟩
  · obtain ⟨samples, hsamples, rfl⟩ := List.mem_map.1 hpart
    exact ⟨samples, List.mem_append_right _ hsamples, Or.inr rfl⟩

theorem unmarked_sampleParts {rule : Rule} (h : rule.Legible) :
    ∀ part ∈ rule.sampleParts, '@' ∉ part := by
  intro part hpart hmem
  obtain ⟨samples, hsamples, hname⟩ := mem_sampleParts hpart
  have hunmarked : '@' ∉ samples.toList := (h.samples samples hsamples).unmarked
  rcases hname with rfl | rfl <;> simp [hunmarked] at hmem

theorem parts_render {rule : Rule} (h : rule.Legible) :
    (Text.splitOn ['@'] rule.render.toList).map Text.trim =
      rule.condition.render.toList :: rule.sampleParts.map Text.trim := by
  have hparts : ∀ part ∈ rule.sampleParts, '@' ∉ part := unmarked_sampleParts h
  have hunmarked : '@' ∉ rule.condition.render.toList := h.unmarked
  have htrimmed : Text.Trimmed rule.condition.render.toList := h.trimmed
  rw [toList_render]
  generalize rule.sampleParts = parts at hparts
  cases hcondition : rule.condition with
  | always =>
    cases parts with
    | nil => rfl
    | cons part parts =>
      -- without a condition the text begins with a mark, and nothing stands before it
      have hrest := trim_splitOn_intercalate (hparts part List.mem_cons_self)
        fun p hp => hparts p (List.mem_cons_of_mem _ hp)
      have hmark := Text.splitOn_append_self (List.cons_ne_nil '@' [])
        ([' '].intercalate (part :: parts.map ('@' :: ·)))
      rw [List.singleton_append] at hmark
      rw [List.nil_append, List.map_cons, List.intercalate_cons_cons_left, hmark, List.map_cons,
        hrest]
      rfl
  | anyOf groups =>
    rw [hcondition] at hunmarked htrimmed
    have hall := trim_splitOn_intercalate hunmarked hparts
    rw [Text.trim_eq_self htrimmed] at hall
    exact hall

theorem read_parts {rule : Rule} (h : rule.Legible) :
    (rule.sampleParts.map Text.trim).map Section.read =
      rule.integerSamples.toList.map .integer ++ rule.decimalSamples.toList.map .decimal := by
  have htrimmed : ∀ samples ∈ rule.sampleTexts, Text.Trimmed samples.toList :=
    fun samples hsamples => (h.samples samples hsamples).trimmed
  unfold sampleTexts at htrimmed
  unfold sampleParts
  rw [List.map_append, List.map_append, List.map_map, List.map_map, List.map_map, List.map_map]
  congr 1
  · refine List.map_congr_left fun samples hsamples => Section.read_integer (htrimmed samples ?_)
    exact List.mem_append_left _ hsamples
  · refine List.map_congr_left fun samples hsamples => Section.read_decimal (htrimmed samples ?_)
    exact List.mem_append_right _ hsamples

/-- A section has its name at least, so it is not passed over as blank. -/
theorem trim_sampleParts_ne_nil {rule : Rule} (h : rule.Legible) :
    ∀ part ∈ rule.sampleParts.map Text.trim, part ≠ [] := by
  intro part hpart
  obtain ⟨named, hnamed, rfl⟩ := List.mem_map.1 hpart
  obtain ⟨samples, hsamples, hname⟩ := mem_sampleParts hnamed
  have htrimmed : Text.Trimmed samples.toList := (h.samples samples hsamples).trimmed
  rcases hname with rfl | rfl
  · exact Section.trim_named_ne_nil (by decide) (by decide) htrimmed
  · exact Section.trim_named_ne_nil (by decide) (by decide) htrimmed

/-- The samples are read back, and the condition is that of its own text. -/
theorem read_render_of_legible {rule : Rule} (h : rule.Legible) :
    read rule.render =
      { rule with condition := Condition.readChars rule.condition.render.toList } := by
  unfold read
  rw [readChars_of_parts (parts_render h) (trim_sampleParts_ne_nil h), read_parts h]
  obtain ⟨condition, integerSamples, decimalSamples⟩ := rule
  cases integerSamples <;> cases decimalSamples <;> rfl

theorem read_render {rule : Rule} (h : rule.WellFormed) : read rule.render = rule := by
  rw [read_render_of_legible h.legible, Condition.readChars_render h.condition]

/-! ### What is read is well-formed -/

theorem isSamples_withSection {rule : Rule} {sec : Section}
    (hrule : ∀ samples ∈ rule.sampleTexts, IsSamples samples) (hsec : sec.WellFormed) :
    ∀ samples ∈ (rule.withSection sec).sampleTexts, IsSamples samples := by
  intro samples hsamples
  cases sec with
  | integer new =>
    rcases List.mem_append.1 hsamples with hmem | hmem
    · obtain rfl : samples = new := by simpa [withSection] using hmem
      exact hsec
    · exact hrule samples (List.mem_append_right _ hmem)
  | decimal new =>
    rcases List.mem_append.1 hsamples with hmem | hmem
    · exact hrule samples (List.mem_append_left _ hmem)
    · obtain rfl : samples = new := by simpa [withSection] using hmem
      exact hsec
  | unknown text => exact hrule samples hsamples

theorem isSamples_foldl {rule : Rule} {secs : List Section}
    (hrule : ∀ samples ∈ rule.sampleTexts, IsSamples samples)
    (hsecs : ∀ sec ∈ secs, sec.WellFormed) :
    ∀ samples ∈ (secs.foldl withSection rule).sampleTexts, IsSamples samples := by
  induction secs generalizing rule with
  | nil => exact hrule
  | cons sec secs ih =>
    rw [List.foldl_cons]
    exact ih (isSamples_withSection hrule (hsecs sec List.mem_cons_self))
      fun s hs => hsecs s (List.mem_cons_of_mem _ hs)

/-- No section changes the condition. -/
theorem condition_foldl (rule : Rule) (secs : List Section) :
    (secs.foldl withSection rule).condition = rule.condition := by
  induction secs generalizing rule with
  | nil => rfl
  | cons sec secs ih =>
    rw [List.foldl_cons, ih]
    cases sec <;> rfl

theorem wellFormed_sections (cs : List Char) : ∀ sec ∈ sections cs, sec.WellFormed := by
  intro sec hsec
  unfold sections at hsec
  obtain ⟨part, hpart, rfl⟩ := List.mem_map.1 hsec
  obtain ⟨piece, hpiece, rfl⟩ := List.mem_map.1 (List.mem_filter.1 hpart).1
  exact Section.wellFormed_read fun hmem =>
    Text.of_mem_splitOn_mark hpiece (Text.mem_of_mem_trim hmem)

theorem condition_read (text : String) :
    (read text).condition = Condition.readChars (conditionText text.toList) :=
  condition_foldl _ _

theorem isSamples_read (text : String) :
    ∀ samples ∈ (read text).sampleTexts, IsSamples samples :=
  isSamples_foldl (fun _ hsamples => absurd hsamples List.not_mem_nil)
    (wellFormed_sections text.toList)

theorem wellFormed_read {text : String} (h : (read text).condition.Unbroken) :
    (read text).WellFormed := by
  rw [condition_read] at h
  refine ⟨?_, isSamples_read text⟩
  rw [condition_read]
  exact Condition.wellFormed_readChars h

/-- A well-formed rule is read back from its text, and a rule that is read without a broken clause
is well-formed, so its own text reads as the same rule. -/
theorem round_trip :
    (∀ rule : Rule, rule.WellFormed → read rule.render = rule) ∧
      ∀ text : String, (read text).condition.Unbroken →
        (read text).WellFormed ∧ read (read text).render = read text := by
  refine ⟨fun rule h => read_render h, fun text h => ?_⟩
  have hwell : (read text).WellFormed := wellFormed_read h
  exact ⟨hwell, read_render hwell⟩

/-- `i % 10 = 1 and v = 0,2..4 @integer 1` -/
def specimen : Rule where
  condition := .anyOf [⟨[.relation ⟨'i', some 10, .equals, [.value 1]⟩,
    .relation ⟨'v', none, .equals, [.value 0, .range 2 4]⟩]⟩]
  integerSamples := some "1"
  decimalSamples := none

theorem wellFormed_specimen : specimen.WellFormed := by
  refine ⟨⟨List.cons_ne_nil _ _, ?_⟩, ?_⟩
  · intro g hg
    obtain rfl := List.mem_singleton.1 hg
    refine ⟨List.cons_ne_nil _ _, fun clause hclause => ?_⟩
    simp only [List.mem_cons, List.not_mem_nil, or_false] at hclause
    rcases hclause with rfl | rfl
    · exact ⟨by decide, by simp [maxWord], List.cons_ne_nil _ _, by simp [Item.WellFormed, maxWord]⟩
    · exact ⟨by decide, by simp, List.cons_ne_nil _ _, by simp [Item.WellFormed, maxWord]⟩
  · intro samples hsamples
    obtain rfl : samples = "1" := by simpa [specimen, sampleTexts] using hsamples
    exact ⟨by decide, by decide⟩

/-- The same rule, written with other blanks, other signs, and a section that is replaced. -/
theorem round_trip_specimen :
    read specimen.render = specimen ∧
      (read "  i mod 10=1 and v = 00 ,2..4@integer 7 @ integer 1").WellFormed := by
  have hread : read specimen.render = specimen := round_trip.1 specimen wellFormed_specimen
  have hother : read "  i mod 10=1 and v = 00 ,2..4@integer 7 @ integer 1" = specimen := by
    decide +kernel
  have hunbroken : specimen.condition.Unbroken :=
    Condition.unbroken_of_wellFormed wellFormed_specimen.condition
  exact ⟨hread, (round_trip.2 _ (hother ▸ hunbroken)).1⟩

end Rule

end PluralForms
