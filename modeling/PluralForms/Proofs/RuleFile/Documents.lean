import PluralForms.Proofs.Json.Recognition
import PluralForms.RuleFile

/-!
# Rule files as documents

What a document is as a rule file, apart from how it is read:

    document = {"supplemental": sections, …} | [sections]
    sections = {"plurals-type-cardinal": section, "plurals-type-ordinal": section, …}
             | [section, section]
    section  = null | {language: {label: text, …}, …}

The members of an object may stand in any order, and those that are not named here may be anything
else; of those that are named `supplemental` has to be there, and none may stand twice. The reader
takes the texts of these documents and no others:

    read_of_writes : document.Writes text → (read text).toOption = documentOf document
    read_eq_ok_iff : read text = .ok file ↔
      ∃ document, document.Writes text ∧ documentOf document = some file
-/

namespace PluralForms

open Json

/-! ### Members -/

namespace Json

/-- The members of an object with their keys as texts. -/
def keyed : List (List Letter × Value) → Option (List (String × Value))
  | [] => some []
  | (letters, value) :: members =>
    (textOf letters).bind fun key => (keyed members).map ((key, value) :: ·)

def Value.members? : Value → Option (List (String × Value))
  | .object members => keyed members
  | _ => none

/-- The members with a value of one kind each. -/
def valued {α : Type} (meaning : Value → Option α) :
    List (String × Value) → Option (List (String × α))
  | [] => some []
  | (key, value) :: members =>
    (meaning value).bind fun found => (valued meaning members).map ((key, found) :: ·)

/-- The values under a key. -/
def named (name : String) (members : List (String × Value)) : List Value :=
  (members.filter (·.1 = name)).map (·.2)

/-- What is made of a value that may be missing and may not stand twice. -/
def single {α : Type} (meaning : Value → Option α) : List Value → Option (Option α)
  | [] => some none
  | [value] => (meaning value).map some
  | _ => none

end Json

namespace RuleFile

/-! ### Rule files -/

/-- The members of an object of which every member has a value of one kind. -/
def membersOf {α : Type} (meaning : Value → Option α) (v : Value) : Option (List (String × α)) :=
  v.members?.bind (valued meaning)

/-- A section, if there is one in place of `null`. -/
def sectionOf : Value → Option (Option LabelledRules) :=
  Value.nullable? (membersOf (membersOf Value.text?))

/-- Both sections. -/
def sectionsOf : Value → Option RuleFile
  | .array [cardinal, ordinal] =>
    (sectionOf cardinal).bind fun cardinal =>
      (sectionOf ordinal).map fun ordinal => ⟨cardinal, ordinal⟩
  | v =>
    v.members?.bind fun members =>
      (single sectionOf (named PluralType.cardinal.sectionName members)).bind fun cardinal =>
        (single sectionOf (named PluralType.ordinal.sectionName members)).map fun ordinal =>
          ⟨cardinal.join, ordinal.join⟩

/-- The rule file that a document is. -/
def documentOf : Value → Option RuleFile
  | .array [sections] => sectionsOf sections
  | v => v.members?.bind fun members => (single sectionsOf (named memberName members)).join

/-! ### Members of one kind -/

variable {α : Type} {meaning : Value → Option α}

theorem foldMembers?_push (found : List (String × α)) (members : List (List Letter × Value)) :
    foldMembers? (fun _ _ => true)
        (fun found key value => (meaning value).map fun a => found ++ [(key, a)]) found members =
      ((keyed members).bind (valued meaning)).map (found ++ ·) := by
  induction members generalizing found with
  | nil => simp [foldMembers?, keyed, valued]
  | cons member members ih =>
    obtain ⟨letters, value⟩ := member
    simp only [foldMembers?, keyed, ih]
    cases textOf letters with
    | none => rfl
    | some key =>
      cases hvalue : meaning value with
      | none => cases keyed members <;> simp [valued, hvalue]
      | some a =>
        cases keyed members with
        | none => simp
        | some members => cases hvalued : valued meaning members <;> simp [valued, hvalue, hvalued]

theorem implements_readMembers {read : (cs : List Char) → Reading α cs}
    (h : Implements read meaning) : Implements (readMembers read) (membersOf meaning) := by
  intro v tokens cs hlays hstops
  have hmeaning : membersOf meaning v = Value.object? (fun _ _ => true)
      (fun found key value => (meaning value).map fun a => found ++ [(key, a)]) [] v := by
    cases v with
    | object members => simp [membersOf, Value.members?, Value.object?, foldMembers?_push]
    | _ => rfl
  rw [hmeaning]
  refine Implements.readObject ?_ [] hlays hstops
  intro found key v tokens cs hlays hstops
  exact (h hlays hstops).map fun t => ⟨rfl, rfl⟩

theorem implements_readSection : Implements readSection sectionOf :=
  Implements.readNullable (implements_readMembers (implements_readMembers implements_readText))

/-! ### Members that are looked for -/

/-- What is made of the values under a key when one of them may have been met before. -/
def gather (meaning : Value → Option α) : Option α → List Value → Option (Option α)
  | found, [] => some found
  | none, value :: values => (meaning value).bind fun a => gather meaning (some a) values
  | some _, _ :: _ => none

theorem gather_none (values : List Value) : gather meaning none values = single meaning values := by
  match values with
  | [] => rfl
  | [value] =>
    show ((meaning value).bind fun a => some (some a)) = (meaning value).map some
    cases meaning value <;> rfl
  | value :: value' :: values =>
    show ((meaning value).bind fun _ => none) = none
    cases meaning value <;> rfl

theorem named_cons_self (name : String) (value : Value) (members : List (String × Value)) :
    named name ((name, value) :: members) = value :: named name members := by
  simp [named]

theorem named_cons_ne {name key : String} (h : key ≠ name) (value : Value)
    (members : List (String × Value)) :
    named name ((key, value) :: members) = named name members := by
  simp [named, h]

/-- What `stepDocument` means. -/
def documentStep (found : Option RuleFile) (key : String) (value : Value) :
    Option (Option RuleFile) :=
  if key = memberName then (sectionsOf value).map some else some found

theorem foldMembers?_document (found : Option RuleFile)
    (members : List (List Letter × Value)) :
    foldMembers? (fun found key => !(key = memberName && found.isSome)) documentStep found
        members =
      (keyed members).bind fun members => gather sectionsOf found (named memberName members) := by
  induction members generalizing found with
  | nil => rfl
  | cons member members ih =>
    obtain ⟨letters, value⟩ := member
    simp only [foldMembers?, keyed, ih]
    cases textOf letters with
    | none => rfl
    | some key =>
      rcases eq_or_ne key memberName with rfl | hkey
      · cases found with
        | some file => cases keyed members <;> simp [named_cons_self, gather]
        | none =>
          cases hvalue : sectionsOf value <;> cases keyed members <;>
            simp [named_cons_self, gather, documentStep, hvalue]
      · cases keyed members <;> simp [named_cons_ne hkey, documentStep, hkey]

/-- What `Sections.step` means. -/
def sectionsStep (s : Sections) (key : String) (value : Value) : Option Sections :=
  if key = PluralType.cardinal.sectionName then
    (sectionOf value).map fun found => { s with cardinal := some found }
  else if key = PluralType.ordinal.sectionName then
    (sectionOf value).map fun found => { s with ordinal := some found }
  else some s

theorem foldMembers?_sections (s : Sections) (members : List (List Letter × Value)) :
    foldMembers? Sections.admits sectionsStep s members =
      (keyed members).bind fun members =>
        (gather sectionOf s.cardinal
          (named PluralType.cardinal.sectionName members)).bind fun cardinal =>
            (gather sectionOf s.ordinal
              (named PluralType.ordinal.sectionName members)).map fun ordinal =>
                ⟨cardinal, ordinal⟩ := by
  have hne : PluralType.cardinal.sectionName ≠ PluralType.ordinal.sectionName := by decide
  induction members generalizing s with
  | nil => rfl
  | cons member members ih =>
    obtain ⟨letters, value⟩ := member
    obtain ⟨cardinal, ordinal⟩ := s
    simp only [foldMembers?, keyed, ih]
    cases textOf letters with
    | none => rfl
    | some key =>
      rcases eq_or_ne key PluralType.cardinal.sectionName with rfl | hcardinal
      · cases cardinal with
        | some found =>
          cases keyed members <;> simp [Sections.admits, named_cons_self, gather]
        | none =>
          cases hvalue : sectionOf value <;> cases keyed members <;>
            simp [Sections.admits, named_cons_self, named_cons_ne hne, gather, sectionsStep,
              hvalue]
      · rcases eq_or_ne key PluralType.ordinal.sectionName with rfl | hordinal
        · cases ordinal with
          | some found =>
            cases keyed members <;>
              simp [Sections.admits, named_cons_self, named_cons_ne hcardinal, gather, hcardinal]
          | none =>
            cases hvalue : sectionOf value <;> cases keyed members <;>
              simp [Sections.admits, named_cons_self, named_cons_ne hcardinal, gather,
                sectionsStep, hvalue, hcardinal]
        · cases keyed members <;>
            simp [Sections.admits, named_cons_ne hcardinal, named_cons_ne hordinal, sectionsStep,
              hcardinal, hordinal]

/-! ### The readers -/

theorem implements_sectionsStep (s : Sections) (key : String) :
    Implements (s.step key) (sectionsStep s key) := by
  intro v tokens cs hlays hstops
  unfold Sections.step sectionsStep
  split
  · exact (implements_readSection hlays hstops).map fun t => ⟨rfl, rfl⟩
  · split
    · exact (implements_readSection hlays hstops).map fun t => ⟨rfl, rfl⟩
    · exact (implements_skipValue hlays hstops).map (g := fun _ => s) fun t => ⟨rfl, rfl⟩

variable {tokens : List (List Char)} {cs : List Char}

theorem exists_bracket_of_lays {items : List Value}
    (h : Lays ((Value.array items).tokens ++ tokens) cs) : ∃ rest, skipSpace cs = '[' :: rest := by
  cases items with
  | nil =>
    obtain ⟨rest, hspace, -⟩ := skipSpace_of_lays_mark h (by decide)
    exact ⟨rest, hspace⟩
  | cons item items =>
    obtain ⟨rest, hspace, -⟩ := skipSpace_of_lays_mark h (by decide)
    exact ⟨rest, hspace⟩

/-- Two sections in an array, no fewer and no more. -/
theorem agrees_readSectionArray {items : List Value} {rest : List Char}
    (h : Lays ((Value.array items).tokens ++ tokens) cs) (hspace : skipSpace cs = '[' :: rest) :
    Agrees (readSectionArray rest) (sectionsOf (.array items)) tokens := by
  unfold readSectionArray
  match items with
  | [] =>
    obtain ⟨rest', hbracket, hrest⟩ := skipSpace_of_lays_mark h (by decide)
    obtain ⟨-, rfl⟩ := List.cons.inj (hspace.symm.trans hbracket)
    exact (agrees_readItem_end true hrest).fault _
  | cardinal :: items =>
    obtain ⟨rest', hbracket, hrest⟩ := skipSpace_of_lays_mark h (by decide)
    obtain ⟨-, rfl⟩ := List.cons.inj (hspace.symm.trans hbracket)
    have hcardinal : Lays (cardinal.tokens ++ (Value.itemTokens items ++ tokens)) rest := by
      rw [← List.append_assoc]
      exact hrest
    have hfirst := implements_readSection.readItem_first hcardinal (stops_itemTokens items tokens)
    match items with
    | [] =>
      have hmeaning : sectionsOf (.array [cardinal]) = (sectionOf cardinal).bind fun _ => none := by
        cases sectionOf cardinal <;> rfl
      rw [hmeaning]
      exact hfirst.bind fun t ht => (agrees_readItem_end false ht).fault _
    | ordinal :: items =>
      have hsecond : ∀ {cs}, Lays (Value.itemTokens (ordinal :: items) ++ tokens) cs →
          Agrees (readItem false readSection cs) (sectionOf ordinal)
            (Value.itemTokens items ++ tokens) := by
        intro cs hlays
        apply implements_readSection.readItem_next _ (stops_itemTokens items tokens)
        rw [← List.append_assoc]
        exact hlays
      match items with
      | [] =>
        have hmeaning : sectionsOf (.array [cardinal, ordinal]) =
            (sectionOf cardinal).bind fun cardinal =>
              (sectionOf ordinal).bind fun ordinal => some ⟨cardinal, ordinal⟩ := by
          simp only [sectionsOf, Option.map_eq_bind, Function.comp_def]
        rw [hmeaning]
        exact hfirst.bind fun t ht => (hsecond ht).bind fun t' ht' =>
          (agrees_closeArray ht').past fun t'' ht'' => ⟨t''.rest, rfl, ht''⟩
      | item :: items =>
        have hmeaning : sectionsOf (.array (cardinal :: ordinal :: item :: items)) =
            (sectionOf cardinal).bind fun _ => (sectionOf ordinal).bind fun _ => none := by
          cases sectionOf cardinal <;> cases sectionOf ordinal <;> rfl
        rw [hmeaning]
        exact hfirst.bind fun t ht => (hsecond ht).bind fun t' ht' =>
          (agrees_closeArray_more ht').fault _

theorem sectionsOf_of_not_array {v : Value} (h : ∀ items, v ≠ .array items) :
    sectionsOf v = (Value.object? Sections.admits sectionsStep ⟨none, none⟩ v).map
      Sections.file := by
  cases v with
  | array items => exact absurd rfl (h items)
  | object members =>
    simp only [sectionsOf, Value.members?, Value.object?, foldMembers?_sections, gather_none,
      Option.map_bind, Option.map_map, Function.comp_def, Sections.file]
  | _ => rfl

theorem implements_readSections : Implements readSections sectionsOf := by
  intro v tokens cs h hstops
  obtain ⟨c, more, hspace, hc⟩ := exists_opening h
  unfold readSections
  split
  · next heq =>
    obtain ⟨rfl, -⟩ := List.cons.inj (hspace.symm.trans heq)
    obtain ⟨items, rfl⟩ := hc.array rfl
    exact (agrees_readSectionArray h heq).longer fun t => ⟨rfl, rfl⟩
  · next hother =>
    have hnot : ∀ items, v ≠ .array items := by
      rintro items rfl
      obtain ⟨rest, hbracket⟩ := exists_bracket_of_lays h
      exact hother rest hbracket
    rw [sectionsOf_of_not_array hnot]
    exact (Implements.readObject implements_sectionsStep _ h hstops).map fun t => ⟨rfl, rfl⟩

theorem implements_documentStep (found : Option RuleFile) (key : String) :
    Implements (stepDocument found key) (documentStep found key) := by
  intro v tokens cs hlays hstops
  unfold stepDocument documentStep
  split
  · exact (implements_readSections hlays hstops).map fun t => ⟨rfl, rfl⟩
  · exact (implements_skipValue hlays hstops).map (g := fun _ => found) fun t => ⟨rfl, rfl⟩

theorem documentOf_of_not_array {v : Value} (h : ∀ items, v ≠ .array items) :
    documentOf v = (Value.object? (fun found key => !(key = memberName && found.isSome))
      documentStep none v).join := by
  cases v with
  | array items => exact absurd rfl (h items)
  | object members =>
    simp only [documentOf, Value.members?, Value.object?, foldMembers?_document, gather_none]
    cases keyed members <;> rfl
  | _ => rfl

theorem agrees_readDocumentObject {v : Value} (h : Lays (v.tokens ++ tokens) cs)
    (hstops : Stops tokens) :
    Agrees (readDocumentObject cs)
      (Value.object? (fun found key => !(key = memberName && found.isSome)) documentStep none
        v).join tokens := by
  have hobject : Agrees
      (readObject (fun found key => !(key = memberName && found.isSome)) stepDocument none cs) _
      tokens :=
    Implements.readObject implements_documentStep none h hstops
  unfold readDocumentObject
  rw [← Option.bind_id_eq_join]
  refine hobject.bind fun t ht => ?_
  obtain ⟨found, rest, shorter⟩ := t
  cases found with
  | none => rfl
  | some file => exact ⟨rest, rfl, ht⟩

theorem implements_readDocument : Implements readDocument documentOf := by
  intro v tokens cs h hstops
  obtain ⟨c, more, hspace, hc⟩ := exists_opening h
  unfold readDocument
  split
  · next heq =>
    obtain ⟨rfl, -⟩ := List.cons.inj (hspace.symm.trans heq)
    obtain ⟨items, rfl⟩ := hc.array rfl
    match items with
    | [] =>
      obtain ⟨rest', hbracket, hrest⟩ := skipSpace_of_lays_mark h (by decide)
      obtain ⟨-, rfl⟩ := List.cons.inj (heq.symm.trans hbracket)
      exact (agrees_readItem_end true hrest).fault _
    | sections :: items =>
      obtain ⟨rest', hbracket, hrest⟩ := skipSpace_of_lays_mark h (by decide)
      obtain ⟨-, rfl⟩ := List.cons.inj (heq.symm.trans hbracket)
      have hsections := implements_readSections.readItem_first
        (by rw [← List.append_assoc]; exact hrest) (stops_itemTokens items tokens)
      match items with
      | [] =>
        have hmeaning : documentOf (.array [sections]) = (sectionsOf sections).bind some := by
          show sectionsOf sections = _
          cases sectionsOf sections <;> rfl
        rw [hmeaning]
        exact hsections.bind fun t ht =>
          (agrees_closeArray ht).past fun t' ht' => ⟨t'.rest, rfl, ht'⟩
      | item :: items =>
        have hmeaning : documentOf (.array (sections :: item :: items)) =
            (sectionsOf sections).bind fun _ => none := by
          cases sectionsOf sections <;> rfl
        rw [hmeaning]
        exact hsections.bind fun t ht => (agrees_closeArray_more ht).fault _
  · next hother =>
    have hnot : ∀ items, v ≠ .array items := by
      rintro items rfl
      obtain ⟨rest, hbracket⟩ := exists_bracket_of_lays h
      exact hother rest hbracket
    rw [documentOf_of_not_array hnot]
    exact agrees_readDocumentObject h hstops

/-- The reader takes the documents that are rule files, and no others. -/
theorem read_of_writes {document : Value} {text : String} (h : document.Writes text) :
    (read text).toOption = documentOf document := by
  have hlays : Lays (document.tokens ++ []) text.toList := by
    rw [List.append_nil]
    exact h
  have hdocument := implements_readDocument hlays fun token htoken =>
    absurd htoken (Option.not_mem_none token)
  unfold read
  cases hfile : documentOf document with
  | none =>
    rw [hfile] at hdocument
    obtain ⟨fault, hread⟩ := outcome_eq_none hdocument
    rw [hread]
    rfl
  | some file =>
    rw [hfile] at hdocument
    obtain ⟨rest, hsome, hrest⟩ := hdocument
    obtain ⟨shorter, hread⟩ := outcome_eq_some hsome
    rw [hread]
    simp only [bind, Except.bind, skipSpace_of_lays_nil hrest]
    rfl

/-! ### Nothing else is read -/

theorem recognizes_readMembers {read : (cs : List Char) → Reading α cs} (h : Recognizes read) :
    Recognizes (readMembers read) :=
  Recognizes.readObject (fun found key => h.map fun value => found ++ [(key, value)]) []

theorem recognizes_readSection : Recognizes readSection :=
  Recognizes.readNullable (recognizes_readMembers (recognizes_readMembers recognizes_readText))

theorem recognizes_sectionsStep (s : Sections) (key : String) : Recognizes (s.step key) := by
  intro cs t h
  unfold Sections.step at h
  split at h
  · exact recognizes_readSection.map (fun found => { s with cardinal := some found }) h
  · split at h
    · exact recognizes_readSection.map (fun found => { s with ordinal := some found }) h
    · exact recognizes_skipValue.map (fun _ => s) h

theorem exists_sections {t : Taken RuleFile cs} (h : readSectionArray cs = .ok t) :
    ∃ cardinal ordinal : Value,
      Fronts (cardinal.tokens ++ Value.itemTokens [ordinal]) cs t.rest := by
  unfold readSectionArray at h
  obtain ⟨⟨cardinal, rest, h₁⟩, hcardinal, h⟩ := exists_of_bind h
  obtain ⟨⟨ordinal, rest', h₂⟩, hordinal, h⟩ := exists_of_bind h
  obtain ⟨⟨⟨⟩, rest'', h₃⟩, hclose, h⟩ := exists_of_bind h
  obtain ⟨cardinal, hcardinal⟩ := exists_item recognizes_readSection hcardinal
  obtain ⟨ordinal, hordinal⟩ := exists_item recognizes_readSection hordinal
  obtain rfl := Except.ok.inj h
  exact ⟨cardinal, ordinal, hcardinal.append (hordinal.append (fronts_closeArray hclose))⟩

theorem recognizes_readSections : Recognizes readSections := by
  intro cs t h
  unfold readSections at h
  split at h
  · next heq =>
    obtain ⟨taken, hsections, rfl⟩ := exists_of_map h
    obtain ⟨cardinal, ordinal, hfronts⟩ := exists_sections hsections
    exact ⟨.array [cardinal, ordinal], (fronts_mark heq).append hfronts⟩
  · have hobject : Recognizes (readObject Sections.admits Sections.step ⟨none, none⟩) :=
      Recognizes.readObject recognizes_sectionsStep _
    exact hobject.map Sections.file h

theorem recognizes_documentStep (found : Option RuleFile) (key : String) :
    Recognizes (stepDocument found key) := by
  intro cs t h
  unfold stepDocument at h
  split at h
  · exact recognizes_readSections.map some h
  · exact recognizes_skipValue.map (fun _ => found) h

theorem recognizes_readDocument : Recognizes readDocument := by
  intro cs t h
  unfold readDocument at h
  split at h
  · next heq =>
    obtain ⟨⟨file, rest, h₁⟩, hitem, h⟩ := exists_of_bind h
    obtain ⟨⟨⟨⟩, rest', h₂⟩, hclose, h⟩ := exists_of_bind h
    obtain ⟨sections, hsections⟩ := exists_item recognizes_readSections hitem
    obtain rfl := Except.ok.inj h
    refine ⟨.array [sections], ?_⟩
    exact (fronts_mark heq).append (hsections.append (fronts_closeArray hclose))
  · unfold readDocumentObject at h
    obtain ⟨⟨found, rest, h₁⟩, hobject, h⟩ := exists_of_bind h
    obtain ⟨document, hdocument⟩ := Recognizes.readObject recognizes_documentStep none hobject
    cases found with
    | none => cases h
    | some file =>
      obtain rfl := Except.ok.inj h
      exact ⟨document, hdocument⟩

/-- A text that is read is the text of a document. -/
theorem exists_writes {text : String} {file : RuleFile} (h : read text = .ok file) :
    ∃ document : Value, document.Writes text := by
  unfold read at h
  obtain ⟨t, hread, h⟩ := exists_of_bind h
  split at h
  · next hend =>
    obtain ⟨document, hdocument⟩ := recognizes_readDocument hread
    have hlays := hdocument [] (.nil (List.dropWhile_eq_nil_iff.1 hend))
    rw [List.append_nil] at hlays
    exact ⟨document, hlays⟩
  · cases h

/-- The texts that are read are those of the documents that are rule files. -/
theorem read_eq_ok_iff {text : String} {file : RuleFile} :
    read text = .ok file ↔
      ∃ document : Value, document.Writes text ∧ documentOf document = some file := by
  constructor
  · intro h
    obtain ⟨document, hwrites⟩ := exists_writes h
    refine ⟨document, hwrites, ?_⟩
    rw [← read_of_writes hwrites, h]
    rfl
  · rintro ⟨document, hwrites, hfile⟩
    rw [← read_of_writes hwrites] at hfile
    cases hread : read text with
    | error fault =>
      rw [hread] at hfile
      cases hfile
    | ok found =>
      rw [hread] at hfile
      exact congrArg Except.ok (Option.some.inj hfile)

end RuleFile

end PluralForms
