import PluralForms.Json.Walk
import PluralForms.PluralType

/-!
# Rule files

A rule file is a JSON document: an object whose member `supplemental` holds a section for each
plural type. A section maps languages to objects that map rule labels to rule texts.

    { "supplemental": { "plurals-type-cardinal": { "en": { "pluralRule-count-one": "i = 1" } } } }

Other members are passed over, and a section may be absent or `null`. The two outer objects may
also be written as arrays of their members in order. Both sections have to be of the right kind,
whichever is wanted.

* `RuleFile.read` - the sections of a text, as written, or the first fault of the text.
-/

namespace PluralForms

open Json

/-- A section as written: languages with their labelled rules, repetitions included. -/
abbrev LabelledRules : Type := List (String × List (String × String))

/-- The sections of a rule file. -/
structure RuleFile where
  cardinal : Option LabelledRules
  ordinal : Option LabelledRules

namespace RuleFile

/-- The section of a plural type. -/
def labelledRules (file : RuleFile) : PluralType → Option LabelledRules
  | .cardinal => file.cardinal
  | .ordinal => file.ordinal

/-! ### Sections -/

/-- An object of which every member has a value of one kind, as a list of its members. -/
def readMembers {α : Type} (read : (cs : List Char) → Reading α cs) (cs : List Char) :
    Reading (List (String × α)) cs :=
  readObject (fun _ _ => true)
    (fun members key cs => (read cs).map fun t => t.map fun value => members ++ [(key, value)])
    [] cs

/-- A section, or `null`. -/
def readSection (cs : List Char) : Reading (Option LabelledRules) cs :=
  readNullable (readMembers (readMembers readText)) cs

/-- The sections met so far; a section that was met may have been `null`. -/
structure Sections where
  cardinal : Option (Option LabelledRules)
  ordinal : Option (Option LabelledRules)

/-- No section may stand twice. -/
def Sections.admits (s : Sections) (key : String) : Bool :=
  if key = PluralType.cardinal.sectionName then s.cardinal.isNone
  else if key = PluralType.ordinal.sectionName then s.ordinal.isNone
  else true

/-- Take in the member with this key. -/
def Sections.step (s : Sections) (key : String) (cs : List Char) : Reading Sections cs :=
  if key = PluralType.cardinal.sectionName then
    (readSection cs).map fun t => t.map fun found => { s with cardinal := some found }
  else if key = PluralType.ordinal.sectionName then
    (readSection cs).map fun t => t.map fun found => { s with ordinal := some found }
  else (skipValue cs).map fun t => t.map fun _ => s

/-- Sections that were not met are absent. -/
def Sections.file (s : Sections) : RuleFile := ⟨s.cardinal.join, s.ordinal.join⟩

/-- The sections in an array: the cardinal one, then the ordinal one. -/
def readSectionArray (cs : List Char) : Reading RuleFile cs := do
  let ⟨cardinal, rest, h₁⟩ ← readItem true readSection cs
  let ⟨ordinal, rest, h₂⟩ ← readItem false readSection rest
  let ⟨_, rest, h₃⟩ ← closeArray rest
  return ⟨⟨cardinal, ordinal⟩, rest, by omega⟩

/-- The sections in an object or in an array. -/
def readSections (cs : List Char) : Reading RuleFile cs :=
  match h : skipSpace cs with
  | '[' :: rest => (readSectionArray rest).map fun t =>
      t.widen (Nat.le_of_lt (length_lt_of_skipSpace h))
  | _ => (readObject Sections.admits Sections.step ⟨none, none⟩ cs).map fun t =>
      t.map Sections.file

/-! ### Documents -/

/-- The member of a document that holds the sections. -/
def memberName : String := "supplemental"

/-- Take in the member of a document with this key. -/
def stepDocument (found : Option RuleFile) (key : String) (cs : List Char) :
    Reading (Option RuleFile) cs :=
  if key = memberName then (readSections cs).map fun t => t.map some
  else (skipValue cs).map fun t => t.map fun _ => found

/-- A document written as an object; the sections have to be there, once. -/
def readDocumentObject (cs : List Char) : Reading RuleFile cs := do
  let ⟨found, rest, h⟩ ←
    readObject (fun found key => !(key = memberName && found.isSome)) stepDocument none cs
  match found with
  | some file => return ⟨file, rest, h⟩
  | none => .error .wrongShape

/-- A document. -/
def readDocument (cs : List Char) : Reading RuleFile cs :=
  match h : skipSpace cs with
  | '[' :: rest => do
    let ⟨file, rest', h₁⟩ ← readItem true readSections rest
    let ⟨_, rest', h₂⟩ ← closeArray rest'
    return ⟨file, rest', by have := length_lt_of_skipSpace h; omega⟩
  | _ => readDocumentObject cs

/-- The sections of a text that holds one document. -/
def read (text : String) : Except Json.Fault RuleFile := do
  let t ← readDocument text.toList
  match skipSpace t.rest with
  | [] => return t.value
  | _ => .error .notJson

end RuleFile

end PluralForms
