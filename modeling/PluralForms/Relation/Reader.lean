import PluralForms.Relation.Basic
import PluralForms.Text.Offset

/-!
# Reading a clause

A clause is the text of one relation:

    operand [("%" | "mod") number] ("=" | "!=") item ("," item)*        item = number [".." number]

with spaces and tabs between the parts. Reading stops at the first part that does not fit; what is
optional and does not fit - a modulus, the end of a range, a further item - counts as not written,
and the text is then read on from where that part would begin.

* `Relation.read` - the relation of a clause, or why it has none. A clause that has the right form
  may still be refused: a modulus must not be zero, and a range must not descend.
-/

namespace PluralForms

/-- What stands in the way of reading a clause. -/
inductive Fault
  /-- No letter where the operand should be. -/
  | operand
  /-- No `=` or `!=` where one should be. -/
  | operator
  /-- No number where the list should begin. -/
  | values
  /-- The list begins with a number past the greatest one. -/
  | valueTooLarge
  /-- No part is named, and this character follows. -/
  | unexpected (c : Char)
  /-- No part is named, and nothing follows. -/
  | endOfClause
  deriving DecidableEq, Repr

/-- The fault that names no part, told by the text that is left. -/
def Fault.ofRest : List Char → Fault
  | c :: _ => .unexpected c
  | [] => .endOfClause

def Fault.message : Fault → String
  | .operand => "invalid operand; expected one of n, i, v, w, f, t, c, e"
  | .operator => "invalid operator; expected `=`, `!=`"
  | .values => "invalid value list; expected integers or ranges like 2..4"
  | .valueTooLarge =>
    "invalid value list; expected integers or ranges like 2..4; number too large to fit in "
      ++ "target type"
  | .unexpected c => "unexpected character '" ++ String.singleton c ++ "'"
  | .endOfClause => "unexpected end of clause"

/-- Why a clause has no relation. -/
inductive ClauseError
  /-- The form is wrong; columns are counted in bytes, from 1. -/
  | malformed (column : Nat) (fault : Fault)
  | zeroModulus
  /-- The first range that ends below its start. -/
  | emptyRange (first last : Nat)
  deriving DecidableEq, Repr

def ClauseError.message : ClauseError → String
  | .malformed column fault =>
    "syntax error at column " ++ toString column ++ ": " ++ fault.message
  | .zeroModulus => "modulus must be a positive integer"
  | .emptyRange first last =>
    "range " ++ toString first ++ ".." ++ toString last ++ " is empty"

namespace Relation

/-- Drop spaces and tabs. -/
def skipBlanks (cs : List Char) : List Char := cs.dropWhile Text.isInnerBlank

/-- A number and what follows it. -/
def readNumber (cs : List Char) : Option (Nat × List Char) :=
  (Numeral.digits1 cs).bind fun (digits, rest) =>
    if digitsValue digits ≤ maxWord then some (digitsValue digits, rest) else none

/-- The end of a range: two points and a number. -/
def readRangeEnd : List Char → Option (Nat × List Char)
  | '.' :: '.' :: cs => readNumber cs
  | _ => none

/-- An item and what follows it. -/
def readItem (cs : List Char) : Option (Item × List Char) :=
  (readNumber cs).map fun (first, rest) =>
    match readRangeEnd rest with
    | some (last, rest) => (.range first last, rest)
    | none => (.value first, rest)

/-- A comma between blanks, an item, and what follows it. -/
def readNextItem (cs : List Char) : Option (Item × List Char) :=
  match skipBlanks cs with
  | ',' :: cs => readItem (skipBlanks cs)
  | _ => none

/-! ### Reading consumes -/

theorem length_le_of_digits1 {cs digits rest : List Char}
    (h : Numeral.digits1 cs = some (digits, rest)) : rest.length ≤ cs.length := by
  unfold Numeral.digits1 at h
  split at h
  · simp at h
  · simp only [Option.some.injEq, Prod.mk.injEq] at h
    exact h.2 ▸ Text.length_dropWhile_le _ _

theorem length_le_of_readNumber {cs : List Char} {n : Nat} {rest : List Char}
    (h : readNumber cs = some (n, rest)) : rest.length ≤ cs.length := by
  unfold readNumber at h
  obtain ⟨⟨digits, rest'⟩, hd, h⟩ := Option.bind_eq_some_iff.1 h
  dsimp only at h
  split at h
  · simp only [Option.some.injEq, Prod.mk.injEq] at h
    exact h.2 ▸ length_le_of_digits1 hd
  · simp at h

theorem length_le_of_readRangeEnd {cs : List Char} {n : Nat} {rest : List Char}
    (h : readRangeEnd cs = some (n, rest)) : rest.length ≤ cs.length := by
  unfold readRangeEnd at h
  split at h
  · have := length_le_of_readNumber h
    simp only [List.length_cons]
    omega
  · simp at h

theorem length_le_of_readItem {cs : List Char} {item : Item} {rest : List Char}
    (h : readItem cs = some (item, rest)) : rest.length ≤ cs.length := by
  unfold readItem at h
  obtain ⟨⟨first, rest'⟩, hn, h⟩ := Option.map_eq_some_iff.1 h
  have hle := length_le_of_readNumber hn
  dsimp only at h
  split at h
  · next hr =>
    simp only [Prod.mk.injEq] at h
    have := length_le_of_readRangeEnd hr
    rw [← h.2]
    omega
  · simp only [Prod.mk.injEq] at h
    rw [← h.2]
    exact hle

theorem length_lt_of_readNextItem {cs : List Char} {item : Item} {rest : List Char}
    (h : readNextItem cs = some (item, rest)) : rest.length < cs.length := by
  unfold readNextItem at h
  split at h
  · next cs' hs =>
    have h₁ := length_le_of_readItem h
    have h₂ := Text.length_dropWhile_le Text.isInnerBlank cs'
    have h₃ := Text.length_dropWhile_le Text.isInnerBlank cs
    unfold skipBlanks at hs h₁
    rw [hs, List.length_cons] at h₃
    omega
  · simp at h

/-! ### The parts of a clause -/

/-- As many further items as there are, and what follows them. -/
def readItems (cs : List Char) : List Item × List Char :=
  match _h : readNextItem cs with
  | none => ([], cs)
  | some (item, rest) =>
    let (items, rest) := readItems rest
    (item :: items, rest)
termination_by cs.length
decreasing_by exact length_lt_of_readNextItem _h

/-- The word or sign before a modulus, and what follows it. -/
def readModulusSign : List Char → Option (List Char)
  | '%' :: cs => some cs
  | 'm' :: 'o' :: 'd' :: cs => some cs
  | _ => none

/-- A modulus and the blanks behind it, if one is written. -/
def readModulus (cs : List Char) : Option Nat × List Char :=
  match (readModulusSign cs).bind fun cs => readNumber (skipBlanks cs) with
  | some (m, rest) => (some m, skipBlanks rest)
  | none => (none, cs)

/-- An operator and what follows it. -/
def readComparison : List Char → Option (Comparison × List Char)
  | '!' :: '=' :: cs => some (.notEquals, cs)
  | '=' :: cs => some (.equals, cs)
  | _ => none

/-- The list of items, of which there is at least one. -/
def readList (cs : List Char) : Except (Fault × List Char) (List Item × List Char) :=
  match readItem cs with
  | some (item, rest) =>
    let (items, rest) := readItems rest
    .ok (item :: items, rest)
  | none => .error (if (Numeral.digits1 cs).isSome then .valueTooLarge else .values, cs)

/-- What follows the operand. -/
def readTail (symbol : Char) (cs : List Char) : Except (Fault × List Char) Relation :=
  let (modulus, rest) := readModulus cs
  match readComparison rest with
  | none => .error (.operator, rest)
  | some (comparison, rest) =>
    match readList (skipBlanks rest) with
    | .error e => .error e
    | .ok (items, rest) =>
      if rest = [] then .ok ⟨symbol, modulus, comparison, items⟩ else .error (.ofRest rest, rest)

/-- The relation that makes up the whole of `cs`; or the fault, and the text that is left from the
fault on. -/
def readForm : List Char → Except (Fault × List Char) Relation
  | [] => .error (.operand, [])
  | c :: cs => if c.isLower then readTail c (skipBlanks cs) else .error (.operand, c :: cs)

/-! ### Clauses -/

/-- The first range that ends below its start. -/
def descending? (items : List Item) : Option (Nat × Nat) :=
  items.findSome? fun
    | .value _ => none
    | .range first last => if last < first then some (first, last) else none

/-- Refuse a relation that could never be meant. -/
def validate (r : Relation) : Except ClauseError Relation :=
  if r.modulus = some 0 then .error .zeroModulus
  else match descending? r.items with
    | some (first, last) => .error (.emptyRange first last)
    | none => .ok r

/-- The relation of a clause, blanks around it ignored. -/
def readChars (cs : List Char) : Except ClauseError Relation :=
  let clause := Text.trim cs
  match readForm clause with
  | .error (fault, rest) =>
    let before := Text.byteLength (Text.leadingBlanks cs)
    .error (.malformed (before + (Text.byteLength clause - Text.byteLength rest) + 1) fault)
  | .ok r => validate r

/-- The relation of a clause, blanks around it ignored. -/
def read (clause : String) : Except ClauseError Relation := readChars clause.toList

end Relation

end PluralForms
