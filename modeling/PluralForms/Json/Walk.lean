import PluralForms.Json.Reader

/-!
# Walking through JSON values

Readers of whole values. A reader that wants a value of one kind walks into it, and passes over the
parts that it has no use for.

* `skipValue` - a value that nobody wants: it has to be JSON, of any depth;
* `Fault.ofValue` - the fault of a value that is of another kind than the wanted one;
* `readObject` - an object, member by member, in the order of the text;
* `readNullable` - a value that may be absent as `null`.
-/

namespace PluralForms.Json

/-- The rest of a text of which nothing need have been read. -/
abbrev Rest (cs : List Char) : Type := { rest : List Char // rest.length ≤ cs.length }

/-- A reader's result on `cs`. -/
abbrev Reading (α : Type) (cs : List Char) : Type := Except Fault (Taken α cs)

/-! ### Passing over values -/

/-- An array or an object that has been entered. -/
inductive Bracket
  | array
  | object
  deriving DecidableEq, Repr

/-- Pass over a value that is neither an array nor an object. -/
def skipScalar : (cs : List Char) → Reading Unit cs
  | [] => .error .endedEarly
  | '"' :: cs => (skipString cs).map fun t => t.behind _
  | 'n' :: cs => (readWord "ull".toList cs).map fun r => ⟨(), r.1, Nat.lt_succ_of_le r.2⟩
  | 't' :: cs => (readWord "rue".toList cs).map fun r => ⟨(), r.1, Nat.lt_succ_of_le r.2⟩
  | 'f' :: cs => (readWord "alse".toList cs).map fun r => ⟨(), r.1, Nat.lt_succ_of_le r.2⟩
  | '-' :: cs => (readNumber .notJson cs).map fun t => (t.map fun _ => ()).behind _
  | c :: cs => (readNumber .notJson (c :: cs)).map fun t => t.map fun _ => ()

/-- The colon behind a key. -/
def readColon (cs : List Char) : Reading Unit cs :=
  match h : skipSpace cs with
  | [] => .error .endedEarly
  | ':' :: rest => .ok ⟨(), rest, length_lt_of_skipSpace h⟩
  | _ => .error .notJson

/-- Pass over a key and its colon. -/
def skipKey (cs : List Char) : Reading Unit cs :=
  match h : skipSpace cs with
  | [] => .error .endedEarly
  | '"' :: rest => do
    let ⟨_, rest', h₁⟩ ← skipString rest
    let t ← readColon rest'
    return t.widen (by have := length_lt_of_skipSpace h; omega)
  | _ => .error .notJson

mutual

/-- Pass over a value and over what closes the brackets that it stands in. -/
def skipInside (outer : List Bracket) (cs : List Char) : Reading Unit cs :=
  match h : skipSpace cs with
  | [] => .error .endedEarly
  | '[' :: rest =>
    have h₁ := length_lt_of_skipSpace h
    match h' : skipSpace rest with
    | [] => .error .endedEarly
    | ']' :: rest' =>
      have h₂ := length_lt_of_skipSpace h'
      (skipClosing outer rest').map fun r => ⟨(), r.1, by have := r.2; omega⟩
    | _ => (skipInside (.array :: outer) rest).map fun t => t.widen (by omega)
  | '\x7b' :: rest =>
    have h₁ := length_lt_of_skipSpace h
    match h' : skipSpace rest with
    | [] => .error .endedEarly
    | '\x7d' :: rest' =>
      have h₂ := length_lt_of_skipSpace h'
      (skipClosing outer rest').map fun r => ⟨(), r.1, by have := r.2; omega⟩
    | _ => do
      let ⟨_, rest', h₂⟩ ← skipKey rest
      let t ← skipInside (.object :: outer) rest'
      return t.widen (by omega)
  | c :: rest => do
    have h₁ := length_lt_of_skipSpace h
    let ⟨_, rest', h₂⟩ ← skipScalar (c :: rest)
    have h₃ : rest'.length < cs.length := by
      have := length_skipSpace_le cs
      rw [h] at this
      omega
    let r ← skipClosing outer rest'
    return ⟨(), r.1, by have := r.2; omega⟩
termination_by cs.length

/-- Pass over what follows a value up to the end of the brackets that it stands in. -/
def skipClosing (outer : List Bracket) (cs : List Char) : Except Fault (Rest cs) :=
  match outer with
  | [] => .ok ⟨cs, Nat.le_refl _⟩
  | .array :: outer =>
    match h : skipSpace cs with
    | [] => .error .endedEarly
    | ',' :: rest =>
      have h₁ := length_lt_of_skipSpace h
      (skipInside (.array :: outer) rest).map fun t => ⟨t.rest, by have := t.shorter; omega⟩
    | ']' :: rest =>
      have h₁ := length_lt_of_skipSpace h
      (skipClosing outer rest).map fun r => ⟨r.1, by have := r.2; omega⟩
    | _ => .error .notJson
  | .object :: outer =>
    match h : skipSpace cs with
    | [] => .error .endedEarly
    | ',' :: rest => do
      have h₁ := length_lt_of_skipSpace h
      let ⟨_, rest', h₂⟩ ← skipKey rest
      let t ← skipInside (.object :: outer) rest'
      return ⟨t.rest, by have := t.shorter; omega⟩
    | '\x7d' :: rest =>
      have h₁ := length_lt_of_skipSpace h
      (skipClosing outer rest).map fun r => ⟨r.1, by have := r.2; omega⟩
    | _ => .error .notJson
termination_by cs.length

end

/-- Pass over a value. -/
def skipValue (cs : List Char) : Reading Unit cs := skipInside [] cs

/-! ### Unwanted kinds -/

/-- The fault of a number where none is wanted. Past the range of double precision it is no JSON
number at all. -/
def Fault.ofNumber (cs : List Char) : Fault :=
  match readNumber .endedEarly cs with
  | .error fault => fault
  | .ok t => if t.value.isTooLarge then .notJson else .wrongShape

/-- The fault of a word where none is wanted. -/
def Fault.ofWord (word cs : List Char) : Fault :=
  match readWord word cs with
  | .error fault => fault
  | .ok _ => .wrongShape

/-- The fault of the value that `cs` begins with, if its kind is not the wanted one. A scalar is
read to its end first. -/
def Fault.ofValue : List Char → Fault
  | [] => .endedEarly
  | '"' :: cs => match readString cs with
    | .error fault => fault
    | .ok _ => .wrongShape
  | 'n' :: cs => .ofWord "ull".toList cs
  | 't' :: cs => .ofWord "rue".toList cs
  | 'f' :: cs => .ofWord "alse".toList cs
  | '-' :: cs => .ofNumber cs
  | c :: cs =>
    if c = '[' ∨ c = '\x7b' then .wrongShape
    else if c.isDigit then .ofNumber (c :: cs)
    else .notJson

/-! ### Wanted kinds -/

/-- A string. -/
def readText (cs : List Char) : Reading String cs :=
  match h : skipSpace cs with
  | '"' :: rest => (readString rest).map fun t =>
      (t.map String.ofList).widen (Nat.le_of_lt (length_lt_of_skipSpace h))
  | value => .error (.ofValue value)

/-- The next key of an object, or nothing at its end. -/
def readKey (first : Bool) (cs : List Char) : Reading (Option String) cs :=
  match h : skipSpace cs with
  | [] => .error .endedEarly
  | '\x7d' :: rest => .ok ⟨none, rest, length_lt_of_skipSpace h⟩
  | '"' :: rest =>
    if first then (readString rest).map fun t =>
      (t.map fun key => some (String.ofList key)).widen (Nat.le_of_lt (length_lt_of_skipSpace h))
    else .error .notJson
  | ',' :: rest =>
    if first then .error .notJson
    else match h' : skipSpace rest with
      | [] => .error .endedEarly
      | '"' :: rest' => (readString rest').map fun t =>
          (t.map fun key => some (String.ofList key)).widen (by
            have := length_lt_of_skipSpace h
            have := length_lt_of_skipSpace h'
            omega)
      | _ => .error .notJson
  | _ => .error .notJson

/-- What is gathered from the members of an object, of which the opening bracket has been read. A
key that is not admitted is a fault; `step` reads the value of a key that is. -/
def foldMembers {σ : Type} (admits : σ → String → Bool)
    (step : σ → String → (cs : List Char) → Reading σ cs) (first : Bool) (state : σ)
    (cs : List Char) : Reading σ cs := do
  let ⟨key, rest, h₁⟩ ← readKey first cs
  match key with
  | none => return ⟨state, rest, h₁⟩
  | some key =>
    if !admits state key then .error .wrongShape
    else
      let ⟨_, rest, h₂⟩ ← readColon rest
      let ⟨state, rest, h₃⟩ ← step state key rest
      let t ← foldMembers admits step false state rest
      return t.widen (by omega)
termination_by cs.length

/-- What is gathered from the members of an object. -/
def readObject {σ : Type} (admits : σ → String → Bool)
    (step : σ → String → (cs : List Char) → Reading σ cs) (state : σ) (cs : List Char) :
    Reading σ cs :=
  match h : skipSpace cs with
  | '\x7b' :: rest => (foldMembers admits step true state rest).map fun t =>
      t.widen (Nat.le_of_lt (length_lt_of_skipSpace h))
  | value => .error (.ofValue value)

/-- A value, or nothing if `null` stands in its place. -/
def readNullable {α : Type} (read : (cs : List Char) → Reading α cs) (cs : List Char) :
    Reading (Option α) cs :=
  match h : skipSpace cs with
  | 'n' :: rest => (readWord "ull".toList rest).map fun r =>
      ⟨none, r.1, by have := length_lt_of_skipSpace h; have := r.2; omega⟩
  | _ => (read cs).map fun t => t.map some

/-! ### Arrays in place of objects -/

/-- Is there another item? If so, the text from it on. -/
def nextItem (first : Bool) (cs : List Char) : Except Fault (Option (Rest cs)) :=
  match h : skipSpace cs with
  | [] => .error .endedEarly
  | ']' :: _ => .ok none
  | c :: rest =>
    if first then .ok (some ⟨c :: rest, h ▸ length_skipSpace_le cs⟩)
    else if c = ',' then
      match h' : skipSpace rest with
      | [] => .error .endedEarly
      | ']' :: _ => .error .notJson
      | item => .ok (some ⟨item, by
          have h₁ := length_skipSpace_le rest
          have h₂ := length_lt_of_skipSpace h
          rw [h'] at h₁
          omega⟩)
    else .error .notJson

/-- The end of an array of which all wanted items have been read. -/
def closeArray (cs : List Char) : Reading Unit cs :=
  match h : skipSpace cs with
  | [] => .error .endedEarly
  | ']' :: rest => .ok ⟨(), rest, length_lt_of_skipSpace h⟩
  | _ => .error .notJson

/-- The next item, which has to be there. -/
def readItem {α : Type} (first : Bool) (read : (cs : List Char) → Reading α cs) (cs : List Char) :
    Reading α cs := do
  match ← nextItem first cs with
  | none => .error .wrongShape
  | some r => return (← read r.1).widen r.2

end PluralForms.Json
