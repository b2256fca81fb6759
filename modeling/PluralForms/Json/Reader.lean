import PluralForms.Binary.Double
import PluralForms.Numeral
import PluralForms.Text.Offset

/-!
# Reading JSON

A JSON text is read from front to back, and the first fault met ends the reading; there are three
kinds of it (`Fault`). A reader takes some text off the front and hands on the rest, which is
shorter (`Taken`).

* `readString` - a string that is wanted: its escapes are resolved, and surrogates have to pair;
* `skipValue` - a value that nobody wants: it has to be JSON, of any depth, and is passed over;
* `Fault.ofValue` - the fault of a value that is of another kind than the one that is wanted;
* `foldMembers` - an object, member by member.
-/

namespace PluralForms.Json

/-- What is wrong with a text. -/
inductive Fault
  /-- The text ends inside a value. -/
  | endedEarly
  /-- The text is no JSON. -/
  | notJson
  /-- A value is not of the kind that is wanted here. -/
  | wrongShape
  deriving DecidableEq, Repr

/-- What was read off the front of `cs`, and the rest of it. -/
structure Taken (α : Type) (cs : List Char) where
  value : α
  rest : List Char
  shorter : rest.length < cs.length

/-- The same, read off the front of a longer text. -/
def Taken.widen {α : Type} {cs ds : List Char} (t : Taken α cs) (h : cs.length ≤ ds.length) :
    Taken α ds :=
  ⟨t.value, t.rest, Nat.lt_of_lt_of_le t.shorter h⟩

/-- The same, read behind a character that was taken before. -/
def Taken.behind {α : Type} {cs : List Char} (t : Taken α cs) (c : Char) : Taken α (c :: cs) :=
  ⟨t.value, t.rest, Nat.lt_succ_of_lt t.shorter⟩

/-- Another value in place of the one that was read. -/
def Taken.map {α β : Type} {cs : List Char} (f : α → β) (t : Taken α cs) : Taken β cs :=
  ⟨f t.value, t.rest, t.shorter⟩

/-- A character is skipped between tokens if it is one of four blanks. -/
def isSpace (c : Char) : Bool := c == ' ' || c == '\n' || c == '\t' || c == '\r'

/-- The text from the next token on. -/
def skipSpace (cs : List Char) : List Char := cs.dropWhile isSpace

theorem length_skipSpace_le (cs : List Char) : (skipSpace cs).length ≤ cs.length :=
  Text.length_dropWhile_le _ _

theorem length_lt_of_skipSpace {cs rest : List Char} {c : Char} (h : skipSpace cs = c :: rest) :
    rest.length < cs.length := by
  have := length_skipSpace_le cs
  rw [h, List.length_cons] at this
  omega

/-! ### Words and numbers -/

/-- The rest of a word of which the first letter has been seen. -/
def readWord : (word cs : List Char) → Except Fault { rest : List Char // rest.length ≤ cs.length }
  | [], cs => .ok ⟨cs, Nat.le_refl _⟩
  | _ :: _, [] => .error .endedEarly
  | w :: word, c :: cs =>
    if w = c then (readWord word cs).map fun rest => ⟨rest.1, Nat.le_succ_of_le rest.2⟩
    else .error .notJson

/-- The digits and the exponent of a number. -/
structure Number where
  decimal : Decimal
  exponent : Int

/-- An exponent, if one follows; `atEnd` is the fault of a text that ends inside it. -/
def readExponent (atEnd : Fault) :
    (cs : List Char) → Except Fault { p : Int × List Char // p.2.length ≤ cs.length }
  | [] => .ok ⟨(0, []), Nat.le_refl _⟩
  | mark :: cs =>
    if mark = 'e' ∨ mark = 'E' then
      let negative := cs.head? == some '-'
      let digits := match cs with
        | '+' :: cs => cs
        | '-' :: cs => cs
        | cs => cs
      match digits.takeWhile Char.isDigit with
      | [] => .error (if digits = [] then atEnd else .notJson)
      | ds =>
        let rest := digits.dropWhile Char.isDigit
        let exponent : Int := if negative then -(digitsValue ds : Int) else digitsValue ds
        .ok ⟨(exponent, rest), by
          have h₁ := Text.length_dropWhile_le Char.isDigit digits
          have h₂ : digits.length ≤ cs.length := by
            simp only [digits]
            split <;> simp
          change (digits.dropWhile Char.isDigit).length ≤ cs.length + 1
          omega⟩
    else .ok ⟨(0, mark :: cs), Nat.le_refl _⟩

/-- A fraction, if one follows; it has at least one digit. -/
def readFraction (atEnd : Fault) :
    (cs : List Char) → Except Fault { p : List Char × List Char // p.2.length ≤ cs.length }
  | '.' :: cs =>
    match cs.takeWhile Char.isDigit with
    | [] => .error (if cs = [] then atEnd else .notJson)
    | digits => .ok ⟨(digits, cs.dropWhile Char.isDigit),
        Nat.le_succ_of_le (Text.length_dropWhile_le _ _)⟩
  | cs => .ok ⟨([], cs), Nat.le_refl _⟩

/-- A number without its sign. It has no zero in front of other digits. -/
def readNumber (atEnd : Fault) (cs : List Char) : Except Fault (Taken Number cs) :=
  match cs with
  | [] => .error atEnd
  | c :: cs =>
    if !c.isDigit then .error .notJson
    else
      let more := cs.takeWhile Char.isDigit
      if c = '0' ∧ more ≠ [] then .error .notJson
      else do
        let ⟨(fraction, rest), h₁⟩ ← readFraction atEnd (cs.dropWhile Char.isDigit)
        let ⟨(exponent, rest), h₂⟩ ← readExponent atEnd rest
        return ⟨⟨⟨c :: more, fraction⟩, exponent⟩, rest, by
          have := Text.length_dropWhile_le Char.isDigit cs
          simp only [List.length_cons] at h₁ h₂ ⊢
          omega⟩

/-- Append digits to a whole number as long as it stays a word of 64 bits; the second part holds
the digits from the first one on that does not fit. -/
def appendDigits (value : Nat) : List Char → Nat × List Char
  | [] => (value, [])
  | d :: ds =>
    let longer := Nat.ofDigitChars 10 [d] value
    if longer ≤ maxWord then appendDigits longer ds else (value, d :: ds)

/-- Is the number past the range of double precision? It is computed in two roundings: its digits,
as many as fit into a word of 64 bits, make a whole number, and a power of ten in double precision
moves the point. So the last numbers of the range may already be too large. -/
def Number.isTooLarge (x : Number) : Bool :=
  let (whole, wholeLeft) := appendDigits 0 x.decimal.whole
  let (significand, fractionLeft) := appendDigits whole x.decimal.fraction
  let exponent : Int :=
    x.exponent + wholeLeft.length - (x.decimal.fraction.length - fractionLeft.length : Nat)
  if significand = 0 ∨ exponent < 0 then false
  else if 308 < exponent then true
  else
    let power := Binary.Double.ofNat (10 ^ exponent.toNat)
    !((Binary.Double.ofNat significand).mul power).isFinite

/-! ### Strings -/

def hexValue (c : Char) : Option Nat :=
  if c.isDigit then some (c.toNat - '0'.toNat)
  else if 'a' ≤ c ∧ c ≤ 'f' then some (c.toNat - 'a'.toNat + 10)
  else if 'A' ≤ c ∧ c ≤ 'F' then some (c.toNat - 'A'.toNat + 10)
  else none

/-- Four hexadecimal digits. -/
def readHex (cs : List Char) : Except Fault (Taken Nat cs) :=
  if Text.byteLength (cs.take 4) < 4 then .error .endedEarly
  else match cs with
    | a :: b :: c :: d :: rest =>
      match hexValue a, hexValue b, hexValue c, hexValue d with
      | some a, some b, some c, some d =>
        .ok ⟨a * 4096 + b * 256 + c * 16 + d, rest, by simp only [List.length_cons]; omega⟩
      | _, _, _, _ => .error .notJson
    | _ => .error .notJson

/-- The second half of a pair of surrogates, behind the first half `high`. -/
def readLowSurrogate (high : Nat) : (cs : List Char) → Except Fault (Taken Char cs)
  | [] => .error .endedEarly
  | ['\\'] => .error .endedEarly
  | '\\' :: 'u' :: cs => do
    let t ← readHex cs
    if 0xDC00 ≤ t.value ∧ t.value ≤ 0xDFFF then
      return (t.map fun low =>
        Char.ofNat (0x10000 + (high - 0xD800) * 1024 + (low - 0xDC00))).widen
          (by simp only [List.length_cons]; omega)
    else .error .notJson
  | _ => .error .notJson

/-- What a letter or mark behind a backslash stands for, codes apart. -/
def simpleEscape (c : Char) : Option Char :=
  if c = '"' ∨ c = '\\' ∨ c = '/' then some c
  else if c = 'b' then some '\x08'
  else if c = 'f' then some '\x0c'
  else if c = 'n' then some '\n'
  else if c = 'r' then some '\r'
  else if c = 't' then some '\t'
  else none

/-- The character of an escape, behind the backslash. -/
def readEscape : (cs : List Char) → Except Fault (Taken Char cs)
  | [] => .error .endedEarly
  | 'u' :: cs => do
    let ⟨code, rest, h⟩ ← readHex cs
    if 0xDC00 ≤ code ∧ code ≤ 0xDFFF then .error .notJson
    else if 0xD800 ≤ code ∧ code ≤ 0xDBFF then
      let t ← readLowSurrogate code rest
      return t.widen (by simp only [List.length_cons]; omega)
    else return ⟨Char.ofNat code, rest, by simp only [List.length_cons]; omega⟩
  | c :: cs =>
    match simpleEscape c with
    | some c => .ok ⟨c, cs, Nat.lt_succ_self _⟩
    | none => .error .notJson

/-- The characters of a string behind its opening mark. -/
def readString (cs : List Char) : Except Fault (Taken (List Char) cs) :=
  match cs with
  | [] => .error .endedEarly
  | '"' :: cs => .ok ⟨[], cs, Nat.lt_succ_self _⟩
  | '\\' :: cs => do
    let ⟨c, rest, h⟩ ← readEscape cs
    let t ← readString rest
    return (t.map (c :: ·)).widen (by simp only [List.length_cons]; omega)
  | c :: cs =>
    if c.toNat < 0x20 then .error .notJson
    else do
      let t ← readString cs
      return (t.map (c :: ·)).behind _
termination_by cs.length

/-- Pass over an escape, behind the backslash. A code need not be that of a character. -/
def skipEscape : (cs : List Char) → Except Fault (Taken Unit cs)
  | [] => .error .endedEarly
  | 'u' :: cs => do
    let t ← readHex cs
    return (t.map fun _ => ()).behind _
  | c :: cs =>
    if (simpleEscape c).isSome then .ok ⟨(), cs, Nat.lt_succ_self _⟩
    else .error .notJson

/-- Pass over a string, behind its opening mark. -/
def skipString (cs : List Char) : Except Fault (Taken Unit cs) :=
  match cs with
  | [] => .error .endedEarly
  | '"' :: cs => .ok ⟨(), cs, Nat.lt_succ_self _⟩
  | '\\' :: cs => do
    let ⟨_, rest, h⟩ ← skipEscape cs
    let t ← skipString rest
    return t.widen (by simp only [List.length_cons]; omega)
  | c :: cs =>
    if c.toNat < 0x20 then .error .notJson
    else do
      let t ← skipString cs
      return t.behind _
termination_by cs.length

end PluralForms.Json
