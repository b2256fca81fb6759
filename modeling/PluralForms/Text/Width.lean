import PluralForms.Text.Emoji

/-!
# The width of a text

How many columns of a terminal a text takes. That is the sum over its characters, but for those that
are shown together with what follows them: a line break of two characters, ligatures, emoji, and
characters in front of a selector. So a text is measured from its end, and what a character adds
depends on how the text behind it begins.

* `Tail` - what matters of the beginning of a text;
* `Tail.extend` - the columns that a character adds in front of it;
* `width` - the columns of a text.
-/

namespace PluralForms.Text

/-- How a selector asks for the character in front of it to be shown. -/
inductive Presentation
  | text
  | emoji
  deriving DecidableEq, Repr

/-- A vowel of the script Kirat Rai, which may be part of a greater vowel. -/
inductive PartVowel
  | e
  | ai
  deriving DecidableEq, Repr

/-- What a text begins with. -/
inductive Opening
  /-- Nothing that joins with a character in front of it. -/
  | plain
  | lineFeed
  | vowel (v : PartVowel)
  | ligature (l : Ligature)
  | emoji (e : EmojiTail)
  deriving DecidableEq, Repr

/-- The beginning of a text, behind selectors if there are any. -/
structure Tail where
  opening : Opening
  /-- The selector between text and emoji. -/
  selector : Option Presentation
  /-- Is there the selector for wide quotation marks? -/
  wideQuotes : Bool
  deriving DecidableEq, Repr

namespace Tail

/-- An opening without selectors. -/
def bare (opening : Opening) : Tail := ⟨opening, none, false⟩

/-- The tail of the empty text. -/
def plain : Tail := bare .plain

/-- What is left of a tail behind a selector: the letters of a ligature, with the selectors in front
of them, or nothing. -/
def seenThrough (t : Tail) : Tail :=
  match t.opening with
  | .ligature _ => t
  | _ => plain

/-- Put a selector between text and emoji in front. An emoji that is joined to others is seen
through the selector for emoji. -/
def select (t : Tail) (p : Presentation) : Tail :=
  match p, t.opening with
  | .emoji, .emoji e =>
    if e.letsSelectorThrough then ⟨.emoji e, some .emoji, false⟩ else ⟨.plain, some .emoji, false⟩
  | p, _ => { t.seenThrough with selector := some p }

/-- Put the selector for wide quotation marks in front. -/
def selectQuotes (t : Tail) : Tail := { t.seenThrough with wideQuotes := true }

/-- The tail for a character that its selector between text and emoji does not apply to. -/
def ignore (t : Tail) (p : Presentation) : Tail :=
  if t.selector = some p then { t.seenThrough with selector := none } else t

/-- The tail for a character that is no quotation mark. -/
def ignoreQuotes (t : Tail) : Tail :=
  if t.wideQuotes then { t.seenThrough with wideQuotes := false } else t

/-- What a character that stands alone begins. -/
def ofChar (c : Char) : Tail :=
  if c.toNat = 0x16D67 then bare (.vowel .e)
  else if c.toNat = 0x16D68 then bare (.vowel .ai)
  else match Ligature.ofChar? c, EmojiTail.ofChar? c with
    | some l, _ => bare (.ligature l)
    | none, some e => bare (.emoji e)
    | none, none => plain

/-- The columns that a character adds in front of a vowel, if it is part of the same one. -/
def extendVowel : PartVowel → Char → Option (Int × Tail)
  | .e, c =>
    if c.toNat = 0x16D63 ∨ c.toNat = 0x16D69 then some (0, plain)
    else if c.toNat = 0x16D67 then some (0, bare (.vowel .ai))
    else if c.toNat = 0x16D68 then some (1, bare (.vowel .e))
    else none
  | .ai, c => if c.toNat = 0x16D63 then some (0, plain) else none

/-- Single and double quotation marks, opening and closing. -/
def isQuotationMark (c : Char) : Bool :=
  c.toNat == 0x2018 || c.toNat == 0x2019 || c.toNat == 0x201C || c.toNat == 0x201D

/-- The columns that a character adds, and the new tail, if it joins with the opening. -/
def extendOpening (opening : Opening) (c : Char) : Option (Int × Tail) :=
  match opening with
  | .plain | .lineFeed => none
  | .vowel v => extendVowel v c
  | .ligature l => (l.extend c).map fun (columns, rest) =>
    (columns, (rest.map fun l => bare (.ligature l)).getD plain)
  | .emoji e => (e.extend c).map fun (columns, e) => (columns, bare (.emoji e))

/-- The columns of a character that becomes an emoji by the selector in front of a tail: none if the
emoji is joined to the one behind. -/
def selectedColumns (t : Tail) : Int :=
  match t.opening with
  | .emoji _ => 0
  | _ => 2

/-- The columns that a character adds in front of a text, and the new tail. -/
def extend (t : Tail) (c : Char) : Int × Tail :=
  if t.selector = some .emoji ∧ takesEmojiSelector c then
    (t.selectedColumns, bare (.emoji .emoji))
  else
    let t := t.ignore .emoji
    if c = '\n' then (1, bare .lineFeed)
    else if c = '\r' ∧ t.opening = .lineFeed then (0, plain)
    else if c.toNat ≤ 0xA0 then (1, plain)
    else if c.toNat = 0xFE0F then (0, t.select .emoji)
    else if c.toNat = 0xFE0E then (0, t.select .text)
    else if c.toNat = 0xFE01 then (0, t.selectQuotes)
    else if t.selector = some .text ∧ takesTextSelector c then (1, plain)
    else
      let t := t.ignore .text
      if t.wideQuotes ∧ isQuotationMark c then (2, plain)
      else (extendOpening t.ignoreQuotes.opening c).getD (charWidth c, ofChar c)

end Tail

/-- The columns of a list of characters, and how it begins. -/
def measure : List Char → Int × Tail
  | [] => (0, Tail.plain)
  | c :: cs =>
    let (columns, tail) := measure cs
    let (added, tail) := tail.extend c
    (columns + added, tail)

/-- The columns of a text. -/
def width (s : String) : Nat := (measure s.toList).1.toNat

end PluralForms.Text
