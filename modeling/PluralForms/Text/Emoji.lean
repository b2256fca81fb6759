import PluralForms.Text.EmojiRanges
import PluralForms.Text.Ligature

/-!
# Emoji sequences

Several characters can make up one emoji of two columns: an emoji with a skin tone, a flag written
with two letters, a flag written with tags, a key with its cap, and emoji that joiners tie together.
A text is measured from its end: `EmojiTail` says which sequence the text behind a character may
belong to, and `EmojiTail.extend` what a character in front adds to it.
-/

namespace PluralForms.Text

/-- Does a character modify the skin tone of the emoji in front of it? -/
def isSkinTone (c : Char) : Bool := 0x1F3FB ≤ c.toNat && c.toNat ≤ 0x1F3FF

/-- Is a character one of the letters that flags are written with? -/
def isFlagLetter (c : Char) : Bool := 0x1F1E6 ≤ c.toNat && c.toNat ≤ 0x1F1FF

/-- Is a character an emoji by itself, with two columns? -/
def isEmoji (c : Char) : Bool := emojiPresentation.has c && !isSkinTone c && !isFlagLetter c

/-- Does a selector for emoji change how the character in front of it is shown? -/
def takesEmojiSelector (c : Char) : Bool := selectable.has c

/-- Does a selector for text make the character in front of it narrow? Enclosed ideographs stay
wide. -/
def takesTextSelector (c : Char) : Bool :=
  selectable.has c && emojiPresentation.has c && !(0x1F200 ≤ c.toNat && c.toNat ≤ 0x1F2FF)

/-- The end of an emoji sequence, at the beginning of a text. -/
inductive EmojiTail
  /-- A whole emoji. -/
  | emoji
  | skinTone
  /-- A single flag letter. -/
  | flagLetter
  /-- Two or more flag letters. -/
  | flagLetters
  /-- A joiner, with an emoji behind it. -/
  | joined
  /-- The cap of a key, joined to an emoji. -/
  | keyCap
  /-- A number of flag letters, joined to an emoji: one, an even number, or an odd number from
  three on. -/
  | joinedLetter
  | joinedEven
  | joinedOdd
  /-- Tags that end a flag, joined to an emoji: a number of letters behind a number of digits. -/
  | tags (letters digits : Nat)
  deriving DecidableEq, Repr

namespace EmojiTail

/-- The emoji sequence that a character may be the end of. -/
def ofChar? (c : Char) : Option EmojiTail :=
  if isFlagLetter c then some .flagLetter
  else if isSkinTone c then some .skinTone
  else if isEmoji c then some .emoji
  else none

/-- The tags in front of others. At most six letters stand at the end, or three digits in front of
at most four letters. -/
def extendTags (letters digits : Nat) (c : Char) : Option EmojiTail :=
  if 0xE0061 ≤ c.toNat ∧ c.toNat ≤ 0xE007A then
    if digits = 0 ∧ letters < 6 then some (.tags (letters + 1) 0) else none
  else if 0xE0030 ≤ c.toNat ∧ c.toNat ≤ 0xE0039 then
    if letters ≤ 4 ∧ digits < 3 then some (.tags letters (digits + 1)) else none
  else if c.toNat = 0x1F3F4 then
    if digits = 3 ∨ digits = 0 ∧ 3 ≤ letters then some .emoji else none
  else none

/-- The columns that a character adds in front of a sequence, and the sequence that it begins, if
the character belongs to the sequence. -/
def extend (e : EmojiTail) (c : Char) : Option (Int × EmojiTail) :=
  let join : Option (Int × EmojiTail) := if c = joiner then some (0, .joined) else none
  match e with
  | .emoji => join
  | .skinTone => if modifierBases.has c then some (0, .emoji) else join
  | .flagLetter => if isFlagLetter c then some (1, .flagLetters) else none
  | .flagLetters => if isFlagLetter c then some (1, .flagLetters) else join
  | .joined =>
    if c.toNat = 0x20E3 then some (0, .keyCap)
    else if isFlagLetter c then some (1, .joinedLetter)
    else if isSkinTone c then some (0, .skinTone)
    else if c.toNat = 0xE007F then some (0, .tags 0 0)
    else if isEmoji c then some (0, .emoji)
    else none
  | .keyCap => none
  | .joinedLetter => if isFlagLetter c then some (-1, .joinedEven) else none
  | .joinedEven => if isFlagLetter c then some (3, .joinedOdd) else join
  | .joinedOdd => if isFlagLetter c then some (-1, .joinedEven) else join
  | .tags letters digits => (extendTags letters digits c).map fun e => (0, e)

/-- May an emoji in front, with a selector, still belong to the sequence? -/
def letsSelectorThrough (e : EmojiTail) : Bool := e == .joined || e == .keyCap

end EmojiTail

end PluralForms.Text
