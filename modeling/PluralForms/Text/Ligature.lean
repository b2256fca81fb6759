import PluralForms.Text.CharWidth

/-!
# Ligatures

Letters of some scripts join with the letters in front of them, and then take fewer columns than
they take one by one. A text is measured from its end, so a ligature begins with its last letter:
`Ligature` says which ligature the text behind a character may belong to, and `Ligature.extend`
what a character in front adds to it.

Marks that are not shown may stand anywhere inside a ligature. So may joiners, except between the
two letters of the Arabic one; some ligatures need a joiner.
-/

namespace PluralForms.Text

/-! ### Letters -/

/-- Arabic letters of the form of alef. -/
def alefs : CodeRanges :=
  [(0x0622, 0x0623), (0x0625, 0x0625), (0x0627, 0x0627), (0x0671, 0x0673), (0x0675, 0x0675),
   (0x0773, 0x0774), (0x0870, 0x0882)]

/-- Arabic letters of the form of lam. -/
def lams : CodeRanges :=
  [(0x0644, 0x0644), (0x06B5, 0x06B8), (0x076A, 0x076A), (0x08A6, 0x08A6), (0x08C7, 0x08C7)]

/-- Khmer letters that are set below the letter in front of them, if a sign asks for it. -/
def subscriptLetters : CodeRanges :=
  [(0x1780, 0x1782), (0x1784, 0x1787), (0x1789, 0x178C), (0x178E, 0x1793), (0x1795, 0x1798),
   (0x179B, 0x179D), (0x17A0, 0x17A0), (0x17A2, 0x17A2), (0x17A7, 0x17A7), (0x17AB, 0x17AC),
   (0x17AF, 0x17AF)]

/-- Tifinagh consonants. -/
def tifinaghConsonants : CodeRanges := [(0x2D31, 0x2D65), (0x2D6F, 0x2D6F)]

/-- Lisu tone letters that stand first in a pair. -/
def firstTones : CodeRanges := [(0xA4F8, 0xA4FB)]

/-- Lisu tone letters that stand second in a pair. -/
def secondTones : CodeRanges := [(0xA4FC, 0xA4FD)]

/-- Marks that are not shown. -/
def hiddenMarks : CodeRanges :=
  [(0x034F, 0x034F), (0x17B4, 0x17B5), (0x180B, 0x180D), (0x180F, 0x180F), (0xFE00, 0xFE0F),
   (0xE0100, 0xE01EF)]

/-- Characters without a width that part the letters on both sides: those whose property
`Joining_Type` is not `Transparent`. -/
def nonJoining : CodeRanges :=
  [(0x0605, 0x0605), (0x0890, 0x0891), (0x08E2, 0x08E2), (0x09BE, 0x09BE), (0x09D7, 0x09D7),
   (0x0B3E, 0x0B3E), (0x0B57, 0x0B57), (0x0BBE, 0x0BBE), (0x0BD7, 0x0BD7), (0x0CC0, 0x0CC0),
   (0x0CC2, 0x0CC2), (0x0CC7, 0x0CC8), (0x0CCA, 0x0CCB), (0x0CD5, 0x0CD6), (0x0D3E, 0x0D3E),
   (0x0D4E, 0x0D4E), (0x0D57, 0x0D57), (0x0DCF, 0x0DCF), (0x0DDF, 0x0DDF), (0x1160, 0x11FF),
   (0x1715, 0x1715), (0x1734, 0x1734), (0x180E, 0x180E), (0x1B35, 0x1B35), (0x1B3B, 0x1B3B),
   (0x1B3D, 0x1B3D), (0x1B43, 0x1B44), (0x1BAA, 0x1BAA), (0x1BF2, 0x1BF3), (0x200C, 0x200D),
   (0x2065, 0x2069), (0x302E, 0x302F), (0x3164, 0x3164), (0xA8FA, 0xA8FA), (0xA953, 0xA953),
   (0xA9C0, 0xA9C0), (0xD7B0, 0xD7C6), (0xD7CB, 0xD7FB), (0xFFA0, 0xFFA0), (0xFFF0, 0xFFF8),
   (0x111C0, 0x111C0), (0x111C2, 0x111C3), (0x11235, 0x11235), (0x1133E, 0x1133E),
   (0x1134D, 0x1134D), (0x11357, 0x11357), (0x113B8, 0x113B8), (0x113C2, 0x113C2),
   (0x113C5, 0x113C5), (0x113C7, 0x113C9), (0x113CF, 0x113CF), (0x113D1, 0x113D1),
   (0x114B0, 0x114B0), (0x114BD, 0x114BD), (0x115AF, 0x115AF), (0x116B6, 0x116B6),
   (0x11930, 0x11930), (0x1193D, 0x1193D), (0x1193F, 0x1193F), (0x11941, 0x11941),
   (0x11A84, 0x11A89), (0x11D46, 0x11D46), (0x11F02, 0x11F02), (0x11F41, 0x11F41),
   (0x16FF0, 0x16FF1), (0x1D165, 0x1D166), (0x1D16D, 0x1D172), (0x1D250, 0x1D252),
   (0x1D25B, 0x1D25F), (0x1D280, 0x1D281), (0xE0000, 0xE0000), (0xE0002, 0xE001F),
   (0xE0080, 0xE00FF), (0xE01F0, 0xE0FFF)]

/-- Do Arabic letters join across a character? -/
def isTransparent (c : Char) : Bool := charWidth c == 0 && !nonJoining.has c

/-- The character that joins its two neighbours. -/
def joiner : Char := Char.ofNat 0x200D

/-! ### What a text begins with -/

/-- The end of a ligature, at the beginning of a text; `joined` tells of a joiner in front. -/
inductive Ligature
  /-- An Arabic alef, which may join with a lam. -/
  | alef
  /-- A Hebrew lamed, which may be joined to an alef. -/
  | lamed (joined : Bool)
  /-- A Buginese ya, which may be joined to the vowel i. -/
  | ya (joined : Bool)
  /-- The vowel i, joined to a Buginese ya; both may stand behind the letter a. -/
  | vowelYa
  /-- A Tifinagh consonant, which may be joined to another one. -/
  | consonant (joined : Bool)
  /-- A Tifinagh consonant behind the consonant joiner of the script. -/
  | joinedConsonant
  /-- The second Lisu tone letter of a pair. -/
  | secondTone
  /-- An Old Turkic i, which may be joined to the letter ec. -/
  | turkicI (joined : Bool)
  /-- A Khmer letter, which may be a subscript. -/
  | subscriptLetter
  deriving DecidableEq, Repr

namespace Ligature

/-- The ligature that a letter may be the end of. -/
def ofChar? (c : Char) : Option Ligature :=
  if alefs.has c then some .alef
  else if c.toNat = 0x05DC then some (.lamed false)
  else if c.toNat = 0x1A10 then some (.ya false)
  else if tifinaghConsonants.has c then some (.consonant false)
  else if secondTones.has c then some .secondTone
  else if c.toNat = 0x10C03 then some (.turkicI false)
  else if subscriptLetters.has c then some .subscriptLetter
  else none

/-- The ligature behind a joiner. -/
def join : Ligature → Ligature
  | .lamed _ => .lamed true
  | .ya _ => .ya true
  | .consonant _ => .consonant true
  | .turkicI _ => .turkicI true
  | l => l

/-- The columns that a letter adds in front of a ligature, and what remains open, if the letter
belongs to the ligature. -/
def extendByLetter (l : Ligature) (c : Char) : Option (Int × Option Ligature) :=
  match l with
  | .alef =>
    if lams.has c then some (0, none)
    else if isTransparent c then some (0, some .alef)
    else none
  | .lamed joined => if joined && c.toNat == 0x05D0 then some (0, none) else none
  | .ya joined => if joined && c.toNat == 0x1A17 then some (0, some .vowelYa) else none
  | .vowelYa => if c.toNat = 0x1A15 then some (0, none) else none
  | .consonant joined =>
    if c.toNat = 0x2D7F then some (1, some .joinedConsonant)
    else if joined && tifinaghConsonants.has c then some (0, none)
    else none
  | .joinedConsonant => if tifinaghConsonants.has c then some (-1, none) else none
  | .secondTone => if firstTones.has c then some (0, none) else none
  | .turkicI joined => if joined && c.toNat == 0x10C32 then some (0, none) else none
  | .subscriptLetter => if c.toNat = 0x17D2 then some (-1, none) else none

/-- The columns that a character adds in front of a ligature, and what remains open, if the
character belongs to the ligature. -/
def extend (l : Ligature) (c : Char) : Option (Int × Option Ligature) :=
  if l ≠ .alef ∧ c = joiner then some (0, some l.join)
  else if l ≠ .alef ∧ hiddenMarks.has c then some (0, some l)
  else l.extendByLetter c

end Ligature

end PluralForms.Text
