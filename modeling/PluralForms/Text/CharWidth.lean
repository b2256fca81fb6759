import PluralForms.Text.WidthRanges

/-!
# The width of a character

How many columns of a terminal a character takes if it stands alone. Combining marks and characters
that are not shown take none, East Asian wide characters take two, a Khmer sign that stands for
several letters takes three, and all others one, control characters among them.
-/

namespace PluralForms.Text

/-- Has a character no width of its own? -/
def isZeroWidth (c : Char) : Bool :=
  zeroWidthLow.has c || zeroWidthMiddle.has c || zeroWidthHigh.has c

/-- The columns of a character. -/
def charWidth (c : Char) : Nat :=
  if c.toNat < 0xAD then 1
  else if isZeroWidth c then 0
  else if c.toNat = 0x17D8 then 3
  else if doubleWidth.has c then 2
  else 1

end PluralForms.Text
