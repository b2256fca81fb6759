/-!
# Blank characters

Which characters surround a text without belonging to it, and how they are cut off. There are
three classes, each with its own users:

* `isBlank` - the Unicode property `White_Space`; clauses, samples and language identifiers are
  trimmed by it (`trim`, `trimmed`);
* `isInnerBlank` - a space or a tab, the only characters that may separate the parts of a clause;
* `isAsciiBlank` - the five blank characters of ASCII, which end a word in rule text.
-/

namespace PluralForms.Text

/-- The Unicode property `White_Space`: twenty-five characters. -/
def isBlank (c : Char) : Bool :=
  let n := c.toNat
  (0x09 ≤ n && n ≤ 0x0D) || n == 0x20 || n == 0x85 || n == 0xA0 || n == 0x1680
    || (0x2000 ≤ n && n ≤ 0x200A) || n == 0x2028 || n == 0x2029 || n == 0x202F || n == 0x205F
    || n == 0x3000

/-- A blank between the parts of a clause. -/
def isInnerBlank (c : Char) : Bool := c == ' ' || c == '\t'

/-- A blank inside a clause is also one that is trimmed off its ends. -/
theorem isBlank_of_isInnerBlank {c : Char} (h : isInnerBlank c = true) : isBlank c = true := by
  simp only [isInnerBlank, Bool.or_eq_true, beq_iff_eq] at h
  rcases h with rfl | rfl <;> decide

/-- A blank character of ASCII; the vertical tab is not one. -/
def isAsciiBlank (c : Char) : Bool :=
  c == ' ' || c == '\t' || c == '\n' || c == '\x0c' || c == '\r'

/-! ### Trimming -/

/-- The blank characters that `cs` begins with. -/
def leadingBlanks (cs : List Char) : List Char := cs.takeWhile isBlank

/-- `cs` without its leading blanks. -/
def trimStart (cs : List Char) : List Char := cs.dropWhile isBlank

/-- `cs` without its trailing blanks. -/
def trimEnd (cs : List Char) : List Char := (cs.reverse.dropWhile isBlank).reverse

/-- `cs` without the blanks around it. -/
def trim (cs : List Char) : List Char := trimEnd (trimStart cs)

/-- `s` without the blanks around it. -/
def trimmed (s : String) : String := String.ofList (trim s.toList)

end PluralForms.Text
