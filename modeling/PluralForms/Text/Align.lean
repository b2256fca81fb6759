/-!
# Setting text in a column

A text is set in a column of a least width by filling up on the left, on the right, or on both
sides; a text that is as wide as the column stays as it is. Widths are counted in characters.
-/

namespace PluralForms.Text

/-- `count` copies of `fill`. -/
def filling (fill : Char) (count : Nat) : String := String.ofList (List.replicate count fill)

/-- Fill up on the right. -/
def alignLeft (width : Nat) (s : String) : String := s ++ filling ' ' (width - s.length)

/-- Fill up on the left. -/
def alignRight (width : Nat) (s : String) : String := filling ' ' (width - s.length) ++ s

/-- Fill up on both sides; an odd character goes to the right. -/
def center (fill : Char) (width : Nat) (s : String) : String :=
  let missing := width - s.length
  filling fill (missing / 2) ++ s ++ filling fill (missing - missing / 2)

/-- The first `count` characters. -/
def clip (count : Nat) (s : String) : String := String.ofList (s.toList.take count)

end PluralForms.Text
