/-!
# Styled text

Text between the control sequences that switch a style of a terminal on and off.
-/

namespace PluralForms.Text

/-- A way to make text stand out. -/
inductive Style
  | bold
  | dim
  | green
  | red
  deriving DecidableEq, Repr

namespace Style

/-- The number that switches the style on. -/
def onCode : Style → String
  | bold => "1"
  | dim => "2"
  | green => "32"
  | red => "31"

/-- The number that switches it off: weights are all reset, colours go back to the default. -/
def offCode : Style → String
  | bold => "0"
  | dim => "0"
  | green => "39"
  | red => "39"

/-- A control sequence for a style. -/
def sequence (code : String) : String := "\x1b[" ++ code ++ "m"

/-- The text in this style. -/
def apply (style : Style) (s : String) : String :=
  sequence style.onCode ++ s ++ sequence style.offCode

end Style

end PluralForms.Text
