import PluralForms.Text.Blank
import PluralForms.Text.Offset
import PluralForms.Verification

/-!
# Diagnostics

What is told to someone who writes rules: a message, what can be done about it, and the stretch of
the rule's text that it is about. Stretches are counted in bytes.

* `Diagnostic.ofWarning` - points at the first occurrence of a broken clause, at the first relation
  that reads an unknown operand, or at a whole rule label;
* `Diagnostic.ofMismatch` - points at the sample where it stands by itself in a sample section. A
  sample out of the middle of a range is written nowhere and has no stretch.
-/

namespace PluralForms

open Text

/-- A finding about a text. -/
structure Diagnostic where
  message : String
  help : Option String
  /-- What the text is called. -/
  source : String
  text : String
  span : Option Span
  deriving DecidableEq, Repr

/-! ### Finding the stretch -/

/-- The first occurrence of a word. -/
def wordSpan (word cs : List Char) : Option Span :=
  ((places cs).find? fun p => word.isPrefixOf p.rest).map (·.span word)

/-- May `c` follow the symbol of a relation? -/
def followsSymbol (c : Char) : Bool := c == ' ' || c == '%' || c == '=' || c == '!'

/-- Does a relation's symbol stand at this place, apart from other letters? -/
def Text.Place.hasSymbol (p : Place) (symbol : Char) : Bool :=
  match p.rest with
  | [] => false
  | c :: rest => c == symbol && p.before.all isAsciiBlank && rest.head?.all followsSymbol

/-- The first relation that reads a symbol. -/
def symbolSpan (symbol : Char) (cs : List Char) : Option Span :=
  ((places cs).find? (·.hasSymbol symbol)).map (·.span [symbol])

/-- Does `c` belong to a numeral or a range? -/
def isNumeralChar (c : Char) : Bool := c.isDigit || c == '.' || c == '~'

/-- Is the word at this place no part of a longer numeral? -/
def Text.Place.isolates (p : Place) (word : List Char) : Bool :=
  !p.before.any isNumeralChar && !((p.rest.drop word.length).head?).any isNumeralChar

/-- The first occurrence of a sample behind the condition, by itself. -/
def sampleSpan (sample cs : List Char) : Option Span :=
  (cutAt '@' cs).bind fun (condition, _) =>
    ((occurrences sample cs).find? fun p =>
      byteLength condition < p.offset && p.isolates sample).map (·.span sample)

/-! ### Diagnostics of warnings and mismatches -/

namespace Diagnostic

/-- How findings of a check are classed. -/
def code : String := "cldr_plurals::check"

/-- What is written at the stretch. -/
def label : String := "here"

/-- A rule is called after its language and category. -/
def sourceName (language : String) : Option Category → String
  | none => language
  | some category => language ++ "/" ++ category.name

/-- What a warning has to say about a rule's text, if the text is at hand. -/
def ofWarning (warning : Warning) (rule : Option String) : Diagnostic :=
  let make := fun (help text : String) (span : Option Span) =>
    ⟨warning.message, some help, sourceName warning.language warning.category?, text, span⟩
  match warning with
  | .brokenClause _ _ clause _ =>
    let text := rule.getD clause
    make "the clause never matches, so its AND-group never matches" text
      (wordSpan clause.toList text.toList)
  | .unknownOperand _ _ symbol =>
    let text := rule.getD ""
    make "plural operands are n, i, v, w, f, t, c and e" text (symbolSpan symbol text.toList)
  | .unknownRuleKey _ key =>
    make "rule labels are pluralRule-count-<zero|one|two|few|many|other>" key
      (some ⟨0, byteLength key.toList⟩)

/-- What a mismatch has to say about a rule's text. -/
def ofMismatch (language : String) (mismatch : Mismatch) (rule : String) : Diagnostic :=
  let source := sourceName language (some mismatch.expected)
  let sample := mismatch.sample.render
  let verdict := match mismatch.actual with
    | some actual => " classifies as '" ++ actual.name ++ "'"
    | none => " is not a valid number"
  ⟨source ++ ": sample " ++ sample ++ verdict, none, source, rule,
    sampleSpan sample.toList rule.toList⟩

/-- The diagnostic as lines of text. -/
def report (d : Diagnostic) : String :=
  let place := match d.span with
    | none => ""
    | some span => " at byte " ++ toString span.offset ++ ", " ++ toString span.length ++ " long"
  code ++ ": " ++ d.message ++ "\n  in " ++ d.source ++ place ++ ": " ++ d.text
    ++ (d.help.map ("\n  help: " ++ ·)).getD ""

end Diagnostic

end PluralForms
