import PluralForms.Classifier
import PluralForms.Number
import PluralForms.Text.Align
import PluralForms.Text.Style

/-!
# Classifications

The categories of numbers that are given as text, and how they are shown.

* `Classifier.classifyNumber` - one number, perhaps with more fraction digits than it is written
  with;
* `Classifier.classifyAll` - many numbers; if one of them is no number, there is no result at all.
-/

namespace PluralForms

open Text

/-- The category of a number as it was given, and why, if that was asked for. -/
structure Classification where
  number : String
  category : Category
  explanation : Option Explanation

namespace Classifier

/-- The category of a number that is shown with at least so many fraction digits. -/
def classifyNumber (c : Classifier) (fractionDigits : Option Nat) (explain : Bool)
    (number : String) : Except NumberError Classification :=
  (Operands.ofText number).map fun written =>
    let o := (fractionDigits.map written.withFractionDigits).getD written
    ⟨number, c.classify o, if explain then some (c.explain o) else none⟩

/-- The categories of numbers, in order; the first text that is no number is the error. -/
def classifyAll (c : Classifier) (fractionDigits : Option Nat) (explain : Bool)
    (numbers : List String) : Except NumberError (List Classification) :=
  numbers.mapM (c.classifyNumber fractionDigits explain)

end Classifier

/-! ### Text -/

/-- The operands on one line. -/
def Operands.summary (o : Operands) : String :=
  "n=" ++ o.n.plain ++ " i=" ++ toString o.i ++ " v=" ++ toString o.v ++ " w=" ++ toString o.w
    ++ " f=" ++ toString o.f ++ " t=" ++ toString o.t ++ " c=" ++ toString o.c

/-- The column in which clauses are written. -/
def clauseIndent : String := "         "

def ClauseTrace.line (t : ClauseTrace) : String :=
  let mark := if t.holds then "✓" else "✗"
  let value := (t.value.map Binary.Double.plain).getD "?"
  clauseIndent ++ mark ++ " " ++ t.clause ++ " (value " ++ value ++ ")"

/-- The rule with its verdict, then its clauses, with `or` between the groups. -/
def RuleTrace.lines (t : RuleTrace) : List String :=
  let verdict := if t.holds then Style.green.apply "match" else Style.dim.apply "no match"
  ("  " ++ alignLeft 6 t.category.name ++ " " ++ t.condition ++ "  " ++ verdict)
    :: [clauseIndent ++ Style.dim.apply "or"].intercalate
      (t.groups.map fun group => group.clauses.map ClauseTrace.line)

def Explanation.lines (e : Explanation) : List String :=
  ("  " ++ Style.dim.apply e.operands.summary) :: e.rules.flatMap RuleTrace.lines
    ++ if e.category = .other then
      ["  " ++ alignLeft 6 e.category.name ++ " " ++ Style.dim.apply "(no rule matched)"]
    else []

def Classification.lines (c : Classification) : List String :=
  (c.number ++ "\t" ++ Style.bold.apply c.category.name)
    :: ((c.explanation).map Explanation.lines).getD []

/-! ### JSON -/

def Classification.json (c : Classification) : Json :=
  .object ([("number", .string c.number), ("category", .string c.category.name)]
    ++ c.explanation.toList.map fun explanation => ("explanation", explanation.json))

end PluralForms
