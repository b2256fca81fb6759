import PluralForms.Text.Align
import PluralForms.Text.Split
import PluralForms.Text.Width

/-!
# Grids

Rows of cells under a header, set in columns between borders. A column is as wide as its widest
line, cells begin at the left, and a cell of several lines makes its row as high.

    ┌────────────────┐
    │ Name     Count │
    ╞════════════════╡
    │ apples   3     │
    └────────────────┘
-/

namespace PluralForms.Text

/-- A header, and rows of as many cells. -/
structure Grid where
  header : List String
  rows : List (List String)
  deriving DecidableEq, Repr

namespace Grid

/-- The lines of a cell. -/
def cellLines (cell : String) : List String := (splitOn ['\n'] cell.toList).map String.ofList

/-- The columns that the widest line of a cell takes. -/
def cellWidth (cell : String) : Nat := ((cellLines cell).map width).foldl max 0

/-- The lines of the highest cell of a row. -/
def rowHeight (row : List String) : Nat := (row.map fun cell => (cellLines cell).length).foldl max 0

/-- The width of each column. -/
def columnWidths (g : Grid) : List Nat :=
  g.rows.foldl (fun widths row => List.zipWith max widths (row.map cellWidth))
    (g.header.map cellWidth)

/-- A line of a cell, filled up to the width of its column. -/
def padLine (columns : Nat) (line : String) : String := line ++ filling ' ' (columns - width line)

/-- The lines of a row between the borders. -/
def rowLines (widths : List Nat) (row : List String) : List String :=
  (List.range (rowHeight row)).map fun k =>
    let parts := row.map fun cell => ((cellLines cell)[k]?).getD ""
    "│ " ++ "   ".intercalate (List.zipWith padLine widths parts) ++ " │"

/-- A border across the whole grid. -/
def border (widths : List Nat) (left fill right : Char) : String :=
  let inner := widths.foldl (fun inner columns => inner + columns + 3) 0 - 1
  String.singleton left ++ filling fill inner ++ String.singleton right

/-- The lines of the grid. -/
def lines (g : Grid) : List String :=
  let widths := g.columnWidths
  border widths '┌' '─' '┐' :: rowLines widths g.header ++ border widths '╞' '═' '╡'
    :: g.rows.flatMap (rowLines widths) ++ [border widths '└' '─' '┘']

end Grid

end PluralForms.Text
