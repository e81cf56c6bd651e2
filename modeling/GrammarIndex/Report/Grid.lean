import GrammarIndex.Engine.Query
import GrammarIndex.Text.Width

/-!
Tables drawn with lines.

Every column is as wide as its widest line and has a blank on either side; a rule stands below the
header. A cell of several lines makes its whole row that high.
-/
namespace GrammarIndex.Report

/-- A header and rows of the same number of cells. -/
structure Grid where
  header : List String
  rows : List (List String)
  deriving Repr

namespace Grid

def linesOf (cell : String) : List (List Char) := Text.split '\n' cell.toList

def cellWidth (cell : String) : Nat := ((linesOf cell).map Text.width).foldl max 0

/-- The width of every column. -/
def widths (g : Grid) : List Nat :=
  g.rows.foldl (fun widths row => List.zipWith max widths (row.map cellWidth))
    (g.header.map cellWidth)

/-- A horizontal line: its left end, its crossings and its right end. -/
def rule (left cross right : String) (widths : List Nat) : String :=
  let dashes (n : Nat) : String := String.ofList (List.replicate (n + 2) '─')
  left ++ String.intercalate cross (widths.map dashes) ++ right

/-- One line of a cell, filled up to the width of its column. -/
def fill (width : Nat) (line : List Char) : String :=
  " " ++ String.ofList (line ++ List.replicate (width - Text.width line) ' ') ++ " "

/-- The lines of a row. -/
def rowLines (widths : List Nat) (row : List String) : List String :=
  let cells := row.map linesOf
  let height := (cells.map List.length).foldl max 0
  (List.range height).map fun n =>
    let parts := List.zipWith (fun w lines => fill w (lines.getD n [])) widths cells
    "│" ++ String.intercalate "│" parts ++ "│"

/-- The table as text, without a newline at its end. -/
def render (g : Grid) : String :=
  let widths := g.widths
  String.intercalate "\n" ([rule "╭" "┬" "╮" widths] ++ rowLines widths g.header ++
    [rule "├" "┼" "┤" widths] ++ g.rows.flatMap (rowLines widths) ++ [rule "╰" "┴" "╯" widths])

end Grid

/-- The outline of a file; without symbols there is no table. -/
def symbolsTable (symbols : List DocumentSymbol) : String :=
  if symbols.isEmpty then ""
  else
    Grid.render ⟨["Name", "Kind", "Offset"], symbols.map fun s =>
      [s.name, s.classification.label,
        s.span.start.repr ++ ".." ++ s.span.stop.repr]⟩

/-- Named figures; without any there is no table. -/
def figuresTable (figures : List (String × String)) : String :=
  if figures.isEmpty then ""
  else Grid.render ⟨["Metric", "Value"], figures.map fun f => [f.1, f.2]⟩

end GrammarIndex.Report
