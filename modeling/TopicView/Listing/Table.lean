import TopicView.Text.Width

/-!
# Tables

Cells in columns, each as wide as its widest line, with a rule above and below every row.  A cell
may have several lines.
-/

namespace TopicView.Table

/-- The lines of a cell. -/
abbrev Cell := List (List Char)

def cellWidth (cell : Cell) : Nat := (cell.map Text.lineWidth).foldl max 0

/-! ## Columns -/

/-- The widths of the columns, at least as wide as the ones given. -/
def widen (widths : List Nat) (row : List Cell) : List Nat :=
  List.zipWith max widths (row.map cellWidth)

/-! ## Lines -/

def rule (widths : List Nat) : List Char :=
  '+' :: widths.flatMap fun w ↦ List.replicate (w + 2) '-' ++ ['+']

/-- A line of a cell at the left of its column, with a blank on each side. -/
def place (width : Nat) (line : List Char) : List Char :=
  ' ' :: line ++ List.replicate (width - Text.lineWidth line) ' ' ++ [' ', '|']

/-- The `i`-th line of a row; cells that have fewer lines stay empty there. -/
def rowLine (widths : List Nat) (row : List Cell) (i : Nat) : List Char :=
  '|' :: (List.zipWith (fun w (cell : Cell) ↦ place w (cell[i]?.getD [])) widths row).flatten

def rowLines (widths : List Nat) (row : List Cell) : List (List Char) :=
  (List.range ((row.map List.length).foldl max 1)).map (rowLine widths row)

/-- The lines of a table with a row of titles on top. -/
def render (titles : List String) (rows : List (List String)) : List String :=
  let cells := (titles :: rows).map fun row ↦ row.map fun text ↦ text.toList.splitOn '\n'
  let widths := cells.foldl widen (titles.map fun _ ↦ 0)
  (rule widths :: cells.flatMap fun row ↦ rowLines widths row ++ [rule widths]).map String.ofList

end TopicView.Table
