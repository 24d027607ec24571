import ScalarSsa.Text.Width

/-!
# Tables in boxes

**Input.** A header and rows with as many cells.

**Algorithm.** A column is as wide as its widest line.  A cell with line breaks makes its
row several lines high.

**Results.** `table` draws a box around all cells, a double line under the header and dashed
lines between rows.
-/

namespace ScalarSsa
namespace Text

/-- A row of cells. -/
abbrev Row := List String

/-- The lines of a cell. -/
def cellLines (cell : String) : List String :=
  cell.splitOn "\n"

/-- The columns that a cell takes. -/
def cellWidth (cell : String) : Nat :=
  (cellLines cell).foldl (fun widest line => max widest (width line)) 0

/-- The widths of columns that fit a row as well. -/
def fitRow : List Nat → Row → List Nat
  | known :: widths, cell :: row => max known (cellWidth cell) :: fitRow widths row
  | [], row => row.map cellWidth
  | widths, [] => widths

/-- The widths of the columns of all rows. -/
def columnWidths (rows : List Row) : List Nat :=
  rows.foldl fitRow []

/-- A text repeated. -/
def replicateText (n : Nat) (s : String) : String :=
  String.join (List.replicate n s)

/-- A line between rows. -/
def ruler (left fill cross right : String) (widths : List Nat) : String :=
  left ++ cross.intercalate (widths.map fun w => replicateText (w + 2) fill) ++ right

/-- A line of a cell between blanks. -/
def padded (w : Nat) (line : String) : String :=
  " " ++ line ++ replicateText (w - width line) " " ++ " "

/-- The `n`-th line of a row. -/
def rowLine (widths : List Nat) (row : Row) (n : Nat) : String :=
  "│" ++ "┆".intercalate ((widths.zip row).map fun (w, cell) =>
    padded w (((cellLines cell)[n]?).getD "")) ++ "│"

/-- The lines of a row. -/
def rowLines (widths : List Nat) (row : Row) : List String :=
  let height := row.foldl (fun highest cell => max highest (cellLines cell).length) 0
  (List.range height).map (rowLine widths row)

/-- A table in a box. -/
def table (header : Row) (rows : List Row) : String :=
  let widths := columnWidths (header :: rows)
  let dashes := ruler "├" "╌" "┼" "┤" widths
  "\n".intercalate (ruler "┌" "─" "┬" "┐" widths :: rowLines widths header ++
    ruler "╞" "═" "╪" "╡" widths :: [dashes].intercalate (rows.map (rowLines widths)) ++
    [ruler "└" "─" "┴" "┘" widths])

end Text
end ScalarSsa
