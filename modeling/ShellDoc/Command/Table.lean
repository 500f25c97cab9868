import ShellDoc.Value.Literal

/-!
# Tables

Rows of named cells in columns that are as wide as their widest cell.  The first row names the
columns; a cell that a row does not have is empty.
-/

namespace ShellDoc.Command

/-- The text of a cell. -/
def cell (row : Fields Value) (column : Text) : Text :=
  ((row.get? column).map Value.display).getD []

def columnWidth (rows : List (Fields Value)) (column : Text) : Nat :=
  (rows.map fun r => (cell r column).length).foldl max column.length

/-- One line of cells in their widths. -/
def tableLine (widths : List Nat) (cells : List Text) : Text :=
  Text.join " | " (widths.zipWith Text.padRight cells)

def tableLines (rows : List (Fields Value)) : List Text :=
  match rows with
  | [] => []
  | first :: _ =>
      let columns := first.names
      let widths := columns.map (columnWidth rows)
      tableLine widths columns ::
        Text.join "-+-" (widths.map fun n => List.replicate n '-') ::
          rows.map fun r => tableLine widths (columns.map (cell r))

/-- A table as text; nothing for no rows. -/
def table (rows : List (Fields Value)) : Text := Text.join "\n" (tableLines rows)

end ShellDoc.Command
