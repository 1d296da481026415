import QueryTree.Attempt
import QueryTree.Text.Class
import QueryTree.Text.Number

/-!
# Tables

Rows of texts drawn as a table. A column is as wide as the longest of its cells in bytes, while
cells are filled up by characters, so columns with other than ASCII text are wider than needed.
-/

namespace QueryTree.Shell.Table

/-- The widths of columns, widened to fit a row; none if the row has too many cells. -/
def widen? : (widths : List Nat) → (row : List Text) → Option (List Nat)
  | widths, [] => some widths
  | [], _ :: _ => none
  | w :: widths, cell :: row => (widen? widths row).map (max w cell.length :: ·)

/-- The line between parts of a table. -/
def rule (widths : List Nat) : Text :=
  let part : Nat → Text := fun w => Text.replicateByte (w + 2) (byte '-') ++ "+"
  "+" ++ widths.flatMap part ++ "\n"

/-- The line of a row. -/
def line (widths : List Nat) (row : List Text) : Text :=
  let part : Nat × Text → Text := fun (w, cell) => " " ++ cell.padRight w ++ " |"
  "|" ++ (widths.zip row).flatMap part ++ "\n"

/-- The number of rows. -/
def count (n : Nat) : Text := if n = 1 then "(1 row)\n" else "(" ++ Text.ofNat n ++ " rows)\n"

/-- A table with its columns and rows. It faults if a row is longer than the columns. -/
def draw (columns : List Text) (rows : List (List Text)) : Attempt Empty Text :=
  if columns.isEmpty then .ok "(0 rows)\n"
  else match rows.foldlM widen? (columns.map List.length) with
    | none => .fault
    | some widths =>
      .ok (rule widths ++ line widths columns ++ rule widths
        ++ rows.flatMap (line widths) ++ rule widths ++ count rows.length)

end QueryTree.Shell.Table
