import QueryTree.Compile.Row
import QueryTree.Compile.Rendering

/-!
# Writing rows

The column list and the rows of an insert, and the assignments of an update. An insert names the
columns that any of its rows has, in the order they are met, and writes null where a row lacks one.

## Main definitions

* `Emit.insertRows`
* `Emit.assignments`
-/

namespace QueryTree.Emit

/-- Emits texts with a separator between neighbours. The separator follows each text as soon as it
is written. -/
def separated (separator : Text) : List (Emit Text) → Emit Text
  | [] => pure []
  | [m] => m
  | m :: ms => join m separator (separated separator ms)

/-- The distinct columns of the cells of all rows, in the order they are met. -/
def columnsOfRows {μ : Type} (rows : List (Row μ)) : List Column :=
  (rows.flatMap fun r => r.cells.map (·.column)).foldl
    (fun cols c => if cols.contains c then cols else cols ++ [c]) []

/-- Emits the contents of one row for the columns. -/
def rowContents (st : Settings) (cols : List Column) (r : Row) : Emit Text :=
  separated "," (cols.map fun c => match r.content? c with
    | none => pure "NULL"
    | some content => content.emit st c)

/-- Emits the rows of an insert. The rows are written before the column list is put in front of
them. -/
def insertRows (st : Settings) (rows : List Row) : Emit Text := do
  match rows with
  | [] => fail .noColumns
  | first :: _ =>
    match rows.find? fun r => r.entity.type ≠ first.entity.type with
    | some r => fail (.mixedRows first.entity.type r.entity.type)
    | none =>
      let cols := columnsOfRows rows
      if cols.isEmpty then fail .noColumns
      else
        let names := Text.join "," (cols.map fun c => st.ident c.name)
        match st.profile.insert with
        | .values =>
          let t ← separated "," (rows.map fun r => enclose "(" (rowContents st cols r) ")")
          return "(" ++ names ++ ") VALUES " ++ t
        | .selectDual =>
          let t ← separated " UNION ALL "
            (rows.map fun r => enclose "SELECT " (rowContents st cols r) " FROM DUAL")
          return "(" ++ names ++ ") " ++ t

/-- Emits the assignments of an update, each followed by a separator. -/
def assignments (st : Settings) (rows : List Row) : Emit Text :=
  match rows with
  | [r] =>
    concat (r.cells.map fun cell =>
      enclose (st.ident cell.column.name ++ " = ") (cell.content.emit st cell.column)
        itemSeparator)
  | rows => fail (.oneRow rows.length)

end QueryTree.Emit
