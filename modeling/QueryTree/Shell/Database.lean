import QueryTree.Shell.Plan
import QueryTree.Shell.Table

/-!
# Databases

What is sent to a database and how its answers are shown. Arguments are sent in the few forms that
databases take; the cells of an answer are shown as texts, at most a thousand rows of them.

## Main definitions

* `Database.argument`: the form in which a value is sent
* `Database.cellText?`: the text of a cell
* `Rows.table`: an answer as a table
* `Database.tablesQuery?`, `Rows.names`: the tables of a database
-/

namespace QueryTree.Shell

namespace Database

/-- The form in which a value is sent: integers have 64 bits, numbers are doubles, and what a
pointer points to is sent. -/
def argument : Value → Value
  | .int _ n => .int .int64 n
  | .float _ x => .float false x
  | .nilPtr _ => .nil
  | .ptr _ v => argument v
  | .named _ v => argument v
  | v => v

/-- The text of a cell; none for null. -/
def cellText? : Value → Option Text
  | .nil => none
  | .slice (.int .uint8) items => some (Value.bytesOf items)
  | .time t => some t.rfc3339
  | v => some (v.display .standard)

/-- The name of the driver for databases of a dialect. -/
def driver? : Dialect → Option Text
  | .postgres => some "pgx"
  | .mySql => some "mysql"
  | .sqlite => some "sqlite"
  | .sqlServer | .oracle => none

/-- The query for the tables of a database. -/
def tablesQuery? : Dialect → Option Text
  | .postgres => some ("SELECT table_name FROM information_schema.tables "
      ++ "WHERE table_schema = 'public' ORDER BY table_name")
  | .mySql => some ("SELECT table_name FROM information_schema.tables "
      ++ "WHERE table_schema = DATABASE() ORDER BY table_name")
  | .sqlite => some ("SELECT name FROM sqlite_master "
      ++ "WHERE type = 'table' AND name NOT LIKE 'sqlite_%' ORDER BY name")
  | .sqlServer | .oracle => none

/-- The most rows that are shown. -/
def maxRows : Nat := 1000

end Database

namespace Rows

/-- The texts of the cells of a row, one for each column. -/
def cells (columns : List Text) (row : List Value) : List Text :=
  columns.zipIdx.map fun (_, i) => ((row[i]?).bind Database.cellText?).getD "NULL"

/-- The rows as a table. Rows beyond the first thousand are left out, and so is what went wrong
after them. -/
def table (r : Rows) : Attempt ShellError Text :=
  let cells := (r.rows.take Database.maxRows).map (cells r.columns)
  if r.rows.length ≤ Database.maxRows then
    match r.failure with
    | some m => .fail (.inside "rows" (.reported m))
    | none => (Table.draw r.columns cells).widen
  else do
    let drawn : Text ← (Table.draw r.columns cells).widen
    return drawn ++ "(truncated at " ++ Text.ofNat Database.maxRows ++ " rows)\n"

/-- The name in a row whose only column holds one. -/
def name (columns : List Text) (row : List Value) : Except ShellError Text :=
  match columns with
  | [column] =>
    match row.head?.bind Database.cellText? with
    | some t => .ok t
    | none => .error (.reported ("sql: Scan error on column index 0, name " ++ column.quoted
        ++ ": converting NULL to string is unsupported"))
  | _ => .error (.reported ("sql: expected " ++ Text.ofNat columns.length
      ++ " destination arguments in Scan, not 1"))

/-- The names in rows of one column. -/
def names (r : Rows) : Except ShellError (List Text) := do
  let names ← r.rows.mapM (name r.columns)
  match r.failure with
  | some m => .error (.reported m)
  | none => return names

end Rows

/-- The message about the rows that a statement changed. -/
def Effect.report : Effect → Except ShellError Text
  | .affected n =>
    .ok (if n = 1 then "(1 row affected)\n" else "(" ++ Text.ofInt n ++ " rows affected)\n")
  | .unknown m => .error (.inside "rows affected" (.reported m))

/-- The tables of a database of a dialect. -/
def Database.tables (d : Dialect) : Plan (Except ShellError (List Text)) :=
  match Database.tablesQuery? d with
  | none => .done (.error (.reported ("unsupported dialect: " ++ d.name)))
  | some sql => .query sql [] fun answer =>
    match answer with
    | .error m => .error (.reported m)
    | .ok rows => rows.names

end QueryTree.Shell
