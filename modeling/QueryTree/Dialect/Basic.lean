import QueryTree.Text.Class
import QueryTree.Text.Quoted

/-!
# Dialects

The five SQL engines, their names and numbers, and the other spellings under which they are known.
-/

namespace QueryTree

/-- A SQL engine that statements are compiled for. -/
inductive Dialect where
  | sqlServer | mySql | postgres | oracle | sqlite
  deriving DecidableEq, Repr

namespace Dialect

/-- The dialects in the order of their numbers. -/
def all : List Dialect := [sqlServer, mySql, postgres, oracle, sqlite]

/-- The name of a dialect. -/
def name : Dialect → Text
  | sqlServer => "sqlserver"
  | mySql => "mysql"
  | postgres => "postgres"
  | oracle => "oracle"
  | sqlite => "sqlite"

/-- The names of all dialects. -/
def names : List Text := all.map name

/-- The dialect of a number. -/
def ofCode? (n : Int) : Option Dialect := if n < 0 then none else all[n.toNat]?

/-- The number of a dialect. -/
def code (d : Dialect) : Nat := all.idxOf d

/-- The name of the dialect of a number, or the number itself. -/
def nameOfCode (n : Int) : Text :=
  match ofCode? n with
  | some d => d.name
  | none => "dialect(" ++ Text.ofInt n ++ ")"

/-- The spellings by which a dialect is found. -/
def spellings : List (Text × Dialect) :=
  [("mssql", sqlServer), ("sqlserver", sqlServer), ("mysql", mySql), ("postgres", postgres),
    ("postgresql", postgres), ("pg", postgres), ("oracle", oracle), ("sqlite", sqlite),
    ("sqlite3", sqlite)]

/-- The dialect with a spelling, in any case and with blanks around it. -/
def parse? (t : Text) : Option Dialect := spellings.lookup t.trimSpace.toLower

/-- The message for a name that is no spelling of a dialect. -/
def unknownMessage (t : Text) : Text := "exprql: unknown dialect " ++ t.quoted

end Dialect

end QueryTree
