import QueryTree.Text.Number

/-!
# Clauses

The positions of a statement that an expression is compiled for, by name and by number, and the
directions of an ordering. A number that names no clause is kept, so that messages can show it.

## Main definitions

* `Clause` with `ofCode`, `name`
* `Clause.isAggregate`, `Clause.function`
* `Direction`
-/

namespace QueryTree

/-- A position of a statement. -/
inductive Clause where
  | select | insert | update | where_ | join | in_ | groupBy | having | orderBy
  | max | min | avg | sum | count
  /-- A number that names no clause. -/
  | unknown (code : Int)
  deriving DecidableEq, Repr

namespace Clause

/-- The clauses in the order of their numbers. -/
def all : List Clause :=
  [select, insert, update, where_, join, in_, groupBy, having, orderBy, max, min, avg, sum, count]

/-- The clause of a number. -/
def ofCode (n : Int) : Clause :=
  if n < 0 then unknown n else (all[n.toNat]?).getD (unknown n)

/-- The name of a clause. -/
def name : Clause → Text
  | select => "Select" | insert => "Insert" | update => "Update" | where_ => "Where"
  | join => "Join" | in_ => "In" | groupBy => "GroupBy" | having => "Having"
  | orderBy => "OrderBy" | max => "Max" | min => "Min" | avg => "Avg" | sum => "Sum"
  | count => "Count"
  | unknown n => "Clause(" ++ Text.ofInt n ++ ")"

/-- The clause of a name. -/
def ofName? (t : Text) : Option Clause := all.find? fun c => c.name = t

/-- Whether the clause is the argument of an aggregate function. -/
def isAggregate : Clause → Bool
  | max | min | avg | sum | count => true
  | _ => false

/-- Whether the clause holds a condition on rows. -/
def isCondition : Clause → Bool
  | where_ | join | having => true
  | _ => false

/-- The SQL function of an aggregate clause; empty for the others. -/
def function : Clause → Text
  | max => "MAX" | min => "MIN" | avg => "AVG" | sum => "SUM" | count => "COUNT"
  | _ => ""

end Clause

/-- A direction of an ordering. -/
inductive Direction where
  | asc | desc
  deriving DecidableEq, Repr

namespace Direction

/-- The keyword of a direction. -/
def keyword : Direction → Text
  | asc => "ASC"
  | desc => "DESC"

/-- The direction of a number: one is descending, all others are ascending. -/
def ofCode (n : Int) : Direction := if n = 1 then desc else asc

end Direction

end QueryTree
