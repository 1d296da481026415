import QueryTree.Compile.Clause
import QueryTree.Expr.Build

/-!
# Statements

What a statement reads or writes, before it is compiled for a dialect: selections over the rows of
one or more parameters, insertions, updates and deletions.

## Main definitions

* `JoinKind`, `Join`, `Select`
* `Insert`, `Update`, `Delete`
* `Select.page`, `Select.rows`
-/

namespace QueryTree

/-- The flavour of a join. -/
inductive JoinKind where
  | inner | left | right | full
  deriving DecidableEq, Repr

/-- The keywords of a join. -/
def JoinKind.keywords : JoinKind → Text
  | inner => "INNER JOIN"
  | left => "LEFT JOIN"
  | right => "RIGHT JOIN"
  | full => "FULL JOIN"

/-- The flavour of a number; numbers out of range are inner joins. -/
def JoinKind.ofCode (n : Int) : JoinKind :=
  if n = 1 then left else if n = 2 then right else if n = 3 then full else inner

/-- The rows of a parameter joined on a condition. -/
structure Join where
  kind : JoinKind
  row : Option Param
  condition : Expr

/-- A selection. Expressions that are not given are holes, and a negative limit bounds nothing. -/
structure Select where
  source : Option Param
  joins : List Join
  projection : Expr
  distinct : Bool
  wheres : List Expr
  groups : List Expr
  havings : List Expr
  orders : List (Expr × List Direction)
  limit : Int
  offset : Int

/-- An insertion of rows into the table of an entity. -/
structure Insert where
  target : Option Param
  values : List Expr
  includeNulls : Bool

/-- An update of the rows that satisfy conditions. -/
structure Update where
  target : Option Param
  assigned : Expr
  wheres : List Expr
  includeNulls : Bool

/-- A deletion of the rows that satisfy conditions, or have the key of one of the entities. -/
structure Delete where
  source : Option Param
  wheres : List Expr
  byKey : List Value

/-- Several items as the one expression a clause compiles: nothing, the item, or a list. -/
def Expr.ofItems : List Expr → Expr
  | [] => .hole
  | [e] => e
  | items => .array none items

namespace Select

/-- The selection of all rows of a parameter. -/
def all (source : Option Param) : Select :=
  ⟨source, [], .hole, false, [], [], [], [], -1, 0⟩

/-- The selection with its projection replaced. -/
def project (s : Select) (items : List Expr) : Select := { s with projection := .ofItems items }

/-- The selection with one more join. -/
def addJoin (s : Select) (j : Join) : Select := { s with joins := s.joins ++ [j] }

/-- The selection of page `index`, from zero, of the given size. The offset is a 64-bit word. -/
def page (s : Select) (size index : Int) : Select :=
  { s with limit := size, offset := IntKind.int.wrap (size * max index 0) }

/-- The row parameters of the selection in order. -/
def rows (s : Select) : List Param := s.source.toList ++ s.joins.filterMap (·.row)

end Select

end QueryTree
