import QueryTree.Expr.Basic
import QueryTree.Text.Class

/-!
# Table aliases

The aliases of one statement. A table and a hint always have the same alias; a hint that is taken
already is made unique by a number, and case does not tell aliases apart. Every row parameter is
bound to an alias of its own, so that a table joined to itself stays two sources of rows.

## Main definitions

* `AliasTable.unique`: the first unused one of `name`, `name2`, `name3`, …
* `AliasTable.aliasFor`: the alias of a table and a hint
* `AliasTable.bind`: the alias of a row parameter
-/

namespace QueryTree

/-- The aliases given so far. -/
structure AliasTable where
  /-- The alias of a table and a hint. -/
  pairs : List ((Text × Text) × Text)
  /-- The first alias of a table. -/
  firsts : List (Text × Text)
  /-- The aliases in use, in lower case. -/
  used : List Text
  /-- The aliases of row parameters, by identity. -/
  rows : List (Nat × Text)
  deriving DecidableEq, Repr

namespace AliasTable

/-- No aliases. -/
def empty : AliasTable := ⟨[], [], [], []⟩

/-- The `i`-th candidate for an alias: the name itself, then the name with a number from two. -/
def candidate (name : Text) (i : Nat) : Text :=
  if i = 0 then name else name ++ Text.ofNat (i + 1)

/-- The first candidate that is not used. One more candidate than there are used aliases always
suffices. -/
def firstUnused (used : List Text) (name : Text) : Text :=
  (((List.range (used.length + 1)).map (candidate name)).find?
    fun c => !used.contains c.toLower).getD name

/-- An alias made unique, and the table in which it is used. -/
def unique (a : AliasTable) (name : Text) : Text × AliasTable :=
  let c := firstUnused a.used name
  (c, { a with used := c.toLower :: a.used })

/-- The alias of a table for a hint. Without a hint it is the table's first alias or, if it has
none yet, the table itself. -/
def aliasFor (a : AliasTable) (table hint : Text) : Text × AliasTable :=
  match a.pairs.lookup (table, hint) with
  | some c => (c, a)
  | none =>
    let first := a.firsts.lookup table
    let (c, a) := match hint, first with
      | [], some c => (c, a)
      | [], none => a.unique table
      | hint, _ => a.unique hint
    (c, { a with
      pairs := ((table, hint), c) :: a.pairs
      firsts := if first.isSome then a.firsts else (table, c) :: a.firsts })

/-- The alias of a row parameter. A parameter whose alias another one holds already gets a new
one. -/
def bind (a : AliasTable) (p : Param) (table : Text) : Text × AliasTable :=
  match a.rows.lookup p.id with
  | some c => (c, a)
  | none =>
    let (c, a) := a.aliasFor table p.name
    let (c, a) := if a.rows.any fun (_, d) => d = c then a.unique p.name else (c, a)
    (c, { a with rows := (p.id, c) :: a.rows })

end AliasTable

end QueryTree
