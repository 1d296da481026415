import QueryTree.Compile.Draft
import QueryTree.Expr.Build
import QueryTree.Sample.Functions
import QueryTree.Statement.Basic

/-!
# Sample conditions

Conditions on a row of customers, to compile alone and in statements.

## Main definitions

* `Sample.customerRow`: the row
* `Sample.hasName`, `Sample.hasAge`, `Sample.isActive`: conditions on it
* `Sample.customersWith`: the selection of the customers that meet conditions
* `Sample.whereText?`: what a condition compiles to
* `Sample.selection?`: what a select list compiles to
-/

namespace QueryTree.Sample

/-- A row of customers. -/
def customerRow : Param := ⟨1, "c", some customer⟩

/-- The row has the name. -/
def hasName (name : Text) : Expr :=
  .binary .equal (.field customerRow "Name") (.value (.string name))

/-- The row has the age. -/
def hasAge (age : Int) : Expr :=
  .binary .equal (.field customerRow "Age") (.value (.int .int age))

/-- The row is active. -/
def isActive : Expr := .field customerRow "Active"

/-- All columns of the customers that meet the conditions. -/
def customersWith (conds : List Expr) : Select :=
  { source := some customerRow, joins := [], projection := .hole, distinct := false,
    wheres := conds, groups := [], havings := [], orders := [], limit := -1, offset := 0 }

/-- What a condition compiles to in a draft of its own, if it compiles. -/
def whereText? (st : Settings) (e : Expr) : Option Text :=
  match (Draft.new st).compile e .where_ [] with
  | (d, .ok ()) => some d.text
  | _ => none

theorem compile_of_whereText? {st : Settings} {e : Expr} {t : Text} (h : whereText? st e = some t) :
    ∃ d, (Draft.new st).compile e .where_ [] = (d, .ok ()) ∧ d.text = t := by
  unfold whereText? at h
  split at h
  · rename_i d hd
    cases h
    exact ⟨d, hd, rfl⟩
  · cases h

/-- What a select list compiles to in a draft of its own, if it compiles: its text and the items
that are recorded. -/
def selection? (e : Expr) : Option (Text × List Text) :=
  match (Draft.new (.standard .sqlServer world)).compile e .select [] with
  | (d, .ok ()) => some (d.text, d.slate.fields)
  | _ => none

theorem compile_of_selection? {e : Expr} {t : Text} {fields : List Text}
    (h : selection? e = some (t, fields)) :
    ∃ d, (Draft.new (.standard .sqlServer world)).compile e .select [] = (d, .ok ()) ∧
      d.text = t ∧ d.slate.fields = fields := by
  unfold selection? at h
  split at h
  · rename_i d hd
    cases h
    exact ⟨d, hd, rfl, rfl⟩
  · cases h

end QueryTree.Sample
