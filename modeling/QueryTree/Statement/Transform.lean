import QueryTree.Statement.Basic
import QueryTree.Statement.Error

/-!
# Transforms

A transform alters statements before they are compiled, or refuses them. Soft deletion hides the
rows whose deletion mark is set; a policy adds the conditions that it has for each table a
statement reads or changes.

## Main definitions

* `SoftDelete`, `Policy`, `Transform`
* `Transform.select`, `Transform.insert`, `Transform.update`, `Transform.delete`
-/

namespace QueryTree

/-- Soft deletion: rows count only while the member that marks them as deleted is null. -/
structure SoftDelete where
  /-- The marking member. -/
  field : Text
  /-- The marking members of single tables. -/
  overrides : List (Text × Text)
  /-- The tables it is restricted to, if it is. -/
  tables : Option (List Text)
  registry : Registry

/-- A policy: the conditions on the rows of a table, or a refusal. -/
structure Policy where
  rules : Text → Except Refusal (List Expr)
  registry : Registry

/-- Something that alters statements. -/
inductive Transform where
  /-- Leaves every statement alone. -/
  | identity
  /-- Refuses every statement. -/
  | refuse (cause : Refusal)
  | softDelete (s : SoftDelete)
  | policy (p : Policy)

namespace SoftDelete

/-- Soft deletion on the member `DeletedAt` of every table that has it. -/
def standard (r : Registry) : SoftDelete := ⟨"DeletedAt", [], none, r⟩

/-- Whether the table is one it applies to. -/
def appliesTo (s : SoftDelete) (table : Text) : Bool :=
  match s.tables with
  | none => true
  | some tables => tables.contains table

/-- The member that marks the rows of a table. -/
def fieldOf (s : SoftDelete) (table : Text) : Text := (s.overrides.lookup table).getD s.field

/-- The soft deletion restricted to tables, in place of earlier restrictions. -/
def onTables (s : SoftDelete) (tables : List Text) : SoftDelete := { s with tables := some tables }

/-- The soft deletion with the member of one more table, which it then applies to. -/
def withTableField (s : SoftDelete) (table field : Text) : SoftDelete :=
  { s with
    overrides := (table, field) :: s.overrides.filter fun (t, _) => t ≠ table
    tables := some (s.tables.getD [] ++ [table]) }

end SoftDelete

/-- The row parameters whose type has a table, with their entities. -/
def mappedRows (r : Registry) (rows : List Param) : List (Param × Entity) :=
  rows.filterMap fun p =>
    if r.isAnonymous p.type then none
    else match r.entity p.type with
      | .ok e => some (p, e)
      | .error _ => none

/-- The conditions that hide deleted rows. -/
def SoftDelete.conditions (s : SoftDelete) (rows : List Param) : List Expr :=
  (mappedRows s.registry rows).filterMap fun (p, e) =>
    let field := s.fieldOf e.table
    if s.appliesTo e.table && (e.column? field).isSome then
      some (.binary .equal (.field p field) .null)
    else none

/-- A condition of a policy for a row: a lambda of one parameter is applied to the row. -/
def Policy.apply (p : Param) : Expr → Expr
  | .lambda body [q] => .invoke (.lambda body [q]) [.param p]
  | e => e

/-- The conditions that a policy adds for rows. -/
def Policy.conditions (pol : Policy) (rows : List Param) : Except StatementError (List Expr) := do
  let conds ← (mappedRows pol.registry rows).mapM fun (p, e) =>
    match pol.rules e.table with
    | .ok conds => .ok (conds.map (Policy.apply p))
    | .error r =>
      .error (.refused { r with message := "policy " ++ e.table ++ ": " ++ r.message })
  return conds.flatten

namespace Transform

/-- The transformed selection. -/
def select (s : Select) : Transform → Except StatementError Select
  | identity => .ok s
  | refuse r => .error (.refused r)
  | softDelete d => .ok { s with wheres := s.wheres ++ d.conditions s.rows }
  | policy p => do return { s with wheres := s.wheres ++ (← p.conditions s.rows) }

/-- The transformed insertion. -/
def insert (s : Insert) : Transform → Except StatementError Insert
  | refuse r => .error (.refused r)
  | identity | softDelete _ | policy _ => .ok s

/-- The transformed update. -/
def update (s : Update) : Transform → Except StatementError Update
  | refuse r => .error (.refused r)
  | identity | softDelete _ => .ok s
  | policy p => do return { s with wheres := s.wheres ++ (← p.conditions s.target.toList) }

/-- The transformed deletion. -/
def delete (s : Delete) : Transform → Except StatementError Delete
  | refuse r => .error (.refused r)
  | identity | softDelete _ => .ok s
  | policy p => do return { s with wheres := s.wheres ++ (← p.conditions s.source.toList) }

end Transform

end QueryTree
