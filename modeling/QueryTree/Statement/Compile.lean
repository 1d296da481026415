import QueryTree.Compile.Draft
import QueryTree.Statement.Transform

/-!
# Compiling statements

The SQL of a statement: its transforms are applied in order, then its clauses are written one
after the other. Aliases are bound in the order of the tables before any column is written.

## Main definitions

* `Select.compile`, `Insert.compile`, `Update.compile`, `Delete.compile`
* `Select.compileAggregate`: a selection of one aggregate
* `keyCondition?`: the condition that a row has the key of an entity
* `Statement`, `Statement.compile`: statements of any kind
-/

namespace QueryTree

namespace Draft

/-- Appends an expression compiled for a clause. -/
def clause (d : Draft) (e : Expr) (c : Clause) (directions : List Direction) :
    Attempt StatementError Draft :=
  match d.compile e c directions with
  | (d, .ok ()) => .ok d
  | (_, .error (.error e)) => .fail (.compile e)
  | (_, .error .fault) => .fault

/-- Binds a row parameter that must be given. -/
def source (d : Draft) (p : Option Param) : Attempt StatementError (Entity × Text × Draft) :=
  match p with
  | none => .fault
  | some p =>
    match d.bindRow p with
    | (.ok (e, name), d) => .ok (e, name, d)
    | (.error e, _) => .fail (.compile (.mapping e))

/-- Appends a keyword and the conjunction of conditions, unless it emits nothing. -/
def conditions (d : Draft) (keyword : Text) (conds : List Expr) (c : Clause) :
    Attempt StatementError Draft :=
  if conds.isEmpty then .ok d
  else do
    let marked := d.write keyword
    let d' ← marked.clause (.allOf conds) c []
    return if d'.text.length = marked.text.length then { d' with text := d.text } else d'

end Draft

/-- A statement after all transforms, applied in order. -/
def transformAll {σ : Type} (f : σ → Transform → Except StatementError σ) (ts : List Transform)
    (s : σ) : Attempt StatementError σ :=
  match ts.foldlM f s with
  | .ok s => .ok s
  | .error e => .fail e

/-! ### Selections -/

namespace Select

/-- Binds the joined rows and returns how their tables are written. -/
def joinRefs (d : Draft) : List Join → Attempt StatementError (List Text × Draft)
  | [] => .ok ([], d)
  | j :: js => do
    let (e, name, d) ← d.source j.row
    let (refs, d) ← joinRefs d js
    return (d.settings.tableRef e.table name :: refs, d)

/-- Appends the joins. A condition that emits nothing is written as one that always holds. -/
def writeJoins (d : Draft) : List (Join × Text) → Attempt StatementError Draft
  | [] => .ok d
  | (j, ref) :: js => do
    let d := d.write (" " ++ j.kind.keywords ++ " " ++ ref ++ " ON ")
    let d' ← if j.condition.isHole then .ok d else d.clause j.condition .join []
    writeJoins (if d'.text.length = d.text.length then d'.write "1 = 1" else d') js

/-- Appends the orderings, separated by commas. -/
def writeOrders (d : Draft) : (first : Bool) → List (Expr × List Direction) →
    Attempt StatementError Draft
  | _, [] => .ok d
  | first, (e, directions) :: rest => do
    let d := if first then d else d.write ", "
    writeOrders (← d.clause e .orderBy directions) false rest

/-- Appends the limit and offset, if there are any. -/
def writePage (s : Select) (d : Draft) : Draft :=
  if s.limit ≥ 0 || s.offset > 0 then
    let p := d.settings.profile
    let d := if p.pagingNeedsOrder && s.orders.isEmpty then d.write " ORDER BY (SELECT NULL)" else d
    d.write (" " ++ p.page s.limit s.offset)
  else d

/-- Appends a selection. -/
def write (s : Select) (d : Draft) : Attempt StatementError Draft := do
  if s.source.isNone then .fail (.compile (.mapping .noFrom))
  else
    let (e, name, d) ← d.source s.source
    let (refs, d) ← joinRefs d s.joins
    let d := d.write (if s.distinct then "SELECT DISTINCT " else "SELECT ")
    let d ← d.clause s.projection .select []
    let d := d.write (" FROM " ++ d.settings.tableRef e.table name)
    let d ← writeJoins d (s.joins.zip refs)
    let d ← d.conditions " WHERE " s.wheres .where_
    let d ← if s.groups.isEmpty then .ok d
      else (d.write " GROUP BY ").clause (.ofItems s.groups) .groupBy []
    let d ← d.conditions " HAVING " s.havings .having
    let d ← if s.orders.isEmpty then .ok d
      else writeOrders (d.write " ORDER BY ") true s.orders
    return s.writePage d

/-- The SQL of a selection. -/
def compile (s : Select) (ts : List Transform) (st : Settings) : Attempt StatementError Draft := do
  let s ← transformAll Transform.select ts s
  s.write (.new st)

/-- The call of an aggregate function on a target, which may be missing when rows are counted. -/
def aggregateCall (fn : Clause) (target : Expr) : Expr :=
  if fn = .count && target.isHole then .staticOf fn.name [] else .staticOf fn.name [target]

/-- The SQL of a selection whose projection is replaced by an aggregate. -/
def compileAggregate (s : Select) (fn : Clause) (target : Expr) (ts : List Transform)
    (st : Settings) : Attempt StatementError Draft := do
  if !fn.isAggregate then .fail (.notAggregate fn)
  else
    let s ← transformAll Transform.select ts s
    { s with projection := aggregateCall fn target }.write (.new st)

end Select

/-! ### Insertions, updates and deletions -/

/-- The condition that a row has the key of an entity; none if the entity declares no key. -/
def keyCondition? (e : Entity) (p : Param) (v : Value) : Option Expr :=
  if e.keys.isEmpty then none
  else some (.allOf (e.keys.map fun k =>
    .binary .equal (.field p k.member) (.value (k.read v))))

/-- The SQL of an insertion. Rows of unnamed types are rows of the target. -/
def Insert.compile (s : Insert) (ts : List Transform) (st : Settings) :
    Attempt StatementError Draft := do
  let s ← transformAll Transform.insert ts s
  let st := { st with
    defaultType := s.target.bind fun p => p.type.map Ty.indirect
    includeNulls := s.includeNulls }
  let (e, _, d) ← (Draft.new st).source s.target
  let d := d.write ("INSERT INTO " ++ st.ident e.table ++ " ")
  d.clause (.ofItems s.values) .insert []

/-- The update restricted to the key of the entity it assigns, if it assigns one and has no
condition of its own. -/
def Update.keyed (s : Update) (e : Entity) (p : Param) : Attempt StatementError Update :=
  match s.wheres, s.assigned with
  | [], .const v _ =>
    if v.type?.map Ty.indirect = some e.type then
      match keyCondition? e p v with
      | none => .fail (.noKey e.type)
      | some c => .ok { s with wheres := [c] }
    else .ok s
  | _, _ => .ok s

/-- The SQL of an update. -/
def Update.compile (s : Update) (ts : List Transform) (st : Settings) :
    Attempt StatementError Draft := do
  match s.target with
  | none => .fault
  | some p =>
    let st := { st with
      defaultType := p.type.map Ty.indirect
      includeNulls := s.includeNulls
      singleTable := true }
    let (e, _, d) ← (Draft.new st).source (some p)
    let s ← s.keyed e p
    let s ← transformAll Transform.update ts s
    let d := d.write ("UPDATE " ++ st.ident e.table ++ " SET ")
    let d ← d.clause s.assigned .update []
    d.conditions " WHERE " s.wheres .where_

/-- The condition that a row has the key of one of the entities. -/
def Delete.keyConditions (s : Delete) (e : Entity) (p : Param) :
    Attempt StatementError (List Expr) :=
  s.byKey.mapM fun v =>
    if v.type?.map Ty.indirect ≠ some e.type then .fail (.foreignKeyValue v.type? e.type)
    else match keyCondition? e p v with
      | none => .fail (.noKey e.type)
      | some c => .ok c

/-- The deletion restricted to the keys of its entities, if it has any. -/
def Delete.keyed (s : Delete) (e : Entity) (p : Param) : Attempt StatementError Delete :=
  if s.byKey.isEmpty then .ok s
  else do
    let conds ← s.keyConditions e p
    return { s with wheres := s.wheres ++ [.anyOf conds] }

/-- The SQL of a deletion. -/
def Delete.compile (s : Delete) (ts : List Transform) (st : Settings) :
    Attempt StatementError Draft := do
  match s.source with
  | none => .fault
  | some p =>
    let st := { st with singleTable := true }
    let (e, _, d) ← (Draft.new st).source (some p)
    let s ← s.keyed e p
    let s ← transformAll Transform.delete ts s
    let d := d.write ("DELETE FROM " ++ st.ident e.table)
    d.conditions " WHERE " s.wheres .where_

/-! ### Any statement -/

/-- A statement of any kind. -/
inductive Statement where
  | select (s : Select)
  /-- A selection whose projection is an aggregate of a target. -/
  | aggregate (s : Select) (fn : Clause) (target : Expr)
  | insert (s : Insert)
  | update (s : Update)
  | delete (s : Delete)

/-- The SQL of a statement. -/
def Statement.compile (s : Statement) (ts : List Transform) (st : Settings) :
    Attempt StatementError Draft :=
  match s with
  | select s => s.compile ts st
  | aggregate s fn target => s.compileAggregate fn target ts st
  | insert s => s.compile ts st
  | update s => s.compile ts st
  | delete s => s.compile ts st

end QueryTree
