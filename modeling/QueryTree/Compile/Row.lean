import QueryTree.Compile.Emit
import QueryTree.Expr.Eval

/-!
# Rows to write

An insert writes rows and an update writes one. A row comes from a record of an entity type, from
a record of an unnamed type or a map that stands for the default entity, or from the bindings of a
constructor expression. Only columns that the statement may write are kept, and nil values only
when asked for.

## Main definitions

* `Cell`, `Row`
* `Row.ofValue`: the row that a value holds
* `Row.allOfValue`: the rows that a value or a list of values holds
* `Row.ofBindings`: the row of a constructor expression
-/

namespace QueryTree

/-- What is written into a column: a bound value, or what is emitted. -/
inductive Content (μ : Type := Emit Text) where
  | value (v : Value)
  | computed (m : μ)

/-- One column of a row to write. -/
structure Cell (μ : Type := Emit Text) where
  column : Column
  content : Content μ

/-- A row to write. -/
structure Row (μ : Type := Emit Text) where
  entity : Entity
  cells : List (Cell μ)

/-- Whether a value is nil as a database sees it. -/
def Value.isStoredNil (pre : Prelude) (v : Value) : Bool :=
  match v with
  | .ptr t target =>
    match pre.stored? t with
    | some stored => (match stored target with
      | .nil => true
      | _ => false)
    | none => false
  | v =>
    match v.type?.bind pre.stored? with
    | some stored => (match stored v with
      | .nil => true
      | _ => false)
    | none => v.isNil

namespace Row

variable {μ : Type}

/-- Whether a value is written into a column. -/
def keeps (st : Settings) (writable : Column → Bool) (c : Column) (v : Value) : Bool :=
  writable c && (st.includeNulls || !v.isStoredNil st.pre)

/-- The cells of the columns whose value is written. -/
def cellsOf (st : Settings) (writable : Column → Bool) (values : List (Column × Value)) :
    List (Cell μ) :=
  (values.filter fun (c, v) => keeps st writable c v).map fun (c, v) => ⟨c, .value v⟩

/-- The entity of a type as the target of a row. -/
def target (st : Settings) (t : Option Ty) : Attempt CompileError Entity :=
  match st.entityOf t with
  | .ok e => .ok e
  | .error e => .fail (.mapping e)

/-- The column of a member of an entity. -/
def columnOf (e : Entity) (member : Text) : Attempt CompileError Column :=
  match e.column? member with
  | some c => .ok c
  | none => .fail (.mapping (.noColumn (some e.type) member))

/-- The row of a record of an entity type. -/
def ofRecord (st : Settings) (writable : Column → Bool) (t : Ty) (v : Value) :
    Attempt CompileError (Row μ) :=
  match st.registry.entity (some t) with
  | .error e => .fail (.mapping e)
  | .ok e => .ok ⟨e, cellsOf st writable (e.columns.map fun c => (c, c.read v))⟩

/-- The row of a record of an unnamed type, as a row of the default entity. -/
def ofShape (st : Settings) (writable : Column → Bool) (fields : List (Field Ty))
    (values : List Value) : Attempt CompileError (Row μ) := do
  let e ← target st (some (.record fields))
  let given := (fields.zip values).filter fun (f, _) => f.exported
  let found ← given.mapM fun (f, v) => do return (← columnOf e f.name, v)
  return ⟨e, cellsOf st writable found⟩

/-- The key under which a map holds a column: its member or else its name. Keys that earlier
columns have taken are not looked at again. -/
def keyOf? (entries : List (MapKey × Value)) (c : Column) : Option (MapKey × Value) :=
  (entries.find? fun (k, _) => k = .string c.member)
    <|> entries.find? fun (k, _) => k = .string c.name

/-- The values that a map holds for the columns, in the order of the columns, and the entries
that no column took. -/
def takeEntries : List Column → List (MapKey × Value) →
    List (Column × Value) × List (MapKey × Value)
  | [], entries => ([], entries)
  | c :: cs, entries =>
    match keyOf? entries c with
    | none => takeEntries cs entries
    | some (k, v) =>
      let (taken, left) := takeEntries cs (entries.filter fun (k', _) => k' ≠ k)
      ((c, v) :: taken, left)

/-- The row of a map from member or column names, as a row of the default entity. -/
def ofMap (st : Settings) (writable : Column → Bool) (t : Ty) (entries : List (MapKey × Value)) :
    Attempt CompileError (Row μ) := do
  match t.under with
  | .map key _ =>
    if key.under ≠ .string then .fail .mapKeys
    else
      let e ← target st (some t)
      match takeEntries e.columns entries with
      | (taken, []) => return ⟨e, cellsOf st writable taken⟩
      | (_, (.string k, _) :: _) => .fail (.mapping (.noColumn (some e.type) k))
      | (_, (.int _, _) :: _) => .fail .mapKeys
  | _ => .fail .mapKeys

/-- The row that a value behind pointers holds. -/
def ofValue (st : Settings) (writable : Column → Bool) (v : Value) : Attempt CompileError (Row μ) :=
  let v := v.deref
  match v.type? with
  | none => .fail .missingRow
  | some t =>
    match v.under with
    | .nil | .nilPtr _ => .fail .missingRow
    | .map _ _ entries => ofMap st writable t entries
    | .nilMap .. => ofMap st writable t []
    | .record fields values =>
      if st.registry.isAnonymous (some t) then ofShape st writable fields values
      else ofRecord st writable t v
    | .time _ => ofRecord st writable t v
    | _ => .fail (.notARow t)

/-- The rows that a value holds: one for every element of a list, which pointers may lead to, else
one. -/
def allOfValue (st : Settings) (writable : Column → Bool) (v : Value) :
    Attempt CompileError (List (Row μ)) :=
  match v.listed? with
  | some items => items.mapM (ofValue st writable)
  | none => do return [← ofValue st writable v]

/-- The row that bindings describe. A binding that depends on a row is emitted, every other one is
bound as a value. -/
def ofBindings (st : Settings) (writable : Column → Bool) (t : Option Ty)
    (bindings : List (Text × Expr × μ)) : Attempt CompileError (Row μ) := do
  let e ← target st t
  let cells ← bindings.mapM fun (name, expr, m) => do
    let c ← columnOf e name
    if !expr.isClosed then
      return if writable c then [⟨c, .computed m⟩] else []
    else
      let v ← (expr.eval st.pre).mapError (.boundMember name)
      return cellsOf st writable [(c, v)]
  return ⟨e, cells.flatten⟩

/-- The content that a row writes into a column. -/
def content? (r : Row μ) (c : Column) : Option (Content μ) :=
  (r.cells.find? fun cell => cell.column = c).map (·.content)

end Row

/-- Emits the content of a column. -/
def Content.emit (st : Settings) (c : Column) : Content → Emit Text
  | .value v => .placeholder st v c.dataType
  | .computed m => do
    Emit.setPending c.dataType
    let t ← tryCatch m fun h => do
      if let .error _ := h.cause then Emit.setPending []
      throw h
    Emit.setPending []
    return t

end QueryTree
