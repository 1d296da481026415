import QueryTree.Compile.Method

/-!
# Rows, shapes, lists and functions

The rules for expressions that are more than one value: a row parameter stands for all its
columns, a shape for its members, and a list for its items. A lambda stands for its body, and an
invocation for the body of the lambda it invokes with the arguments put in.

## Main definitions

* `Rendering.param`, `Rendering.shape`, `Rendering.items`
* `Rendering.lambda`, `Rendering.invocation`
-/

namespace QueryTree.Rendering

/-- Emits all columns of a row as a select item. -/
def allColumns (st : Settings) (p : Param) : Emit Text := do
  let (_, name) ← Emit.row st p
  let t : Text := if st.singleTable then "*" else st.ident name ++ ".*"
  Emit.addField t
  return t ++ itemSeparator

/-- The rendering of a row parameter. -/
def param (st : Settings) (p : Param) : Rendering :=
  { unsupported st (.param p) with
    argument := fun clause =>
      if clause = .count then pure "*" else Emit.fail (.construct .parameter clause)
    projection := allColumns st p }

/-- Emits the members of a shape as select items. -/
def memberItems (st : Settings) (bindings : List (Text × Rendering)) : Emit Text :=
  Emit.concat (bindings.map fun (name, e) => match e.expr.unquote with
    | .param p => allColumns st p
    | _ => Emit.selectItem st (e.value .select) name)

/-- The row that the members of a shape describe. -/
def shapeRow {μ ν : Type} (st : Settings) (type : Option Ty)
    (bindings : List (Text × Rendering μ ν)) (clause : Clause) (writable : Column → Bool) :
    Attempt CompileError (List (Row μ)) := do
  let bindings := bindings.map fun (name, e) => (name, e.expr, e.value clause)
  return [← Row.ofBindings st writable type bindings]

/-- The rendering of a shape or record constructor. -/
def shape (st : Settings) (whole : Expr) (type : Option Ty) (bindings : List (Text × Rendering)) :
    Rendering :=
  { unsupported st whole with
    projection := memberItems st bindings
    listing := fun clause => Emit.listings (bindings.map fun (_, e) => e.listing clause)
    row := shapeRow st type bindings
    rows := shapeRow st type bindings }

/-- Emits items as the list of a membership test. Each takes the pending declared type. -/
def memberList (items : List Rendering) : Emit Text := do
  let t ← Emit.pending
  let item := fun e : Rendering => do
    Emit.setPending t
    e.value .in_
  match items with
  | [] => return "(NULL)"
  | first :: rest =>
    let list := (rest.map item).foldl (fun done m => Emit.join done "," m) (item first)
    let t ← Emit.after "(" list
    Emit.setPending []
    return "(" ++ t ++ ")"

/-- The rendering of a list or array of items. An update takes no list of rows. -/
def items (st : Settings) (whole : Expr) (items : List Rendering) : Rendering :=
  { unsupported st whole with
    members := memberList items
    projection := Emit.concat (items.map (·.projection))
    listing := fun clause => Emit.listings (items.map fun e => e.listing clause)
    rows := fun clause writable =>
      if clause = .insert then do
        return (← items.mapM fun e => e.row clause writable).flatten
      else noRows whole clause writable }

/-- The rendering of a lambda. -/
def lambda {μ ν : Type} (st : Settings) (body : Rendering μ ν) (params : List Param) :
    Rendering μ ν :=
  let whole := Expr.lambda body.expr params
  { body with
    expr := whole
    row := fun _ writable => rowsOfValue st whole writable
    addends := [body.value] }

/-- Emits by the rendering of an inlined body, if there is one. -/
def emitInlined {α : Type} (body : Unit → Except Expr.InlineError Rendering)
    (f : Rendering → Emit α) : Emit α :=
  match body () with
  | .ok r => f r
  | .error e => Emit.fail (.invocation e)

/-- The rendering of an invocation: that of the inlined body, which is only worked out in the
position where it is asked for. -/
def invocation (st : Settings) (whole : Expr) (body : Unit → Except Expr.InlineError Rendering) :
    Rendering :=
  let value := fun clause => emitInlined body (·.value clause)
  { expr := whole
    value := value
    condition := fun clause => emitInlined body (·.condition clause)
    members := emitInlined body (·.members)
    argument := fun clause => emitInlined body (·.argument clause)
    projection := emitInlined body (·.projection)
    listing := fun clause ds => emitInlined body (·.listing clause ds)
    row := fun _ writable => rowsOfValue st whole writable
    rows := fun clause writable => match body () with
      | .ok r => r.rows clause writable
      | .error e => .fail (.invocation e)
    addends := [value] }

end QueryTree.Rendering
