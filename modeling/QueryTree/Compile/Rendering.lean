import QueryTree.Compile.Row

/-!
# Renderings

An expression can stand in many positions of a statement, and each position has rules of its own.
The rendering of an expression holds what it emits in every position. Renderings are built from
the renderings of the operands, so each construct of the language is one function on renderings,
and compiling is a fold over the tree.

Expressions that depend on no row are folded: in a position that takes values they stand for the
constant they evaluate to.

## Main definitions

* `Rendering`
* `Expr.folded?`: the value that an expression without rows stands for
* `Rendering.unsupported`: an expression that no position takes
-/

namespace QueryTree

/-- What an expression emits in each position. Clauses are those that messages name. -/
structure Rendering (μ : Type := Emit Text) (ν : Type := Emit (Text × List Direction)) where
  /-- The expression itself. -/
  expr : Expr
  /-- As a value. -/
  value : Clause → μ
  /-- As a condition; one that always holds emits nothing. -/
  condition : Clause → μ
  /-- As the list of a membership test. -/
  members : μ
  /-- As the argument of an aggregate function. -/
  argument : Clause → μ
  /-- As a select list, every item followed by a separator. -/
  projection : μ
  /-- As a group or order list, with the directions of the items still to come, and those left. -/
  listing : Clause → List Direction → ν
  /-- As one row in a list of rows. -/
  row : (clause : Clause) → (writable : Column → Bool) → Attempt CompileError (List (Row μ))
  /-- As all rows of an insert or update. -/
  rows : (clause : Clause) → (writable : Column → Bool) → Attempt CompileError (List (Row μ))
  /-- The operands of nested additions, as values. -/
  addends : List (Clause → μ)

/-- What separates the items of a list. -/
def itemSeparator : Text := ", "

namespace Expr

/-- Whether the expression is of a kind that is folded. -/
def isFoldable : Expr → Bool
  | member .. | binary .. | unary .. | cond .. => true
  | call receiver method _ _ _ => !(receiver.isHole && isAggregateName method)
  | _ => false

/-- The value that an expression without rows stands for, if it has one. -/
def folded? (pre : Prelude) (e : Expr) : Attempt Empty (Option Value) :=
  if e.isFoldable && e.isClosed then
    match e.eval pre with
    | .ok v => .ok (some v)
    | .error (.error _) => .ok none
    | .error .fault => .fault
  else .ok none

/-- The truth value that a test without rows stands for, if it is one. -/
def closedTruth? (pre : Prelude) (e : Expr) : Attempt Empty (Option Bool) :=
  if e.isClosed then
    match e.eval pre with
    | .ok v => .ok v.truth
    | .error (.error _) => .ok none
    | .error .fault => .fault
  else .ok none

end Expr

namespace Emit

/-- Emits by the rule for constants if the expression folds to one, else by its own rule. -/
def folding {α : Type} (st : Settings) (e : Expr) (constant : Value → Emit α) (own : Emit α) :
    Emit α := do
  match ← ofAttempt (e.folded? st.pre).widen with
  | some v => constant v
  | none => own

/-- Refuses an expression of a kind in a clause. -/
def unsupported {α : Type} (e : Expr) (clause : Clause) : Emit α :=
  match e.kind? with
  | some k => fail (.construct k clause)
  | none => fault

/-- Emits a condition that always has a text. -/
def stated (m : Emit Text) : Emit Text := do
  let t ← m
  return if t.isEmpty then "1 = 1" else t

/-- Emits a condition as the value one or zero. -/
def truthCase (m : Emit Text) : Emit Text := enclose "CASE WHEN " (stated m) " THEN 1 ELSE 0 END"

end Emit

namespace Rendering

/-- The rows that the value of an expression holds. -/
def rowsOfValue {μ : Type} (st : Settings) (e : Expr) (writable : Column → Bool) :
    Attempt CompileError (List (Row μ)) :=
  match e.eval st.pre, e.kind? with
  | .ok v, _ => Row.allOfValue st writable v
  | .error (.error cause), some k => .fail (.rowWithoutValue k cause)
  | .error _, _ => .fault

/-- An expression of which no rows are written directly, after folding. -/
def foldedRows {μ : Type} (st : Settings) (e : Expr)
    (own : Clause → (Column → Bool) → Attempt CompileError (List (Row μ))) (clause : Clause)
    (writable : Column → Bool) : Attempt CompileError (List (Row μ)) := do
  match ← (e.folded? st.pre).widen with
  | some v => Row.allOfValue st writable v
  | none => own clause writable

/-- Refuses the rows of an expression. -/
def noRows {μ : Type} (e : Expr) (clause : Clause) (_ : Column → Bool) :
    Attempt CompileError (List (Row μ)) :=
  match e.kind? with
  | some k => .fail (.construct k clause)
  | none => .fault

/-- An expression that no position takes. -/
def unsupported (st : Settings) (e : Expr) : Rendering :=
  { expr := e
    value := Emit.unsupported e
    condition := Emit.unsupported e
    members := Emit.unsupported e .in_
    argument := Emit.unsupported e
    projection := Emit.unsupported e .select
    listing := fun clause _ => Emit.unsupported e clause
    row := fun _ writable => rowsOfValue st e writable
    rows := noRows e
    addends := [Emit.unsupported e] }

end Rendering

end QueryTree
