import QueryTree.Compile.Shape

/-!
# Rendering expressions

The rendering of an expression by recursion on the tree. Invocations are inlined on the way, and
an inlined body may hold invocations again; the number of nested inlinings is bounded, and a tree
that exceeds the bound faults.

## Main definitions

* `Expr.renderWith`: the fold over the tree, given the rendering of inlined bodies
* `Expr.render`: the rendering of an expression
-/

namespace QueryTree

namespace Expr

mutual

/-- The rendering of an expression, where `inlined` renders the bodies of inlined invocations. -/
def renderWith (st : Settings) (inlined : Expr → Rendering) : Expr → Rendering
  | hole => .unsupported st hole
  | const v t => .constant st v t
  | param p => .param st p
  | member e name t owner => .member st e name t owner
  | binary op l r => .binary st op (renderWith st inlined l) (renderWith st inlined r)
  | unary .quote e t => .quoted st (renderWith st inlined e) t
  | unary op e t => .unary st op (renderWith st inlined e) t
  | call e method args t f =>
    .call st (renderWith st inlined e) method (renderAll st inlined args) t f
  | new t bs => .shape st (new t bs) t (renderBindings st inlined bs)
  | init t bs => .shape st (init t bs) t (renderBindings st inlined bs)
  | list t es => .items st (list t es) (renderAll st inlined es)
  | array t es => .items st (array t es) (renderAll st inlined es)
  | lambda body ps => .lambda st (renderWith st inlined body) ps
  | invoke target args =>
    .invocation st (invoke target args) fun _ => (inline target args).map inlined
  | cond c a b =>
    .cond st (renderWith st inlined c) (renderWith st inlined a) (renderWith st inlined b)

/-- The renderings of a list of expressions. -/
def renderAll (st : Settings) (inlined : Expr → Rendering) : List Expr → List Rendering
  | [] => []
  | e :: es => renderWith st inlined e :: renderAll st inlined es

/-- The renderings of a list of bindings. -/
def renderBindings (st : Settings) (inlined : Expr → Rendering) :
    List (Text × Expr) → List (Text × Rendering)
  | [] => []
  | (name, e) :: bs => (name, renderWith st inlined e) :: renderBindings st inlined bs

end

/-- The rendering of an expression with at most `depth` nested inlinings. -/
def renderTo (st : Settings) : (depth : Nat) → Expr → Rendering
  | 0, _ => .unsupported st hole
  | depth + 1, e => e.renderWith st (renderTo st depth)

/-- How deeply inlined bodies may nest. -/
def inlineDepth : Nat := 10000

/-- The rendering of an expression. -/
def render (st : Settings) (e : Expr) : Rendering := e.renderTo st inlineDepth

end Expr

end QueryTree
