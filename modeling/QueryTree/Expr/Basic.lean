import QueryTree.Expr.Operator
import QueryTree.Value.Basic

/-!
# Expression trees

Expressions over the rows of a query: constants, row parameters, members, operators, calls,
constructors of shapes and lists, lambdas and their invocations, and conditionals. An operand that
was not given is a hole. Parameters are told apart by identity, not by name.

## Main definitions

* `Param`, `Expr`, `Expr.Kind`
* `Expr.type?`: the type of an expression where it is known
* `Expr.isBool`: whether an expression is a truth value
* `Expr.children`: the direct operands
-/

namespace QueryTree

/-- A row parameter. Two parameters are the same when their identities are. -/
structure Param where
  id : Nat
  name : Text
  type : Option Ty
  deriving DecidableEq, Inhabited

/-- An expression. -/
inductive Expr where
  /-- An operand that was not given. -/
  | hole
  /-- A constant; `type` is its declared type, none means the type of the value. -/
  | const (v : Value) (type : Option Ty)
  | param (p : Param)
  /-- A member; `type` is the member's type and `owner` the type that declares it, if known. -/
  | member (e : Expr) (name : Text) (type owner : Option Ty)
  | binary (op : BinaryOp) (left right : Expr)
  | unary (op : UnaryOp) (e : Expr) (type : Option Ty)
  /-- A method call, or a static call when the receiver is a hole. `callee` names the function a
  static call runs. -/
  | call (receiver : Expr) (method : Text) (args : List Expr) (type : Option Ty)
      (callee : Option Text)
  /-- A shape of named members. -/
  | new (type : Option Ty) (bindings : List (Text × Expr))
  /-- A record with some members set. -/
  | init (type : Option Ty) (bindings : List (Text × Expr))
  | list (type : Option Ty) (items : List Expr)
  | array (type : Option Ty) (items : List Expr)
  | lambda (body : Expr) (params : List Param)
  | invoke (target : Expr) (args : List Expr)
  | cond (test ifTrue ifFalse : Expr)
  deriving Inhabited

namespace Expr

/-- The kinds of expression. -/
inductive Kind where
  | constant | parameter | member | binary | unary | call | new | init | list | array
  | lambda | invocation | conditional
  deriving DecidableEq, Repr

/-- The kinds in the order of their numbers. -/
def Kind.all : List Kind :=
  [constant, parameter, member, binary, unary, call, new, init, list, array, lambda, invocation,
    conditional]

/-- The name of a kind. -/
def Kind.name : Kind → Text
  | constant => "Constant" | parameter => "Parameter" | member => "MemberAccess"
  | binary => "Binary" | unary => "Unary" | call => "MethodCall" | new => "New"
  | init => "MemberInit" | list => "ListInit" | array => "NewArray" | lambda => "Lambda"
  | invocation => "Invocation" | conditional => "Conditional"

/-- The name of the kind of a number, or the number itself. -/
def Kind.nameOfCode (n : Int) : Text :=
  match (if n < 0 then none else Kind.all[n.toNat]?) with
  | some k => k.name
  | none => "Kind(" ++ Text.ofInt n ++ ")"

/-- The kind of an expression; a hole has none. -/
def kind? : Expr → Option Kind
  | hole => none
  | const .. => some .constant
  | param _ => some .parameter
  | member .. => some .member
  | binary .. => some .binary
  | unary .. => some .unary
  | call .. => some .call
  | new .. => some .new
  | init .. => some .init
  | list .. => some .list
  | array .. => some .array
  | lambda .. => some .lambda
  | invoke .. => some .invocation
  | cond .. => some .conditional

/-- Whether the expression is a hole. -/
def isHole : Expr → Bool
  | hole => true
  | _ => false

/-- The type of an expression, where it is known. -/
def type? : Expr → Option Ty
  | hole => none
  | const v t => t <|> v.type?
  | param p => p.type
  | member _ _ t _ => t
  | binary op l r => if op.isArithmetic then l.type? <|> r.type? else some .bool
  | unary op e t => t <|> if op = .not then some .bool else e.type?
  | call _ _ _ t _ => t
  | new t _ | init t _ | list t _ | array t _ => t
  | lambda body _ => body.type?
  | invoke target _ => target.type?
  | cond _ a b => a.type? <|> b.type?

/-- Whether the expression is known to be a truth value, or a pointer to one. -/
def isBool (e : Expr) : Bool := e.type?.any Ty.isBool

/-- The direct operands. A receiver and a member's row count only when they are given. -/
def children : Expr → List Expr
  | hole | const .. | param _ => []
  | member e _ _ _ => if e.isHole then [] else [e]
  | binary _ l r => [l, r]
  | unary _ e _ => [e]
  | call receiver _ args _ _ => if receiver.isHole then args else receiver :: args
  | new _ bs | init _ bs => bs.map (·.2)
  | list _ items | array _ items => items
  | lambda body params => params.map param ++ [body]
  | invoke target args => target :: args
  | cond test a b => [test, a, b]

/-- The expression at the start of a chain of members. -/
def root : Expr → Expr
  | member e n t o => if e.isHole then member e n t o else e.root
  | e => e

/-- The expression without the quotes around it. -/
def unquote : Expr → Expr
  | unary .quote e _ => e.unquote
  | e => e

/-- Whether the expression is an aggregate method name. -/
def isAggregateName (method : Text) : Bool :=
  (["Count", "Sum", "Avg", "Max", "Min"] : List Text).contains method

end Expr

end QueryTree
