import QueryTree.Expr.Basic
import QueryTree.Type.Member

/-!
# Building expressions

Constructors that work out types: members, calls of the well known methods, lists, conditions
joined by `and` and `or`, and the comparison, text and arithmetic operations on an expression.

## Main definitions

* `Expr.memberOf`: a member with its type and owner
* `Expr.callOf`: a call whose result type is inferred
* `Expr.listOf`, `Expr.arrayOf`: lists with a common element type
* `Expr.allOf`, `Expr.anyOf`: conditions joined from the left
* `Expr.inTest`: membership in a list of values
-/

namespace QueryTree

/-- The member of texts and lists that counts them. -/
def lengthMember : Text := "Length"

/-- The type of a member of a type, and the type that declares it. -/
def Ty.memberType (t : Ty) (name : Text) : Option (Ty × Ty) :=
  let owner := t.indirect
  match owner.under with
  | .record _ | .time => (owner.member? name).map fun (f, _) => (f.type, owner)
  | .map _ elem => some (elem, owner)
  | .string | .slice _ | .array .. =>
    if name = lengthMember then some (.int .int, owner) else none
  | _ => none

namespace Expr

/-- A constant of the type of its value. -/
def value (v : Value) : Expr := const v none

/-- The null constant. -/
def null : Expr := value .nil

/-- The member `name` of an expression. -/
def memberOf (e : Expr) (name : Text) : Expr :=
  match e.type?.bind fun t => t.memberType name with
  | some (t, owner) => member e name (some t) (some owner)
  | none => member e name none none

/-- The member `name` of a row. -/
def field (p : Param) (name : Text) : Expr := memberOf (param p) name

/-- The negated condition. -/
def notOf (e : Expr) : Expr := unary .not e (some .bool)

/-- The arithmetic opposite. -/
def negateOf (e : Expr) : Expr := unary .negate e none

/-- The quoted expression. -/
def quoteOf (e : Expr) : Expr := unary .quote e none

/-- Methods whose result is a truth value. -/
def predicateMethods : List Text :=
  ["Like", "LikeLeft", "LikeRight", "NotLike", "In", "NotIn", "Contains", "StartsWith",
    "EndsWith", "HasPrefix", "HasSuffix", "IsNullOrEmpty", "Equals"]

/-- Methods whose result is a text. -/
def textMethods : List Text :=
  ["ToUpper", "ToLower", "Trim", "TrimSpace", "TrimStart", "TrimEnd"]

/-- The result type of a call of a well known method. -/
def callType? (receiver : Expr) (method : Text) (args : List Expr) : Option Ty :=
  if predicateMethods.contains method then some .bool
  else if textMethods.contains method then some .string
  else if method = ("Count" : Text) then some (.int .int)
  else if isAggregateName method then
    match args.getLast? with
    | some last => last.type?
    | none => receiver.type?
  else none

/-- A call whose result type is inferred from the method. -/
def callOf (receiver : Expr) (method : Text) (args : List Expr) : Expr :=
  call receiver method args (callType? receiver method args) none

/-- A static call of a well known method. -/
def staticOf (method : Text) (args : List Expr) : Expr := callOf hole method args

/-- The element type that a list of items has: their common type, or any. -/
def commonType (items : List Expr) : Ty :=
  match items with
  | [] => .any
  | first :: rest =>
    match first.type? with
    | some t => if rest.all fun e => e.type? = some t then t else .any
    | none => .any

/-- A list of items. -/
def listOf (items : List Expr) : Expr := list (some (.slice (commonType items))) items

/-- An array of items. -/
def arrayOf (items : List Expr) : Expr := array (some (.slice (commonType items))) items

/-- The given conditions joined from the left by `op`, holes left out; `empty` for none. -/
def joined (op : BinaryOp) (empty : Bool) (conds : List Expr) : Expr :=
  match conds.filter fun c => !c.isHole with
  | [] => value (.bool empty)
  | c :: cs => cs.foldl (binary op) c

/-- All of the conditions; true for none. -/
def allOf (conds : List Expr) : Expr := joined .andAlso true conds

/-- Any of the conditions; false for none. -/
def anyOf (conds : List Expr) : Expr := joined .orElse false conds

/-- The expression or, for a hole, the null constant. -/
def orNull (e : Expr) : Expr := if e.isHole then null else e

/-- A conditional; a branch that is not given is null. -/
def condOf (test a b : Expr) : Expr := cond test a.orNull b.orNull

/-- What a membership test looks in: a single expression or list stands for itself, anything
else for the list of the values. -/
def collectionOf (items : List (Expr ⊕ Value)) : Expr :=
  let spread := arrayOf (items.map fun x => match x with
    | .inl e => e
    | .inr v => value v)
  match items with
  | [.inl e] => e
  | [.inr v] => if (v.items?).isSome then value v else spread
  | _ => spread

/-- Membership of an expression in a collection. -/
def inTest (e : Expr) (items : List (Expr ⊕ Value)) : Expr :=
  staticOf "In" [e, collectionOf items]

/-- Absence of an expression from a collection. -/
def notInTest (e : Expr) (items : List (Expr ⊕ Value)) : Expr :=
  staticOf "NotIn" [e, collectionOf items]

/-- A static call of a declared function, with the type of its first result. -/
def staticCall (resultType : Option Ty) (function method : Text) (args : List Expr) : Expr :=
  call hole method args resultType (some function)

end Expr

end QueryTree
