import QueryTree.Expr.Build

/-!
# Building by method names

The operations that can be applied to an expression by name: comparisons, pattern and membership
tests, text functions, arithmetic and logic. A value in the place of an operand is a constant.

## Main definitions

* `Expr.operand`: an operand given as an expression or a value
* `Expr.operation?`: the operation of a name applied to an expression
-/

namespace QueryTree.Expr

/-- An operand: an expression, or the constant of a value. -/
def operand : Expr ⊕ Value → Expr
  | .inl e => e
  | .inr v => value v

/-- The operators by the names of their operations. -/
def operations : List (Text × BinaryOp) :=
  [("Eq", .equal), ("NotEq", .notEqual), ("Gt", .greaterThan), ("GtEq", .greaterThanOrEqual),
    ("Lt", .lessThan), ("LtEq", .lessThanOrEqual), ("Add", .add), ("Sub", .subtract),
    ("Mul", .multiply), ("Div", .divide), ("Mod", .modulo), ("And", .andAlso), ("Or", .orElse)]

/-- Tests that are static calls with the expression as their first argument. -/
def staticTests : List Text := ["Like", "LikeLeft", "LikeRight", "NotLike"]

/-- Tests that are calls on the expression. -/
def methodTests : List Text := ["Contains", "StartsWith", "EndsWith", "Equals"]

/-- Text functions, which are calls on the expression. -/
def textFunctions : List Text := ["ToUpper", "ToLower", "Trim", "TrimStart", "TrimEnd"]

/-- The operation of a name applied to an expression. -/
def operation? (e : Expr) (method : Text) (args : List (Expr ⊕ Value)) : Option Expr :=
  if method = ("In" : Text) then some (inTest e args)
  else if method = ("NotIn" : Text) then some (notInTest e args)
  else match args with
    | [] =>
      if method = ("IsNull" : Text) then some (binary .equal e null)
      else if method = ("IsNotNull" : Text) then some (binary .notEqual e null)
      else if method = ("Not" : Text) then some (notOf e)
      else if method = ("Negate" : Text) then some (negateOf e)
      else if method = ("IsNullOrEmpty" : Text) then some (staticOf method [e])
      else if textFunctions.contains method then some (callOf e method [])
      else none
    | [x] =>
      match operations.lookup method with
      | some op => some (binary op e (operand x))
      | none =>
        if staticTests.contains method then some (staticOf method [e, operand x])
        else if methodTests.contains method then some (callOf e method [operand x])
        else none
    | _ => none

end QueryTree.Expr
