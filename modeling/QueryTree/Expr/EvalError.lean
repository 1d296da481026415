import QueryTree.Expr.Basic
import QueryTree.Type.Printed

/-!
# Evaluation errors

Why an expression has no value: it depends on a row, or an operation does not apply to its
operands.
-/

namespace QueryTree

/-- Why an expression has no value. Types are those of the offending values, none for nil. -/
inductive EvalError where
  | dependsOnParameter (name : Text)
  | staticMember (name : Text)
  | staticCall (method : Text)
  | notConstant (kind : Expr.Kind)
  | testNotBool (type : Option Ty)
  | operandNotBool (operator : Text) (type : Option Ty)
  | memberOfNilPointer (name : Text) (type : Option Ty)
  | memberOfNil (name : Text)
  | noMember (type : Option Ty) (name : Text)
  | badOperand (operator : Text) (type : Option Ty)
  | cannotConvert (source : Option Ty) (target : Ty)
  | noMethod (type : Option Ty) (method : Text)
  | notFunction (name : Text) (type : Ty)
  | argumentCount (name : Text) (expected given : Nat)
  | badArgument (name : Text) (index : Nat) (type : Option Ty) (wanted : Ty)
  /-- The function that was called failed. -/
  | failed (message : Text)
  | oneArgument (given : Nat)
  | stringArgument (type : Option Ty)
  | badElement (type : Option Ty) (wanted : Ty)
  | notSettable (type : Ty) (name : Text)
  | cannotOrder (left right : Option Ty)
  | indexOutOfRange (index : Int)
  | cannotIndex (type : Option Ty)
  | needsNumbers (op : BinaryOp) (left right : Option Ty)
  | needsIntegers (op : BinaryOp)
  | divisionByZero
  | noEvaluation (op : BinaryOp)
  deriving DecidableEq

namespace EvalError

/-- Whether the expression is no constant at all. -/
def isNotConstant : EvalError → Bool
  | dependsOnParameter _ | staticMember _ | staticCall _ | notConstant _ => true
  | _ => false

/-- The message of an evaluation error. -/
def message : EvalError → Text
  | dependsOnParameter name => constant ++ "parameter " ++ name.quoted
  | staticMember name => constant ++ "static member " ++ name.quoted
  | staticCall method => constant ++ "static call " ++ method
  | notConstant kind => constant ++ kind.name
  | testNotBool t => "exprql: conditional test is " ++ Ty.textOrNil t ++ ", not bool"
  | operandNotBool op t => "exprql: " ++ op ++ " operand is " ++ Ty.textOrNil t ++ ", not bool"
  | memberOfNilPointer name t => "exprql: member " ++ name.quoted ++ " of nil " ++ Ty.textOrNil t
  | memberOfNil name => "exprql: member " ++ name.quoted ++ " of nil value"
  | noMember t name => "exprql: " ++ Ty.textOrNil t ++ " has no member " ++ name.quoted
  | badOperand op t => "exprql: " ++ op ++ " operand is " ++ Ty.textOrNil t
  | cannotConvert s t => "exprql: cannot convert " ++ Ty.textOrNil s ++ " to " ++ t.text
  | noMethod t method => "exprql: " ++ Ty.textOrNil t ++ " has no method " ++ method
  | notFunction name t => "exprql: " ++ name ++ " is " ++ t.text ++ ", not a function"
  | argumentCount name expected given =>
    "exprql: " ++ name ++ " expects " ++ Text.ofNat expected ++ " arguments, got "
      ++ Text.ofNat given
  | badArgument name i t wanted =>
    "exprql: " ++ name ++ " argument " ++ Text.ofNat i ++ ": cannot use " ++ Ty.textOrNil t
      ++ " as " ++ wanted.text
  | failed text => text
  | oneArgument given => "exprql: expected 1 argument, got " ++ Text.ofNat given
  | stringArgument t => "exprql: expected string argument, got " ++ Ty.textOrNil t
  | badElement t wanted => "cannot use " ++ Ty.textOrNil t ++ " as " ++ wanted.text
  | notSettable t name => "exprql: " ++ t.text ++ " has no settable member " ++ name.quoted
  | cannotOrder l r => "exprql: cannot order " ++ Ty.textOrNil l ++ " and " ++ Ty.textOrNil r
  | indexOutOfRange i => "exprql: index " ++ Text.ofInt i ++ " out of range"
  | cannotIndex t => "exprql: cannot index " ++ Ty.textOrNil t
  | needsNumbers op l r =>
    "exprql: " ++ op.name ++ " needs numeric operands, got " ++ Ty.textOrNil l ++ " and "
      ++ Ty.textOrNil r
  | needsIntegers op => "exprql: " ++ op.name ++ " needs integer operands"
  | divisionByZero => "exprql: integer division by zero"
  | noEvaluation op => "exprql: operator " ++ op.name ++ " cannot be evaluated"
where
  /-- How the messages about expressions that are no constants begin. -/
  constant : Text := "exprql: expression is not a compile-time constant: "

end EvalError

end QueryTree
