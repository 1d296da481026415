import QueryTree.Text.Number

/-!
# Operators

Binary and unary operators, by name and by number. A number that names no operator is kept, so
that messages can show it; such an operator belongs to no class.

## Main definitions

* `BinaryOp`, `UnaryOp` with `ofCode`, `name`
* `BinaryOp.isLogical`, `isComparison`, `isArithmetic`
-/

namespace QueryTree

/-- A binary operator. -/
inductive BinaryOp where
  | and | andAlso | or | orElse
  | equal | notEqual | greaterThan | greaterThanOrEqual | lessThan | lessThanOrEqual
  | add | subtract | multiply | divide | modulo
  | exclusiveOr | leftShift | rightShift | power | coalesce | arrayIndex
  /-- A number that names no operator. -/
  | unknown (code : Int)
  deriving DecidableEq, Repr

namespace BinaryOp

/-- The operators in the order of their numbers. -/
def all : List BinaryOp :=
  [and, andAlso, or, orElse, equal, notEqual, greaterThan, greaterThanOrEqual, lessThan,
    lessThanOrEqual, add, subtract, multiply, divide, modulo, exclusiveOr, leftShift, rightShift,
    power, coalesce, arrayIndex]

/-- The operator of a number. -/
def ofCode (n : Int) : BinaryOp :=
  if n < 0 then unknown n else (all[n.toNat]?).getD (unknown n)

/-- The name of an operator. -/
def name : BinaryOp → Text
  | and => "And" | andAlso => "AndAlso" | or => "Or" | orElse => "OrElse"
  | equal => "Equal" | notEqual => "NotEqual"
  | greaterThan => "GreaterThan" | greaterThanOrEqual => "GreaterThanOrEqual"
  | lessThan => "LessThan" | lessThanOrEqual => "LessThanOrEqual"
  | add => "Add" | subtract => "Subtract" | multiply => "Multiply" | divide => "Divide"
  | modulo => "Modulo" | exclusiveOr => "ExclusiveOr" | leftShift => "LeftShift"
  | rightShift => "RightShift" | power => "Power" | coalesce => "Coalesce"
  | arrayIndex => "ArrayIndex"
  | unknown n => "BinaryOp(" ++ Text.ofInt n ++ ")"

/-- The operator of a name. -/
def ofName? (t : Text) : Option BinaryOp := all.find? fun op => op.name = t

/-- Whether the operator joins truth values. -/
def isLogical : BinaryOp → Bool
  | and | andAlso | or | orElse => true
  | _ => false

/-- Whether the operator is a conjunction. -/
def isAnd : BinaryOp → Bool
  | and | andAlso => true
  | _ => false

/-- Whether the operator is a disjunction. -/
def isOr : BinaryOp → Bool
  | or | orElse => true
  | _ => false

/-- Whether the operator compares two values. -/
def isComparison : BinaryOp → Bool
  | equal | notEqual | greaterThan | greaterThanOrEqual | lessThan | lessThanOrEqual => true
  | _ => false

/-- Whether the operator yields a value of the type of its operands. -/
def isArithmetic : BinaryOp → Bool
  | add | subtract | multiply | divide | modulo
  | exclusiveOr | leftShift | rightShift | power | coalesce | arrayIndex => true
  | _ => false

end BinaryOp

/-- A unary operator. -/
inductive UnaryOp where
  | not | convert | quote | negate | onesComplement | arrayLength | typeAs
  /-- A number that names no operator. -/
  | unknown (code : Int)
  deriving DecidableEq, Repr

namespace UnaryOp

/-- The operators in the order of their numbers. -/
def all : List UnaryOp := [not, convert, quote, negate, onesComplement, arrayLength, typeAs]

/-- The operator of a number. -/
def ofCode (n : Int) : UnaryOp :=
  if n < 0 then unknown n else (all[n.toNat]?).getD (unknown n)

/-- The name of an operator. -/
def name : UnaryOp → Text
  | not => "Not" | convert => "Convert" | quote => "Quote" | negate => "Negate"
  | onesComplement => "OnesComplement" | arrayLength => "ArrayLength" | typeAs => "TypeAs"
  | unknown n => "UnaryOp(" ++ Text.ofInt n ++ ")"

/-- The operator of a name. -/
def ofName? (t : Text) : Option UnaryOp := all.find? fun op => op.name = t

end UnaryOp

end QueryTree
