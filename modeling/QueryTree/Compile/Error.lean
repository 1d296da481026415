import QueryTree.Compile.Clause
import QueryTree.ErrorClass
import QueryTree.Expr.EvalError
import QueryTree.Expr.Replace
import QueryTree.Mapping.Registry

/-!
# Compilation errors

Why an expression does not compile in a position: a construct, operator or method without a rule
there, a row that cannot be written, text that is no plain list of names, or a type or member that
is not mapped.
-/

namespace QueryTree

/-- The classes of an evaluation error. -/
def EvalError.classes (e : EvalError) : List ErrorClass :=
  if e.isNotConstant then [.notConstant] else []

/-- The classes of a mapping error. -/
def MappingError.classes (e : MappingError) : List ErrorClass :=
  if e.isColumn then [.invalidColumn] else [.noTable]

/-- The classes of an inlining error. A wrong number of arguments is in none. -/
def Expr.InlineError.classes : Expr.InlineError → List ErrorClass
  | notLambda => [.notInvocable]
  | argumentCount => []

/-- Why an expression does not compile. -/
inductive CompileError where
  | construct (kind : Expr.Kind) (clause : Clause)
  | operator (name : Text) (clause : Clause)
  /-- A method without a rule whose call has no value either. -/
  | method (name : Text) (clause : Clause) (cause : EvalError)
  /-- A method that lacks its target or its arguments. -/
  | methodArguments (name : Text) (count : Nat)
  | missingArgument (clause : Clause)
  | unknownClause (clause : Clause)
  | invocation (cause : Expr.InlineError)
  | missingRow
  | notARow (type : Ty)
  | mapKeys
  /-- An expression in the place of a row that has no value. -/
  | rowWithoutValue (kind : Expr.Kind) (cause : EvalError)
  /-- A bound member that has no value. -/
  | boundMember (name : Text) (cause : EvalError)
  | unsafeIdentifier (item : Text)
  | mixedRows (first other : Ty)
  | oneRow (given : Nat)
  | noColumns
  | mapping (cause : MappingError)
  deriving DecidableEq

namespace CompileError

/-- The message of a compilation error. -/
def message : CompileError → Text
  | construct kind clause => unsupported ++ ": " ++ kind.name ++ inClause clause
  | operator name clause => "exprql: unsupported operator: " ++ name ++ inClause clause
  | method name clause cause =>
    "exprql: unsupported method: " ++ name ++ inClause clause ++ ": " ++ cause.message
  | methodArguments name count =>
    "exprql: unsupported method: " ++ name ++ " expects " ++ Text.ofNat count ++ " argument(s)"
  | missingArgument clause => unsupported ++ ": nil argument" ++ inClause clause
  | unknownClause clause => "exprql: unknown clause " ++ clause.name
  | invocation cause => unsupported ++ ": " ++ cause.message
  | missingRow => unsupported ++ ": nil row"
  | notARow t => unsupported ++ ": cannot write a row from " ++ t.text
  | mapKeys => unsupported ++ ": map keys must be strings"
  | rowWithoutValue kind cause => unsupported ++ ": " ++ kind.name ++ " row: " ++ cause.message
  | boundMember name cause => "member " ++ name ++ ": " ++ cause.message
  | unsafeIdentifier item => "exprql: unsafe identifier: " ++ item.quoted
  | mixedRows a b => inconsistent ++ ": " ++ a.text ++ " and " ++ b.text
  | oneRow given => inconsistent ++ ": update takes one row, got " ++ Text.ofNat given
  | noColumns => "exprql: no columns to write"
  | mapping cause => cause.message
where
  /-- How the messages about constructs begin. -/
  unsupported : Text := "exprql: unsupported construct"
  /-- How the messages about rows that do not fit together begin. -/
  inconsistent : Text := "exprql: inconsistent insert rows"
  /-- How a message names the clause. -/
  inClause (clause : Clause) : Text := " in " ++ clause.name ++ " clause"

/-- The classes of a compilation error. -/
def classes : CompileError → List ErrorClass
  | construct .. | missingArgument _ | missingRow | notARow _ | mapKeys => [.unsupportedConstruct]
  | rowWithoutValue _ cause => .unsupportedConstruct :: cause.classes
  | invocation cause => .unsupportedConstruct :: cause.classes
  | operator .. => [.unsupportedOperator]
  | method _ _ cause => .unsupportedMethod :: cause.classes
  | methodArguments .. => [.unsupportedMethod]
  | boundMember _ cause => cause.classes
  | unsafeIdentifier _ => [.unsafeIdentifier]
  | mixedRows .. | oneRow _ => [.inconsistentRows]
  | noColumns => [.noColumns]
  | mapping cause => cause.classes
  | unknownClause _ => []

end CompileError

end QueryTree
