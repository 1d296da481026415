/-!
# Classes of errors

Callers tell errors apart by class. An error that wraps another one belongs to the classes of
both, so an error has a set of classes, listed in the order declared here.
-/

namespace QueryTree

/-- A class of errors. -/
inductive ErrorClass where
  | unsupportedConstruct | unsupportedOperator | unsupportedMethod | inconsistentRows
  | unsafeIdentifier | noColumns
  | invalidColumn | noTable
  | noKey | notAggregate
  | notConstant | notInvocable
  | noQuery | noDatabase | emptyExpression | noFields | policyDenied
  deriving DecidableEq, Repr

/-- The classes in their order. -/
def ErrorClass.all : List ErrorClass :=
  [unsupportedConstruct, unsupportedOperator, unsupportedMethod, inconsistentRows,
    unsafeIdentifier, noColumns, invalidColumn, noTable, noKey, notAggregate, notConstant,
    notInvocable, noQuery, noDatabase, emptyExpression, noFields, policyDenied]

/-- The name of a class. -/
def ErrorClass.name : ErrorClass → String
  | unsupportedConstruct => "UnsupportedConstruct"
  | unsupportedOperator => "UnsupportedOperator"
  | unsupportedMethod => "UnsupportedMethod"
  | inconsistentRows => "InconsistentRows"
  | unsafeIdentifier => "UnsafeIdentifier"
  | noColumns => "NoColumns"
  | invalidColumn => "InvalidColumn"
  | noTable => "NoTable"
  | noKey => "NoKey"
  | notAggregate => "NotAggregate"
  | notConstant => "NotConstant"
  | notInvocable => "NotInvocable"
  | noQuery => "NoQuery"
  | noDatabase => "NoDatabase"
  | emptyExpression => "EmptyExpression"
  | noFields => "NoFields"
  | policyDenied => "PolicyDenied"

end QueryTree
