import QueryTree.Compile.Error

/-!
# Statement errors

Why a statement does not compile: one of its expressions does not, it needs a key that is not
there, or something that alters statements refused it.
-/

namespace QueryTree

/-- A refusal by something that alters statements. -/
structure Refusal where
  message : Text
  classes : List ErrorClass
  deriving DecidableEq

/-- Why a statement does not compile. -/
inductive StatementError where
  | compile (cause : CompileError)
  | noKey (type : Ty)
  | notAggregate (clause : Clause)
  /-- A value whose key is asked for is no row of the entity. -/
  | foreignKeyValue (given : Option Ty) (type : Ty)
  | refused (cause : Refusal)
  deriving DecidableEq

namespace StatementError

/-- The message of a statement error. -/
def message : StatementError → Text
  | compile e => e.message
  | noKey t => "exprql: entity has no primary key: " ++ t.text
  | notAggregate c => "exprql: clause is not an aggregate: " ++ c.name
  | foreignKeyValue given t =>
    "exprql: ByKey value " ++ Ty.textOrNil given ++ " is not a " ++ t.text
  | refused r => r.message

/-- The classes of a statement error. -/
def classes : StatementError → List ErrorClass
  | compile e => e.classes
  | noKey _ => [.noKey]
  | notAggregate _ => [.notAggregate]
  | foreignKeyValue .. => []
  | refused r => r.classes

end StatementError

end QueryTree
