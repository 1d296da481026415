import QueryTree.Attempt
import QueryTree.Value.Basic

/-!
# The prelude

What declared functions and types do when an expression is evaluated or shown: static functions by
name, methods by receiver type and name, the written form some types choose for themselves, and the
plain value that some types hand to a database.

## Main definitions

* `Function`, `Callee`: what a static call may name
* `Prelude`
-/

namespace QueryTree

/-- A function: the types of its parameters, the element type of a trailing parameter list, the
type of its result, and what it does. The arguments it runs on have the types it asks for. -/
structure Function where
  params : List Ty
  rest : Option Ty
  result : Option Ty
  run : List Value → Attempt Text Value

/-- What the name of a static call stands for: a function, or a value that cannot be called. -/
inductive Callee where
  | function (f : Function)
  | other (type : Ty)

/-- The behaviour of declared functions and types. A method receives its receiver behind
pointers; a nil pointer gives none. -/
structure Prelude where
  callee? : Text → Option Callee
  method? : Ty → Text → Option (Option Value → Function)
  display? : Ty → Option (Value → Text)
  stored? : Ty → Option (Value → Value)

/-- A prelude that declares nothing. -/
def Prelude.empty : Prelude := ⟨fun _ => none, fun _ _ => none, fun _ => none, fun _ => none⟩

end QueryTree
