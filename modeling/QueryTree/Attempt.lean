import QueryTree.Text.Basic

/-!
# Attempts

An operation yields a value, fails with an error, or faults. A fault is a misuse that has no
answer at all, such as a member of an operand that was never given; it carries no message and no
rule recovers from it.
-/

namespace QueryTree

/-- Why an operation did not yield a value. -/
inductive Stop (ε : Type) where
  | error (e : ε)
  | fault
  deriving DecidableEq, Repr

/-- The result of an operation that may fail or fault. -/
abbrev Attempt (ε α : Type) := Except (Stop ε) α

namespace Attempt

/-- Fails with an error. -/
def fail {ε α : Type} (e : ε) : Attempt ε α := .error (.error e)

/-- Faults. -/
def fault {ε α : Type} : Attempt ε α := .error .fault

/-- The same attempt with its error mapped. -/
def mapError {ε δ α : Type} (f : ε → δ) : Attempt ε α → Attempt δ α
  | .ok a => .ok a
  | .error (.error e) => .error (.error (f e))
  | .error .fault => .error .fault

theorem eq_ok_of_mapError {ε δ α : Type} {f : ε → δ} {x : Attempt ε α} {a : α}
    (h : mapError f x = .ok a) : x = .ok a := by
  rcases x with (e | _) | b
  · cases h
  · cases h
  · cases h
    rfl

/-- An attempt that can only fault, as one that could also fail. -/
def widen {ε α : Type} : Attempt Empty α → Attempt ε α
  | .ok a => .ok a
  | .error (.error e) => nomatch e
  | .error .fault => .error .fault

end Attempt

end QueryTree
