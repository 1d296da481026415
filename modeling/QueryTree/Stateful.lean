/-!
# Computations with a state

A computation that changes a state as it goes and may stop on the way. What it has changed when it
stops stays changed.

## Main definitions

* `Stateful`
* `Stateful.result`: what a computation ends with, and the state it leaves
-/

namespace QueryTree

/-- A computation that changes a state of type `σ` and may stop for a cause of type `ε`. -/
abbrev Stateful (ε σ α : Type) := ExceptT ε (StateM σ) α

namespace Stateful

variable {ε σ α β : Type}

/-- What a computation ends with, and the state it leaves. -/
def result (x : Stateful ε σ α) (s : σ) : Except ε α × σ := StateT.run (ExceptT.run x) s

theorem result_pure (a : α) (s : σ) : result (pure a : Stateful ε σ α) s = (.ok a, s) := rfl

theorem result_throw (cause : ε) (s : σ) :
    result (throw cause : Stateful ε σ α) s = (.error cause, s) := rfl

theorem result_get (s : σ) : result (get : Stateful ε σ σ) s = (.ok s, s) := rfl

theorem result_modify (f : σ → σ) (s : σ) :
    result (modify f : Stateful ε σ PUnit) s = (.ok ⟨⟩, f s) := rfl

theorem result_bind (x : Stateful ε σ α) (f : α → Stateful ε σ β) (s : σ) :
    result (x >>= f) s = match result x s with
      | (.ok a, s₁) => result (f a) s₁
      | (.error cause, s₁) => (.error cause, s₁) := by
  simp only [result, bind, ExceptT.bind, ExceptT.mk, ExceptT.run, StateT.run, StateT.bind]
  rcases x s with ⟨_ | _, _⟩ <;> rfl

theorem result_tryCatch (x : Stateful ε σ α) (f : ε → Stateful ε σ α) (s : σ) :
    result (tryCatch x f) s = match result x s with
      | (.ok a, s₁) => (.ok a, s₁)
      | (.error cause, s₁) => result (f cause) s₁ := by
  simp only [result, tryCatch, tryCatchThe, MonadExceptOf.tryCatch, ExceptT.tryCatch, ExceptT.mk,
    ExceptT.run, StateT.run, bind, StateT.bind]
  rcases x s with ⟨_ | _, _⟩ <;> rfl

end Stateful

end QueryTree
