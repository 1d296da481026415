import QueryTree.Compile.Render
import QueryTree.Compile.Write
import QueryTree.Stateful

/-!
# What an emitter yields

An emitter is a state transformer that may stop. `Emit.Yields m s a s'` says that `m`, run in the
state `s`, does not stop and returns `a` in the state `s'`. Every way of building an emitter has one
equivalence here that takes such a run apart, so that proofs about what is emitted never look inside
the monad: a run of a compound emitter becomes runs of its parts and an equation for the text.

Only `Emit.result` looks inside. A stop counts as well there, for statements that compare two runs.

## Main definitions

* `Emit.result`: the outcome of an emitter and the state it leaves
* `Emit.Yields`: an emitter that does not stop

## Main results

* `Emit.result_bind`, `Emit.result_after`: outcomes of compound emitters
* `Emit.yields_bind` and the equivalences for the other emitters
-/

namespace QueryTree

namespace Emit

variable {α β : Type} {s s' : Slate}

/-- The outcome of an emitter run in a state, and the state it leaves. -/
def result (m : Emit α) (s : Slate) : Except Halt α × Slate := Stateful.result m s

/-! ### Outcomes

These equations are the only ones that look inside the monad. They say what a stop does as well,
which counts where two runs are compared. -/

theorem result_pure (a : α) (s : Slate) : result (pure a) s = (.ok a, s) := rfl

theorem result_throw (h : Halt) (s : Slate) : result (throw h : Emit α) s = (.error h, s) := rfl

theorem result_modifyGet (f : Slate → α × Slate) (s : Slate) :
    result (modifyGet f : Emit α) s = (.ok (f s).1, (f s).2) := rfl

theorem result_modify (f : Slate → Slate) (s : Slate) :
    result (modify f : Emit PUnit) s = (.ok ⟨⟩, f s) := rfl

theorem result_get (s : Slate) : result (get : Emit Slate) s = (.ok s, s) := rfl

/-- A stop of the first part is the stop of both, in the state that it leaves. -/
theorem result_bind (m : Emit α) (f : α → Emit β) (s : Slate) :
    result (m >>= f) s = match result m s with
      | (.ok a, s₁) => result (f a) s₁
      | (.error h, s₁) => (.error h, s₁) := by
  unfold result
  rw [Stateful.result_bind]
  split <;> simp only [*]

theorem result_tryCatch (m : Emit α) (f : Halt → Emit α) (s : Slate) :
    result (tryCatch m f) s = match result m s with
      | (.ok a, s₁) => (.ok a, s₁)
      | (.error h, s₁) => result (f h) s₁ := by
  unfold result
  rw [Stateful.result_tryCatch]
  split <;> simp only [*]

/-- What a stop has written so far gets the text in front. -/
theorem result_after (t : Text) (m : Emit α) (s : Slate) :
    result (after t m) s = match result m s with
      | (.ok a, s₁) => (.ok a, s₁)
      | (.error h, s₁) => (.error { h with written := t ++ h.written }, s₁) := by
  rw [after, result_tryCatch]
  rcases result m s with ⟨_ | _, _⟩ <;> rfl

/-! ### Runs that do not stop

A stop has no text, so most of what is said of emitters is about runs that do not stop. Each way of
building an emitter gets an equivalence for them. -/

/-- The emitter, run in the state `s`, returns `a` in the state `s'`. -/
def Yields (m : Emit α) (s : Slate) (a : α) (s' : Slate) : Prop := result m s = (.ok a, s')

/-- An emitter yields at most once from a state. -/
theorem Yields.unique {m : Emit α} {a b : α} {s₁ s₂ : Slate} (h : Yields m s a s₁)
    (h' : Yields m s b s₂) : a = b ∧ s₁ = s₂ := by
  rw [Yields, h] at h'
  simpa using h'

@[simp]
theorem yields_pure {a b : α} : Yields (pure a) s b s' ↔ b = a ∧ s' = s := by
  simp [Yields, result_pure, eq_comm]

/-- A run of a compound emitter is a run of its first part and one of the rest. -/
@[simp]
theorem yields_bind {m : Emit α} {f : α → Emit β} {b : β} :
    Yields (m >>= f) s b s' ↔ ∃ a s₁, Yields m s a s₁ ∧ Yields (f a) s₁ b s' := by
  simp only [Yields, result_bind]
  rcases result m s with ⟨_ | a, s₁⟩
  · simp
  · constructor
    · intro h
      exact ⟨a, s₁, rfl, h⟩
    · rintro ⟨_, _, h, h'⟩
      cases h
      exact h'

@[simp]
theorem yields_map {m : Emit α} {f : α → β} {b : β} :
    Yields (f <$> m) s b s' ↔ ∃ a, Yields m s a s' ∧ b = f a := by
  rw [← bind_pure_comp]
  simp only [yields_bind, yields_pure]
  constructor
  · rintro ⟨a, s₁, h, rfl, rfl⟩
    exact ⟨a, h, rfl⟩
  · rintro ⟨a, h, rfl⟩
    exact ⟨a, s', h, rfl, rfl⟩

/-- A stop yields nothing. -/
@[simp]
theorem not_yields_throw {h : Halt} {a : α} : ¬ Yields (throw h) s a s' := by
  simp [Yields, result_throw]

@[simp]
theorem not_yields_fail {e : CompileError} {a : α} : ¬ Yields (fail e) s a s' := not_yields_throw

@[simp]
theorem not_yields_fault {a : α} : ¬ Yields fault s a s' := not_yields_throw

/-- An expression without a kind faults, every other one is refused. -/
@[simp]
theorem not_yields_unsupported {e : Expr} {c : Clause} {a : α} :
    ¬ Yields (unsupported e c) s a s' := by
  unfold unsupported
  split <;> simp

/-- The text in front matters to stops alone. -/
@[simp]
theorem yields_after {t : Text} {m : Emit α} {a : α} :
    Yields (after t m) s a s' ↔ Yields m s a s' := by
  simp only [Yields, result_after]
  rcases result m s with ⟨_ | _, _⟩ <;> simp

/-- An attempt that succeeds leaves the state alone. -/
@[simp]
theorem yields_ofAttempt {r : Attempt CompileError α} {a : α} :
    Yields (ofAttempt r) s a s' ↔ r = .ok a ∧ s' = s := by
  rcases r with e | b
  · simp [ofAttempt]
  · simp [ofAttempt, eq_comm]

@[simp]
theorem yields_ofExcept {r : Except CompileError α} {a : α} :
    Yields (ofExcept r) s a s' ↔ r = .ok a ∧ s' = s := by
  rcases r with e | b
  · simp [ofExcept]
  · simp [ofExcept, eq_comm]

/-! ### The state

The primitive steps, each with the state that it leaves. -/

/-- The declared type is part of the state, so setting it shows there and nowhere else. -/
@[simp]
theorem yields_setPending {t : Text} {u : Unit} :
    Yields (setPending t) s u s' ↔ s' = { s with pendingType := t } := by
  simp [Yields, setPending, result_modify, eq_comm]

@[simp]
theorem yields_pending {t : Text} : Yields pending s t s' ↔ t = s.pendingType ∧ s' = s := by
  simp only [pending, bind_pure_comp, yields_map]
  simp only [Yields, result_get, Prod.mk.injEq, Except.ok.injEq]
  constructor
  · rintro ⟨_, ⟨rfl, rfl⟩, rfl⟩
    exact ⟨rfl, rfl⟩
  · rintro ⟨rfl, rfl⟩
    exact ⟨s', ⟨rfl, rfl⟩, rfl⟩

/-- Select items are recorded in the order in which they are written. -/
@[simp]
theorem yields_addField {t : Text} {u : Unit} :
    Yields (addField t) s u s' ↔ s' = { s with fields := s.fields ++ [t] } := by
  simp [Yields, addField, result_modify, eq_comm]

/-- A placeholder is numbered by the values that are bound before it. -/
@[simp]
theorem yields_placeholder {st : Settings} {v : Value} {dataType t : Text} :
    Yields (placeholder st v dataType) s t s' ↔
      t = st.profile.placeholder (s.params.length + 1) ∧
        s' = (s.bindValue st.profile v dataType).2 := by
  simp only [Yields, placeholder, result_modifyGet, Slate.bindValue, Prod.mk.injEq,
    Except.ok.injEq, List.length_append, List.length_singleton]
  constructor <;> rintro ⟨rfl, rfl⟩ <;> exact ⟨rfl, rfl⟩

/-- Errors are mapped, results are not. -/
theorem mapError_eq_ok {ε δ : Type} {f : ε → δ} {x : Except ε α} {a : α} :
    x.mapError f = .ok a ↔ x = .ok a := by
  cases x with
  | error e => constructor <;> intro h <;> cases h
  | ok b => constructor <;> intro h <;> cases h <;> rfl

/-- A row yields only for a type with an entity. -/
@[simp]
theorem yields_row {st : Settings} {p : Param} {r : Entity × Text} :
    Yields (row st p) s r s' ↔ st.entityOf p.type = .ok r.1 ∧
      r.2 = (s.aliases.bind p r.1.table).1 ∧
      s' = { s with aliases := (s.aliases.bind p r.1.table).2 } := by
  simp only [row, yields_bind, yields_ofExcept, mapError_eq_ok]
  simp only [Yields, result_modifyGet, Slate.bindRow]
  rcases st.entityOf p.type with e | e
  · simp
  · obtain ⟨e', name⟩ := r
    simp only [Prod.mk.injEq, Except.ok.injEq]
    constructor
    · rintro ⟨_, _, ⟨rfl, rfl⟩, h, rfl⟩
      cases h
      simp
    · rintro ⟨rfl, rfl, rfl⟩
      exact ⟨_, _, ⟨rfl, rfl⟩, rfl, rfl⟩

/-! ### Texts put together

Emitters that write text around, between or behind what other emitters yield. -/

@[simp]
theorem yields_enclose {x y t : Text} {m : Emit Text} :
    Yields (enclose x m y) s t s' ↔ ∃ a, Yields m s a s' ∧ t = x ++ a ++ y := by
  simp [enclose]

/-- The parts run from left to right, the second one in the state that the first one leaves. -/
@[simp]
theorem yields_join {l r : Emit Text} {sep t : Text} :
    Yields (join l sep r) s t s' ↔
      ∃ a s₁ b, Yields l s a s₁ ∧ Yields r s₁ b s' ∧ t = a ++ sep ++ b := by
  simp [join]

/-- An expression that folds into a value is emitted as that value, every other one as its own
emitter says. -/
@[simp]
theorem yields_folding {st : Settings} {e : Expr} {constant : Value → Emit α} {own : Emit α}
    {a : α} :
    Yields (folding st e constant own) s a s' ↔
      (∃ v, e.folded? st.pre = .ok (some v) ∧ Yields (constant v) s a s') ∨
        (e.folded? st.pre = .ok none ∧ Yields own s a s') := by
  simp only [folding, yields_bind, yields_ofAttempt]
  rcases e.folded? st.pre with (e | _) | w
  · exact e.elim
  · simp [Attempt.widen]
  · constructor
    · rintro ⟨_, _, ⟨h, rfl⟩, h'⟩
      cases h
      cases w with
      | none => exact .inr ⟨rfl, h'⟩
      | some v => exact .inl ⟨v, rfl, h'⟩
    · rintro (⟨v, h, h'⟩ | ⟨h, h'⟩) <;> cases h <;> exact ⟨_, s, ⟨rfl, rfl⟩, h'⟩

/-- The empty text stands for a condition that always holds. -/
@[simp]
theorem yields_stated {m : Emit Text} {t : Text} :
    Yields (stated m) s t s' ↔
      ∃ a, Yields m s a s' ∧ t = if a.isEmpty then ("1 = 1" : Text) else a := by
  simp [stated]

/-- An item gets its name only if its text does not end in a column of that name, and it is recorded
as it is written. -/
@[simp]
theorem yields_selectItem {st : Settings} {m : Emit Text} {name t : Text} :
    Yields (selectItem st m name) s t s' ↔ ∃ a s₁, Yields m s a s₁ ∧ ∃ item,
      item = (if !name.isEmpty && selectItem.bareColumn a ≠ name then
        a ++ " AS " ++ st.ident name else a) ∧
      s' = { s₁ with pendingType := [], fields := s₁.fields ++ [item] } ∧
      t = item ++ itemSeparator := by
  simp [selectItem]

/-! ### Conditions

A condition may have no text, which means that it always holds. Every combinator of conditions
treats that case on its own. -/

/-- A condition in parentheses if asked for; no parentheses are put around nothing. -/
def parenthesised (parens : Bool) (t : Text) : Text :=
  if parens && !t.isEmpty then "(" ++ t ++ ")" else t

@[simp]
theorem yields_groupedCondition {parens : Bool} {m : Emit Text} {t : Text} :
    Yields (groupedCondition parens m) s t s' ↔
      ∃ a, Yields m s a s' ∧ t = parenthesised parens a := by
  cases parens with
  | false => simp [groupedCondition, parenthesised]
  | true =>
    simp only [groupedCondition, if_true, bind_pure_comp, yields_map, yields_after]
    refine exists_congr fun a => and_congr_right fun _ => ?_
    cases a <;> simp [parenthesised]

/-- A side without a text leaves no token. -/
@[simp]
theorem yields_joined {token : Text} {l r : Emit Text} {t : Text} :
    Yields (joined token l r) s t s' ↔ ∃ a s₁ b, Yields l s a s₁ ∧ Yields r s₁ b s' ∧
      t = if a.isEmpty || b.isEmpty then a ++ b else a ++ token ++ b := by
  simp [joined]

/-- The complement of a condition that always holds is one that never does. -/
@[simp]
theorem yields_negated {isNegated : Bool} {m : Emit Text} {t : Text} :
    Yields (negated isNegated m) s t s' ↔ ∃ a, Yields m s a s' ∧
      t = if !isNegated then a else if a.isEmpty then ("1 = 0" : Text) else Sql.negate a := by
  simp [negated]

/-- The token of an equality before a text that is given. -/
def equalityToken (op : BinaryOp) (t : Text) : Text :=
  if t = ("NULL" : Text) then if op = .equal then " IS " else " IS NOT "
  else if op = .equal then " = " else " <> "

/-- An equality of two values; one with null tests for it. -/
theorem yields_compared {op : BinaryOp} {l r : Emit Text} {a b : Text} {s₁ s₂ : Slate}
    (hop : op = .equal ∨ op = .notEqual) (hl : Yields l s a s₁) (hr : Yields r s₁ b s₂) :
    Yields (compared op l r) s (a ++ equalityToken op b ++ b) { s₂ with pendingType := [] } := by
  have htoken : (if b = ("NULL" : Text) && op = .equal then (" IS " : Text)
      else if b = ("NULL" : Text) && op = .notEqual then (" IS NOT " : Text)
      else op.token?.getD []) = equalityToken op b := by
    rcases hop with rfl | rfl
    · by_cases hb : b = ("NULL" : Text) <;> simp [equalityToken, hb, BinaryOp.token?]
    · by_cases hb : b = ("NULL" : Text) <;> simp [equalityToken, hb, BinaryOp.token?]
  simp only [compared, yields_bind, yields_after, yields_setPending, yields_pure]
  refine ⟨a, s₁, hl, b, s₂, hr, ⟨⟩, _, rfl, ?_, rfl⟩
  rw [← htoken]

end Emit

end QueryTree
