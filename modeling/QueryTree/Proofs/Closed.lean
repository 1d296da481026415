import QueryTree.Proofs.Rendered

/-!
# Conditions without rows

A condition that depends on no row has a value, and where it is folded its text is that of the
value: nothing if it is true, and `1 = 0` if it is false. Not every such condition is folded. Quotes
are looked through, lambdas and invocations have no value, and what else has none is compiled by its
own rule. Whenever the condition compiles and has a value, though, both agree.

The same holds for truth literals, also for converted numbers, which have no value: a literal that
compiles has the text of its truth. A true one on the left of an `AND` may be left out.

## Main results

* `Expr.constantCondition_of_eval`: a condition compiles to what it evaluates to
* `Expr.yields_literal`: a literal that compiles emits what its truth emits
-/

namespace QueryTree

open Emit

variable {st : Settings} {c : Clause} {s s' : Slate} {t : Text}

@[simp]
theorem Emit.yields_constantCondition {v : Value} :
    Yields (constantCondition v c) s t s' ↔
      ∃ b, v = .bool b ∧ t = (if b then ([] : Text) else "1 = 0") ∧ s' = s := by
  unfold constantCondition
  split
  · simp
  · simp
  · rename_i htrue hfalse
    simp only [not_yields_fail, false_iff]
    rintro ⟨b, rfl, -⟩
    cases b with
    | true => exact htrue rfl
    | false => exact hfalse rfl

/-! ### Folding -/

namespace Expr

/-- The row parameter that an expression is, if it is one. -/
def param? : Expr → Option Param
  | param p => some p
  | _ => none

/-- The expression refers to no row if no row parameter stands in it. -/
theorem isClosed_eq (e : Expr) : e.isClosed = (e.walk.filterMap param?).isEmpty := by
  have fold : ∀ (ps acc : List Param), (ps.foldl (fun ps p =>
      if ps.any (·.id == p.id) then ps else ps ++ [p]) acc).isEmpty =
        (acc.isEmpty && ps.isEmpty) := by
    intro ps
    induction ps with
    | nil => simp
    | cons p ps ih =>
      intro acc
      rw [List.foldl_cons, ih]
      cases acc with
      | nil => simp
      | cons q acc => by_cases h : (q :: acc).any (·.id == p.id) = true <;> simp [h]
  rw [isClosed, params, fold]
  rfl

theorem isClosed_member_param (p : Param) (name : Text) (type owner : Option Ty) :
    (member (param p) name type owner).isClosed = false := by
  rw [isClosed_eq]
  rfl

theorem isClosed_unary (op : UnaryOp) (e : Expr) (t : Option Ty) :
    (unary op e t).isClosed = e.isClosed := by
  rw [isClosed_eq, isClosed_eq, walk, List.filterMap_cons_none rfl]

theorem isClosed_binary (op : BinaryOp) (l r : Expr) :
    (binary op l r).isClosed = (l.isClosed && r.isClosed) := by
  rw [isClosed_eq, isClosed_eq, isClosed_eq, walk, List.filterMap_cons_none rfl,
    List.filterMap_append]
  cases l.walk.filterMap param? <;> rfl

theorem isHole_of_not_isClosed {e : Expr} (h : e.isClosed = false) : e.isHole = false := by
  cases e with
  | hole => cases h
  | _ => rfl

theorem folded?_of_not_isClosed {e : Expr} (h : e.isClosed = false) (pre : Prelude) :
    e.folded? pre = .ok none := by
  simp [folded?, h]

/-- Whether the expression is quoted. -/
def isQuote : Expr → Bool
  | unary .quote _ _ => true
  | _ => false

variable {inlined : Expr → Rendering}

theorem renderWith_unary {op : UnaryOp} {e : Expr} {type : Option Ty}
    (hq : (unary op e type).isQuote = false) : renderWith st inlined (unary op e type) =
      Rendering.unary st op (renderWith st inlined e) type := by
  cases op with
  | quote => cases hq
  | _ => simp only [renderWith]

/-- Every expression of a kind that is folded is one value, unless it is quoted. -/
theorem exists_renderWith_eq_scalar (st : Settings) (inlined : Expr → Rendering) {e : Expr}
    (h : e.isFoldable = true) (hq : e.isQuote = false) :
    ∃ value condition isTest addends, renderWith st inlined e =
      Rendering.scalar st e value condition isTest addends := by
  cases e with
  | member e name type owner =>
    rw [renderWith]
    exact ⟨_, _, _, _, rfl⟩
  | binary op l r =>
    rw [renderWith, Rendering.binary, renderWith_expr, renderWith_expr]
    exact ⟨_, _, _, _, rfl⟩
  | unary op e type =>
    rw [renderWith_unary hq, Rendering.unary, renderWith_expr]
    exact ⟨_, _, _, _, rfl⟩
  | call receiver method args type callee =>
    rw [renderWith, Rendering.call, renderWith_expr, renderAll_expr]
    exact ⟨_, _, _, _, rfl⟩
  | cond test a b =>
    rw [renderWith, Rendering.cond, renderWith_expr, renderWith_expr, renderWith_expr]
    exact ⟨_, _, _, _, rfl⟩
  | hole | const | param | new | init | list | array | lambda | invoke => cases h

/-- Such an expression is folded first. -/
theorem exists_condition_eq_folding {e : Expr} (h : e.isFoldable = true) (hq : e.isQuote = false)
    (c : Clause) : ∃ own, (renderWith st inlined e).condition c =
      folding st e (constantCondition · c) own := by
  obtain ⟨value, condition, isTest, addends, heq⟩ := exists_renderWith_eq_scalar st inlined h hq
  rw [heq]
  exact ⟨_, rfl⟩

/-- An aggregate function is no condition. -/
theorem not_yields_aggregate {receiver : Expr} {method : Text} {args : List Expr}
    {type : Option Ty} {callee : Option Text}
    (h : (call receiver method args type callee).isFoldable = false) :
    ¬ Yields ((renderWith st inlined (call receiver method args type callee)).condition c)
      s t s' := by
  simp only [isFoldable, Bool.not_eq_eq_eq_not, Bool.not_false, Bool.and_eq_true] at h
  obtain ⟨hstatic, hname⟩ := h
  have hall : ∀ m ∈ (["Count", "Sum", "Avg", "Max", "Min"] : List Text),
      ∃ i, Intrinsic.ofName? m = some i ∧ i.isAggregate = true ∧ i.isCondition = false := by
    decide
  obtain ⟨i, hi, haggregate, hcondition⟩ := hall method (by simpa [isAggregateName] using hname)
  have hrule : Rendering.rule? (renderWith st inlined receiver) method = some i := by
    simp [Rendering.rule?, hi, haggregate, renderWith_expr, hstatic]
  intro hy
  rw [renderWith, Rendering.call] at hy
  rcases yields_folding.mp hy with ⟨v, hv, -⟩ | ⟨-, hy⟩
  · rw [renderWith_expr, renderAll_expr] at hv
    simp [folded?, isFoldable, hstatic, hname] at hv
  · simp only [Rendering.emitCall, hrule, hcondition] at hy
    split at hy <;> simp at hy

/-- A condition of a kind that is folded first compiles to what its value compiles to. -/
theorem constantCondition_of_isFoldable {e : Expr} (hc : e.isClosed = true)
    (hf : e.isFoldable = true) (hq : e.isQuote = false)
    (h : Yields ((renderWith st inlined e).condition c) s t s') :
    e.eval st.pre ≠ .fault ∧
      ∀ v, e.eval st.pre = .ok v → Yields (constantCondition v c) s t s' := by
  obtain ⟨own, heq⟩ := exists_condition_eq_folding hf hq c
  rw [heq, yields_folding] at h
  simp only [folded?, hf, hc, Bool.and_self, if_true] at h
  cases he : e.eval st.pre with
  | ok v =>
    simp only [he, Except.ok.injEq, Option.some.injEq, reduceCtorEq, false_and, or_false] at h
    obtain ⟨_, rfl, h⟩ := h
    exact ⟨nofun, fun w hw => by cases hw; exact h⟩
  | error stop =>
    cases stop with
    | error => exact ⟨nofun, nofun⟩
    | fault =>
      simp only [he] at h
      rcases h with ⟨_, h, -⟩ | ⟨h, -⟩ <;> cases h

/-- A condition without rows that has a value compiles to what the value compiles to. -/
theorem constantCondition_of_eval (e : Expr) (hc : e.isClosed = true)
    (h : Yields ((renderWith st inlined e).condition c) s t s') :
    e.eval st.pre ≠ .fault ∧
      ∀ v, e.eval st.pre = .ok v → Yields (constantCondition v c) s t s' := by
  cases e with
  | hole | new | init | list | array =>
    rw [renderWith] at h
    simp [Rendering.unsupported, Rendering.shape, Rendering.items] at h
  | const v type =>
    rw [renderWith] at h
    refine ⟨fun hfault => ?_, fun w hw => ?_⟩
    · cases hfault
    · cases hw
      exact h
  | param | lambda | invoke => refine ⟨fun h => ?_, fun v h => ?_⟩ <;> cases h
  | unary op e type =>
    by_cases hq : (unary op e type).isQuote = false
    · exact constantCondition_of_isFoldable hc rfl hq h
    · obtain rfl : op = .quote := by
        cases op <;> first | rfl | exact absurd rfl hq
      rw [isClosed_unary] at hc
      rw [renderWith] at h
      obtain ⟨hfault, hvalue⟩ := constantCondition_of_eval e hc h
      have heval : eval st.pre (unary .quote e type) = eval st.pre e := by
        rw [eval]
        exact bind_pure (eval st.pre e)
      rw [heval]
      exact ⟨hfault, hvalue⟩
  | call receiver method args type callee =>
    cases hf : (call receiver method args type callee).isFoldable with
    | true => exact constantCondition_of_isFoldable hc hf rfl h
    | false => exact absurd h (not_yields_aggregate hf)
  | member | binary | cond => exact constantCondition_of_isFoldable hc rfl rfl h

end Expr

/-! ### Truth literals -/

namespace Value

variable {v w u : Value} {b : Bool}

@[simp]
theorem under_under (v : Value) : v.under.under = v.under := by
  fun_induction under v with
  | case1 n v ih => exact ih
  | case2 v h => fun_cases under v with
    | case1 n v => exact absurd rfl (h n v)
    | case2 => rfl

theorem eq_array_of_arrayOf {e : Ty} {items : List Value} {n : Nat}
    (h : arrayOf e items n = .ok w) : w = array e (items.take n) := by
  unfold arrayOf at h
  split at h
  · exact (Except.ok.inj h).symm
  · cases h

/-- What is converted is left as it is, or no truth value comes of it, and nil only of nil. -/
theorem eq_or_of_convertUnder {t : Ty} (h : convertUnder v t = .ok w) :
    w = v ∨ (∀ b, w.under ≠ .bool b) ∧ (w.isNil = true → v.isNil = true) := by
  unfold convertUnder at h
  split at h
  · rename_i hn
    cases h
    unfold convertNumber at hn
    split at hn <;> cases hn <;> exact .inr ⟨nofun, nofun⟩
  -- a list may become an array, or a pointer to one
  split at h
  case h_7 | h_8 =>
    rw [eq_array_of_arrayOf h]
    exact .inr ⟨nofun, nofun⟩
  case h_9 e u _ =>
    split at h
    · obtain ⟨a, -, rfl⟩ := map_eq_ok.mp h
      exact .inr ⟨nofun, fun _ => rfl⟩
    · exact .inl (Except.ok.inj h).symm
  case h_10 e items u _ =>
    split at h
    · obtain ⟨a, -, rfl⟩ := map_eq_ok.mp h
      exact .inr ⟨nofun, nofun⟩
    · exact .inl (Except.ok.inj h).symm
  case h_12 =>
    cases h
    exact .inr ⟨nofun, fun _ => rfl⟩
  all_goals first
    | exact .inl (Except.ok.inj h).symm
    | cases h
      exact .inr ⟨nofun, nofun⟩

/-- Only a truth value converts to a truth value. -/
theorem under_of_convertUnder {t : Ty} (h : convertUnder v t = .ok w) (hw : w.under = .bool b) :
    v.under = .bool b := by
  rcases eq_or_of_convertUnder h with rfl | ⟨hbool, -⟩
  · exact hw
  · exact absurd hw (hbool b)

/-- What only the contents of a value decide, what no pointer satisfies, and what conversions of
contents do not bring about, is not brought about by any conversion. -/
theorem of_convert {P : Value → Prop} {t : Ty} (hunder : ∀ v, P v ↔ P v.under)
    (hptr : ∀ t v, ¬ P (ptr t v))
    (hconvert : ∀ {v w : Value} {t : Ty}, convertUnder v t = .ok w → P w → P v)
    (h : v.convert t = .ok w) (hw : P w) : P v := by
  unfold convert at h
  split at h
  · cases h
    exact hw
  · split at h
    · cases h
      exact absurd hw (hptr _ _)
    · cases hu : convertUnder v.under t.under with
      | error => rw [hu] at h; cases h
      | ok u =>
        rw [hu] at h
        cases h
        rw [hunder, under_wrapNames, ← hunder] at hw
        exact (hunder v).mpr (hconvert hu hw)

theorem eq_ok_of_widen {ε α : Type} {x : Attempt Empty α} {a : α}
    (h : (x.widen : Attempt ε α) = .ok a) : x = .ok a := by
  rcases x with (e | _) | a'
  · exact e.elim
  · cases h
  · cases h
    rfl

theorem of_convertTo {P : Value → Prop} {t : Option Ty} (hunder : ∀ v, P v ↔ P v.under)
    (hptr : ∀ t v, ¬ P (ptr t v))
    (hconvert : ∀ {v w : Value} {t : Ty}, convertUnder v t = .ok w → P w → P v)
    (h : v.convertTo t = .ok w) (hw : P w) : P v := by
  unfold convertTo at h
  have plain : ∀ {a t : Ty}, (if a.convertible t then (v.convert t).widen
      else .fail (.cannotConvert (some a) t) : Attempt EvalError Value) = .ok w → P v := by
    intro a t h
    split at h
    · exact of_convert hunder hptr hconvert (eq_ok_of_widen h) hw
    · cases h
  split at h
  · cases h
    exact hw
  · cases h
    exact hw
  · simp only at h
    split at h
    · cases h
      exact hw
    · split at h
      · split at h
        · rename_i e _ _
          cases hu : ((v.convert e).widen : Attempt EvalError Value) with
          | error => rw [hu] at h; cases h
          | ok u =>
            rw [hu] at h
            cases h
            exact absurd hw (hptr _ _)
        · exact plain h
      · exact plain h

theorem under_of_convertTo {t : Option Ty} (h : v.convertTo t = .ok w) (hw : w.under = .bool b) :
    v.under = .bool b := by
  refine of_convertTo (P := fun v => v.under = .bool b) (fun v => ?_) nofun
    (fun {v w t} h hw => ?_) h hw
  · rw [under_under]
  · exact under_of_convertUnder h hw

end Value

namespace Expr

variable {inlined : Expr → Rendering}

theorem eq_bool_of_truth {v : Value} {b : Bool} (h : v.truth = some b) : v = .bool b := by
  unfold Value.truth at h
  split at h
  · cases h
    rfl
  · cases h

/-- The literal of a truth value is its own. -/
theorem eq_of_truth_or_numberTruth? {v : Value} {b x : Bool}
    (h : (v.truth <|> numberTruth? v) = some x) (hv : v.under = .bool b) : x = b := by
  cases ht : v.truth with
  | some y =>
    obtain rfl := eq_bool_of_truth ht
    cases hv
    simpa [ht] using h.symm
  | none => simp [ht, numberTruth?, hv] at h

/-- A truth literal that has a truth value has that of the literal. -/
theorem eq_of_literalTruth? {e : Expr} {pre : Prelude} {v : Value} {b x : Bool}
    (hl : e.literalTruth? = some x) (he : e.eval pre = .ok v) (hv : v.under = .bool b) : x = b := by
  fun_induction literalTruth? e generalizing v with
  | case1 w type =>
    obtain rfl := eq_bool_of_truth hl
    cases he
    cases hv
    rfl
  | case2 w type type' =>
    have hw : w.convertTo type' = .ok v := he
    exact eq_of_truth_or_numberTruth? hl (Value.under_of_convertTo hw hv)
  | case3 e type _ ih =>
    rw [eval] at he
    obtain ⟨w, hw, he⟩ := bind_eq_ok.mp he
    exact ih hl hw (Value.under_of_convertTo he hv)
  | case4 => cases hl

theorem isClosed_of_literalTruth? {e : Expr} {x : Bool} (h : e.literalTruth? = some x) :
    e.isClosed = true := by
  fun_induction literalTruth? e with
  | case1 v type => rfl
  | case2 v type type' => rfl
  | case3 e type _ ih => rw [isClosed_unary, ih h]
  | case4 => cases h

/-- A conversion compiles to what its operand compiles to, unless it has a value. -/
theorem yields_convert {e : Expr} {type : Option Ty}
    (h : Yields ((renderWith st inlined (unary .convert e type)).condition c) s t s')
    (he : ∀ v, (unary .convert e type).eval st.pre ≠ .ok v) :
    Yields ((renderWith st inlined e).condition c) s t s' := by
  rw [renderWith_unary rfl] at h
  rcases yields_folding.mp h with ⟨v, hv, -⟩ | ⟨-, h⟩
  · rw [renderWith_expr, folded?] at hv
    split at hv
    · split at hv
      · rename_i w hw
        exact absurd hw (he w)
      · cases hv
      · cases hv
    · cases hv
  · exact h

/-- A literal with a value emits what its truth emits. -/
theorem yields_literal_of_eval {e : Expr} {v : Value} {x : Bool} (hl : e.literalTruth? = some x)
    (hv : e.eval st.pre = .ok v) (h : Yields ((renderWith st inlined e).condition c) s t s') :
    t = (if x then ([] : Text) else "1 = 0") ∧ s' = s := by
  have hconstant := (constantCondition_of_eval e (isClosed_of_literalTruth? hl) h).2 v hv
  obtain ⟨b, rfl, rfl, rfl⟩ := yields_constantCondition.mp hconstant
  obtain rfl := eq_of_literalTruth? hl hv rfl
  exact ⟨rfl, rfl⟩

/-- A literal that compiles emits what its truth emits. -/
theorem yields_literal {e : Expr} {x : Bool} (hl : e.literalTruth? = some x)
    (h : Yields ((renderWith st inlined e).condition c) s t s') :
    t = (if x then ([] : Text) else "1 = 0") ∧ s' = s := by
  by_cases he : ∃ v, e.eval st.pre = .ok v
  · obtain ⟨v, hv⟩ := he
    exact yields_literal_of_eval hl hv h
  simp only [not_exists] at he
  fun_induction literalTruth? e with
  | case1 v type => exact absurd rfl (he v)
  | case2 v type type' =>
    obtain ⟨b, rfl, rfl, rfl⟩ := yields_constantCondition.mp (yields_convert h he)
    obtain rfl := eq_of_truth_or_numberTruth? hl rfl
    exact ⟨rfl, rfl⟩
  | case3 e type _ ih =>
    have hy := yields_convert h he
    by_cases he' : ∃ v, e.eval st.pre = .ok v
    · obtain ⟨v, hv⟩ := he'
      exact yields_literal_of_eval hl hv hy
    · exact ih hl hy (by simpa using he')
  | case4 => cases hl

/-- A true literal that compiles emits nothing. -/
theorem yields_of_literalTruth? {e : Expr} (hl : e.literalTruth? = some true)
    (h : Yields ((renderWith st inlined e).condition c) s t s') : t = [] ∧ s' = s :=
  yields_literal hl h

end Expr

end QueryTree
