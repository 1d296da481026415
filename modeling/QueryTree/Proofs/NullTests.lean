import QueryTree.Proofs.Folding
import QueryTree.Proofs.StatementMarks

/-!
# Comparisons with null

A value compared with null is tested by `IS NULL`. Two rules bring this about. A null constant on
the left changes sides, which is decided by the expression before it is folded, and the operator
becomes `IS` where the right side is written as `NULL`, which is decided by its text. An expression
that only evaluates to nil is written as `NULL` as well, but on the left it is no constant and stays
where it is, and the comparison with its value is unknown for every row. An operand in parentheses
is not written as `NULL` on either side.

## Main definitions

* `Expr.operandText`: the text of an operand of a comparison
* `Expr.nullSuffix`: what follows a value that is tested for null

## Main results

* `Expr.literalTruth?_of_isNil`: what evaluates to nil is no truth literal
* `Expr.yields_value_of_isNil`: what evaluates to nil is written as `NULL`
* `null_comparison_iff`: which comparisons with nil test for it
-/

namespace QueryTree

open Emit

/-! ### Values that are nil -/

namespace Value

variable {v w : Value} {t : Ty}

/-- Only nil becomes nil by a conversion. -/
theorem isNil_of_convertUnder (h : convertUnder v t = .ok w) (hw : w.isNil = true) :
    v.isNil = true := by
  rcases eq_or_of_convertUnder h with rfl | ⟨-, hnil⟩
  · exact hw
  · exact hnil hw

theorem isNil_of_convertTo {t : Option Ty} (h : v.convertTo t = .ok w) (hw : w.isNil = true) :
    v.isNil = true := by
  refine of_convertTo (P := fun v => v.isNil = true) (fun v => ?_) nofun
    (fun {v w t} h hw => ?_) h hw
  · rw [isNil, isNil, under_under]
  · exact isNil_of_convertUnder h hw

theorem IsShaped.not_isNil (h : v.IsShaped) : v.isNil = false := by
  rw [isNil]
  obtain h | ⟨x, h⟩ | ⟨k, e, entries, rfl⟩ := h
  · unfold isRecord at h
    generalize v.under = u at h
    cases u with
    | record => rfl
    | _ => cases h
  · rw [h]
  · rfl

end Value

namespace Expr

variable {st : Settings} {c : Clause} {op : BinaryOp} {d : Draft} {s s' : Slate} {e x : Expr}
  {v : Value} {a b t : Text}

/-! ### What evaluates to nil -/

/-- What evaluates to nil is no truth literal. -/
theorem literalTruth?_of_isNil {pre : Prelude} (h : e.eval pre = .ok v) (hv : v.isNil = true) :
    e.literalTruth? = none := by
  have literal : ∀ w : Value, w.isNil = true → w.truth = none ∧ numberTruth? w = none := by
    intro w hw
    have hunder : w.under.isNil = true := by rwa [Value.isNil, Value.under_under, ← Value.isNil]
    constructor
    · cases w with
      | bool => cases hw
      | _ => rfl
    · rw [numberTruth?]
      generalize w.under = u at hunder
      cases u with
      | int | float => cases hunder
      | _ => rfl
  fun_induction literalTruth? e generalizing v with
  | case1 w type =>
    cases h
    exact (literal _ hv).1
  | case2 w type type' =>
    have hw : w.convertTo type' = .ok v := h
    obtain ⟨htruth, hnumber⟩ := literal w (Value.isNil_of_convertTo hw hv)
    rw [htruth, hnumber]
    rfl
  | case3 e type _ ih =>
    rw [eval] at h
    obtain ⟨w, hw, h⟩ := bind_eq_ok.mp h
    exact ih hw (Value.isNil_of_convertTo h hv)
  | case4 => rfl

/-- **What evaluates to nil is written as `NULL`**, and nothing is bound. -/
theorem yields_value_of_isNil (hc : e.isClosed = true) (h : e.eval st.pre = .ok v)
    (hv : v.isNil = true) (hgiven : e.unquote ≠ .hole) (hcall : e.isAggregateCall = false)
    (s : Slate) : Yields ((e.render st).value c) s "NULL" s := by
  have hconstant : Yields (constantValue st v) s "NULL" s := by
    rw [constantValue, if_pos hv]
    exact yields_pure.mpr ⟨rfl, rfl⟩
  have hvalue := hasValue_unquote h hcall
  generalize hu : e.unquote = u at hvalue
  cases hvalue with
  | hole => exact absurd hu hgiven
  | const t =>
    have hrender : (e.render st).value = (renderWith st (renderTo st 9999) e).value := rfl
    rw [hrender, ← value_unquote, hu]
    exact hconstant
  | folded hfold => exact (yields_value_of_folded hc h (by rw [hu]; exact hfold)).mpr hconstant
  | items he hslice _ =>
    rw [Value.isNil, hslice] at hv
    cases hv
  | shape he hshape =>
    rw [hshape.not_isNil] at hv
    cases hv

/-! ### Comparisons -/

/-- The text of an operand of a comparison, whose own text is given. -/
def operandText (e : Expr) (t : Text) : Text := if e.needsParens then "(" ++ t ++ ")" else t

theorem yields_operand (e : Expr) {m : Emit Text} (h : Yields m s t s') :
    Yields (grouped e.needsParens m) s (e.operandText t) s' := by
  cases hp : e.needsParens with
  | true => exact yields_enclose.mpr ⟨t, h, by rw [operandText, if_pos hp]⟩
  | false =>
    rw [operandText, hp]
    exact h

/-- The sides of a comparison. A nil constant on the left has changed sides. -/
def sides (l r : Expr) : Expr × Expr :=
  if l.isNullConstant && !r.isNullConstant then (r, l) else (l, r)

/-- An equality of operands that are no truth literals compares values. -/
theorem yields_equality_of_values {l r : Expr} {s₁ s₂ : Slate} (hop : op = .equal ∨ op = .notEqual)
    (hclosed : (binary op l r).isClosed = false) (hl : l.literalTruth? = none)
    (hr : r.literalTruth? = none) (ha : Yields (((sides l r).1.render st).value c) s a s₁)
    (hb : Yields (((sides l r).2.render st).value c) s₁ b s₂) :
    Yields (((binary op l r).render st).condition c) s
      ((sides l r).1.operandText a ++ equalityToken op ((sides l r).2.operandText b) ++
        (sides l r).2.operandText b) { s₂ with pendingType := [] } := by
  have htruth : Rendering.truthComparison? (l.render st) (r.render st) = none := by
    rw [Rendering.truthComparison?, render_expr, render_expr, hl, hr]
  have hcompared := yields_compared hop (yields_operand (sides l r).1 ha)
    (yields_operand (sides l r).2 hb)
  have hcomparison : Rendering.binaryCondition op (l.render st) (r.render st) c =
      compared op (grouped (sides l r).1.needsParens (((sides l r).1.render st).value c))
        (grouped (sides l r).2.needsParens (((sides l r).2.render st).value c)) := by
    have hrule : Rendering.binaryCondition op (l.render st) (r.render st) c =
        Rendering.comparison op (l.render st) (r.render st) c := by
      rcases hop with rfl | rfl <;> rfl
    rw [hrule, Rendering.comparison, htruth, render_expr, render_expr, sides]
    cases l.isNullConstant && !r.isNullConstant with
    | true => simp [render_expr]
    | false => simp [render_expr]
  rw [condition_binary, yields_folding, folded?_of_not_isClosed hclosed, hcomparison]
  exact .inr ⟨rfl, hcompared⟩

/-! ### The tests -/

/-- What follows a value that is tested for null. -/
def nullSuffix (op : BinaryOp) : Text := if op = .equal then " IS NULL" else " IS NOT NULL"

theorem equalityToken_null (op : BinaryOp) :
    equalityToken op "NULL" ++ ("NULL" : Text) = nullSuffix op := by
  unfold equalityToken nullSuffix
  rw [if_pos rfl]
  by_cases h : op = .equal
  · rw [if_pos h, if_pos h]
    decide
  · rw [if_neg h, if_neg h]
    decide

theorem isNullConstant_of_not_isClosed (h : x.isClosed = false) : x.isNullConstant = false := by
  cases x with
  | const => cases h
  | _ => rfl

theorem operandText_of_isNullConstant (h : e.isNullConstant = true) (t : Text) :
    e.operandText t = t := by
  cases e with
  | const => rfl
  | _ => cases h

/-- The text of nil as an operand. -/
theorem operandText_null (e : Expr) :
    e.operandText "NULL" = if e.needsParens then ("(NULL)" : Text) else "NULL" := by
  rw [operandText]
  cases e.needsParens <;> rfl

/-- A comparison with a text in front is no test for null, because the lengths differ. -/
theorem append_ne_nullTest (hop : op = .equal ∨ op = .notEqual) {front : Text}
    (h : front = "NULL" ∧ a ≠ "NULL" ∨ front = "(NULL)") :
    front ++ equalityToken op a ++ a ≠ a ++ nullSuffix op := by
  intro heq
  have hlength := congrArg List.length heq
  rw [List.length_append, List.length_append, List.length_append] at hlength
  have hne : (front ++ equalityToken op a).length ≠ (nullSuffix op).length := by
    rw [equalityToken]
    rcases hop with rfl | rfl
    all_goals
      rcases h with ⟨rfl, ha⟩ | rfl
      · rw [if_neg ha]
        decide
      · split <;> decide
  rw [List.length_append] at hne
  omega

theorem append_eq_nullTest_iff (hop : op = .equal ∨ op = .notEqual) (e : Expr) :
    e.operandText "NULL" ++ equalityToken op a ++ a = a ++ nullSuffix op ↔
      a = ("NULL" : Text) ∧ e.needsParens = false := by
  rw [operandText_null]
  cases hp : e.needsParens with
  | true =>
    simp only [if_true, Bool.true_eq_false, and_false, iff_false]
    exact append_ne_nullTest hop (.inr rfl)
  | false =>
    simp only [Bool.false_eq_true, if_false, and_true]
    constructor
    · intro heq
      by_contra hne
      exact append_ne_nullTest hop (.inl ⟨rfl, hne⟩) heq
    · rintro rfl
      rw [List.append_assoc, equalityToken_null]

theorem nullTest_eq_iff (hop : op = .equal ∨ op = .notEqual) (e : Expr) :
    a ++ equalityToken op (e.operandText "NULL") ++ e.operandText "NULL" = a ++ nullSuffix op ↔
      e.needsParens = false := by
  rw [operandText_null, List.append_assoc, List.append_cancel_left_eq]
  cases hp : e.needsParens with
  | true =>
    simp only [if_true, Bool.true_eq_false, iff_false]
    rcases hop with rfl | rfl <;> decide
  | false =>
    simp only [Bool.false_eq_true, if_false, iff_true]
    exact equalityToken_null op

end Expr

/-- **Which comparisons with nil test for it.** The value depends on a row and compiles, and the
other side depends on none and evaluates to nil. Both comparisons compile, and nothing is bound for
nil. With nil on the right the comparison tests for it unless nil is put in parentheses, and with
nil on the left if it is a constant, or if the value is written as `NULL` itself. -/
theorem null_comparison_iff {d : Draft} {c : Clause} {op : BinaryOp} {x e : Expr} {v : Value}
    {a : Text} {s : Slate} (hop : op = .equal ∨ op = .notEqual) (hc : c.isCondition = true)
    (hx : x.isClosed = false) (ha : Yields ((x.render d.settings).value c) d.slate a s)
    (he : e.isClosed = true) (hv : e.eval d.settings.pre = .ok v) (hnil : v.isNil = true)
    (hgiven : e.unquote ≠ .hole) (hcall : e.isAggregateCall = false) :
    ∃ l r, d.compile (.binary op e x) c [] = (l, .ok ()) ∧
      d.compile (.binary op x e) c [] = (r, .ok ()) ∧
      l.slate.params = s.params ∧ r.slate.params = s.params ∧
      (r.text = d.text ++ (x.operandText a ++ Expr.nullSuffix op) ↔ e.needsParens = false) ∧
      (l.text = d.text ++ (x.operandText a ++ Expr.nullSuffix op) ↔
        e.isNullConstant = true ∨ x.operandText a = "NULL" ∧ e.needsParens = false) := by
  have hclosed : ∀ y z : Expr, y = x ∨ z = x → (Expr.binary op y z).isClosed = false := by
    rintro y z (rfl | rfl)
    · rw [Expr.isClosed_binary, hx, Bool.false_and]
    · rw [Expr.isClosed_binary, hx, Bool.and_false]
  have hxl : x.literalTruth? = none := by
    refine Option.eq_none_iff_forall_not_mem.mpr fun b hb => ?_
    rw [Expr.isClosed_of_literalTruth? hb] at hx
    cases hx
  have hel := Expr.literalTruth?_of_isNil hv hnil
  have hxn := Expr.isNullConstant_of_not_isClosed hx
  have hnull := fun s => Expr.yields_value_of_isNil (c := c) he hv hnil hgiven hcall s
  have hright : x.sides e = (x, e) := by rw [Expr.sides, hxn]; rfl
  have hr := Expr.yields_equality_of_values (l := x) (r := e) (a := a) (b := "NULL") hop
    (hclosed x e (.inl rfl)) hxl hel (by rw [hright]; exact ha) (by rw [hright]; exact hnull s)
  rw [hright] at hr
  cases hconst : e.isNullConstant with
  | true =>
    have hleft : e.sides x = (x, e) := by rw [Expr.sides, hxn, hconst]; rfl
    have hl := Expr.yields_equality_of_values (l := e) (r := x) (a := a) (b := "NULL") hop
      (hclosed e x (.inr rfl)) hel hxl (by rw [hleft]; exact ha) (by rw [hleft]; exact hnull s)
    rw [hleft] at hl
    refine ⟨_, _, Draft.compile_of_yields hc rfl hl, Draft.compile_of_yields hc rfl hr, rfl, rfl,
      ?_, ?_⟩
    · rw [List.append_cancel_left_eq, Expr.nullTest_eq_iff hop]
    · rw [List.append_cancel_left_eq, Expr.operandText_of_isNullConstant hconst, List.append_assoc,
        Expr.equalityToken_null]
      simp
  | false =>
    have hleft : e.sides x = (e, x) := by rw [Expr.sides, hconst]; rfl
    have hl := Expr.yields_equality_of_values (l := e) (r := x) (a := "NULL") (b := a) hop
      (hclosed e x (.inr rfl)) hel hxl (by rw [hleft]; exact hnull d.slate)
      (by rw [hleft]; exact ha)
    rw [hleft] at hl
    refine ⟨_, _, Draft.compile_of_yields hc rfl hl, Draft.compile_of_yields hc rfl hr, rfl, rfl,
      ?_, ?_⟩
    · rw [List.append_cancel_left_eq, Expr.nullTest_eq_iff hop]
    · rw [List.append_cancel_left_eq, Expr.append_eq_nullTest_iff hop]
      simp

/-! ### Nil on the left -/

/-- A null that is converted to a number. -/
def Sample.convertedNull : Expr := .unary .convert .null (some (.int .int))

/-- The age is a null that stands on the left and is converted first. -/
def Sample.nullIsAge : Expr := .binary .equal convertedNull (.field customerRow "Age")

theorem Sample.whereText?_nullIsAge : whereText? (.standard .sqlServer world) nullIsAge =
    some ("NULL = c.age" : Text) := by
  decide +kernel

open Sample in
theorem null_comparison_iff_convertedNull :
    ∃ l r, (Draft.new (.standard .sqlServer world)).compile nullIsAge .where_ [] = (l, .ok ()) ∧
      (Draft.new (.standard .sqlServer world)).compile
        (.binary .equal (.field customerRow "Age") convertedNull) .where_ [] = (r, .ok ()) ∧
      l.slate.params.length = 0 ∧ r.slate.params.length = 0 ∧
      r.text = "c.age IS NULL" ∧ l.text ≠ "c.age IS NULL" := by
  obtain ⟨s, ha, hparams⟩ : ∃ s, Yields (((Expr.field customerRow "Age").render
      (.standard .sqlServer world)).value .where_) .empty "c.age" s ∧ s.params = [] :=
    ⟨_, rfl, rfl⟩
  obtain ⟨l, r, hl, hr, hlp, hrp, hright, hleft⟩ := null_comparison_iff
    (d := Draft.new (.standard .sqlServer world)) (c := .where_) (x := .field customerRow "Age")
    (e := convertedNull) (v := .nil) (.inl rfl) rfl (by decide) ha (by decide) rfl rfl nofun
    (by decide)
  refine ⟨l, r, hl, hr, by rw [hlp, hparams]; rfl, by rw [hrp, hparams]; rfl,
    hright.mpr (by decide), fun h => ?_⟩
  exact absurd (hleft.mp h) (by decide)

open Sample in
/-- **A comparison with nil that does not test for it.** Its text compares null with the value. -/
theorem exists_null_comparison_unknown :
    convertedNull.isClosed = true ∧ convertedNull.eval world = .ok .nil ∧
      ∃ d, (Draft.new (.standard .sqlServer world)).compile nullIsAge .where_ [] = (d, .ok ()) ∧
        d.text = "NULL = c.age" ∧ d.text ≠ "c.age" ++ Expr.nullSuffix .equal := by
  obtain ⟨d, hd, ht⟩ := compile_of_whereText? whereText?_nullIsAge
  exact ⟨by decide, rfl, d, hd, ht, by rw [ht]; decide⟩

end QueryTree
