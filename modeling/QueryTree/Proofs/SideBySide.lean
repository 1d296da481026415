import QueryTree.Proofs.Counterpart
import QueryTree.Proofs.Evaluated

/-!
# Trees side by side

Two expressions that vary have renderings that are counterparts, provided that the strings in which
they differ are bound as values. Five things can happen to a string constant instead. It can be
folded away in an operation without rows; a method without a rule can run on it; an `Equals`
compares two operands, and these are folded whatever other arguments the call has; an aggregate
function takes it for the name of a column; and inlining can put it where one of these happens.
`Expr.Binds` rules them out, the last by asking the same of inlined bodies.

An expression binds its own strings: with equal trees only the dialect differs, and nothing is
asked.

## Main definitions

* `Expr.FixedTo`: no varying string stands for the argument of an aggregate function
* `Expr.BindsAt`, `Expr.BindsTo`, `Expr.Binds`: varying strings are bound as values

## Main results

* `Expr.counterpart_render`: the renderings are counterparts
* `Expr.binds_refl`: an expression binds its own strings
-/

namespace QueryTree

open Emit

namespace Expr

/-! ### Where strings are bound -/

/-- Whether the expression is no call, or one of a method with a rule. -/
def hasRule : Expr → Bool
  | call receiver method _ _ _ =>
    match Intrinsic.ofName? method with
    | some i => !(i.isAggregate && !receiver.isHole)
    | none => false
  | _ => true

/-- The comparison that a call of `Equals` stands for. -/
def equality? : Expr → Option Expr
  | call receiver method args _ _ =>
    if Intrinsic.ofName? method = some .equals then
      match receiver.isHole, args with
      | false, a :: _ => some (binary .equal receiver a)
      | true, t :: a :: _ => some (binary .equal t a)
      | _, _ => none
    else none
  | _ => none

/-- The argument of an aggregate function. -/
def aggregated? : Expr → Option Expr
  | call receiver method args _ _ =>
    if receiver.isHole && isAggregateName method then args.head? else none
  | _ => none

/-- The body of an invocation with its arguments put in, if it can be inlined. -/
def body? : Expr → Option Expr
  | invoke target args => (inline target args).toOption
  | _ => none

/-- The expressions are not different constants, also not behind quotes and lambdas; `inlined` says
the same of the bodies of invocations. -/
def FixedWith (inlined : Expr → Expr → Prop) : Expr → Expr → Prop
  | const v _, const w _ => v = w
  | unary .quote e _, unary .quote e' _ => FixedWith inlined e e'
  | lambda e _, lambda e' _ => FixedWith inlined e e'
  | invoke target args, invoke target' args' =>
    ∀ b ∈ (invoke target args).body?, ∀ b' ∈ (invoke target' args').body?, inlined b b'
  | _, _ => True

/-- No varying string stands for the argument of an aggregate function, with at most `depth` nested
inlinings. -/
def FixedTo : (depth : Nat) → Expr → Expr → Prop
  | 0, _, _ => True
  | depth + 1, e, e' => FixedWith (FixedTo depth) e e'

/-- The strings in which an expression varies are bound as values as far as the expression itself
decides it. -/
structure BindsAt (fixed bodies : Expr → Expr → Prop) (e e' : Expr) : Prop where
  settled : Settled e e'
  ruled : e = e' ∨ e.hasRule = true
  equality : ∀ b ∈ e.equality?, ∀ b' ∈ e'.equality?, b = b' ∨ b.isClosed = false
  aggregated : ∀ a ∈ e.aggregated?, ∀ a' ∈ e'.aggregated?, fixed a a'
  body : ∀ b ∈ e.body?, ∀ b' ∈ e'.body?, bodies b b'

/-- Varying strings are bound as values, with at most `depth` nested inlinings. -/
def BindsTo : (depth : Nat) → Expr → Expr → Prop
  | 0, _, _ => True
  | depth + 1, e, e' => Throughout (BindsAt (FixedTo (depth + 1)) (BindsTo depth)) e e'

/-- Varying strings are bound as values. -/
def Binds (e e' : Expr) : Prop := BindsTo inlineDepth e e'

/-! ### Equal trees -/

theorem fixedWith_refl {inlined : Expr → Expr → Prop} (h : ∀ e, inlined e e) :
    (e : Expr) → FixedWith inlined e e
  | const .. => rfl
  | unary op e _ => by
    have ih := fixedWith_refl h e
    cases op with
    | quote => exact ih
    | _ => trivial
  | lambda e _ => fixedWith_refl h e
  | invoke target args => by
    intro b hb b' hb'
    obtain rfl := Option.mem_unique hb hb'
    exact h b
  | hole | param _ | member .. | binary .. | call .. | new .. | init .. | list .. | array ..
  | cond .. => trivial

theorem fixedTo_refl (depth : Nat) (e : Expr) : FixedTo depth e e := by
  induction depth generalizing e with
  | zero => trivial
  | succ depth ih => exact fixedWith_refl ih e

theorem bindsTo_refl (depth : Nat) (e : Expr) : BindsTo depth e e := by
  induction depth generalizing e with
  | zero => trivial
  | succ depth ih =>
    refine List.forall₂_same.mpr fun x _ => ⟨fun _ => .inl rfl, .inl rfl, ?_, ?_, ?_⟩
    · intro b hb b' hb'
      exact .inl (Option.mem_unique hb hb')
    · intro a ha a' ha'
      obtain rfl := Option.mem_unique ha ha'
      exact fixedTo_refl (depth + 1) a
    · intro b hb b' hb'
      obtain rfl := Option.mem_unique hb hb'
      exact ih b

theorem binds_refl (e : Expr) : Binds e e := bindsTo_refl inlineDepth e

/-! ### Renderings -/

section

variable {P : Pairing} {st : Settings} {inlined inlined' : Expr → Rendering}
  {fixed bodies : Expr → Expr → Prop}

theorem rule?_eq_none_iff {receiver : Rendering} {method : Text} {args : List Expr}
    {type : Option Ty} {callee : Option Text} : Rendering.rule? receiver method = none ↔
      (call receiver.expr method args type callee).hasRule = false := by
  rw [Rendering.rule?.eq_def, hasRule]
  cases Intrinsic.ofName? method with
  | none => simp
  | some i => simp

/-- The operands that an `Equals` compares. -/
theorem equality?_eq {receiver a : Rendering} {method : Text} {args : List Rendering}
    (type : Option Ty) (callee : Option Text) (h : Rendering.rule? receiver method = some .equals)
    (ha : a ∈ (Rendering.operands receiver args).2.head?) :
    (call receiver.expr method (args.map (·.expr)) type callee).equality? =
      some (binary .equal (Rendering.operands receiver args).1.expr a.expr) := by
  have hname := (Rendering.rule?_eq_some h).1
  cases hh : receiver.expr.isHole with
  | false =>
    cases args with
    | nil => simp [Rendering.operands, hh] at ha
    | cons x xs =>
      obtain rfl : x = a := by simpa [Rendering.operands, hh] using ha
      simp [equality?, Rendering.operands, hh, hname]
  | true =>
    cases args with
    | nil => simp [Rendering.operands, hh] at ha
    | cons t xs =>
      cases xs with
      | nil => simp [Rendering.operands, hh] at ha
      | cons x xs =>
        obtain rfl : x = a := by simpa [Rendering.operands, hh] using ha
        simp [equality?, Rendering.operands, hh, hname]

mutual

/-- One case per construct: the renderings are counterparts when those of inlined bodies are. -/
theorem counterpart_renderWith
    (hin : ∀ b b', Varies P.strings b b' → bodies b b' →
      P.Counterpart (fixed b b') (inlined b) (inlined' b')) :
    {e e' : Expr} → Varies P.strings e e' →
      Throughout (BindsAt (FixedWith fixed) bodies) e e' →
      P.Counterpart (FixedWith fixed e e') (renderWith (P.first st) inlined e)
        (renderWith (P.second st) inlined' e')
  | _, _, .hole, _ => by
    rw [renderWith, renderWith]
    exact Pairing.counterpart_unsupported .hole
  | _, _, .const h, _ => by
    rw [renderWith, renderWith]
    exact Pairing.counterpart_constant h _
  | _, _, .param p, _ => by
    rw [renderWith, renderWith]
    exact Pairing.counterpart_param p
  | _, _, .member h, ht => by
    have hself := ht.self (.member h) rfl
    rw [renderWith, renderWith]
    exact Pairing.counterpart_member h (hself.settled rfl)
  | _, _, .binary hl hr, ht => by
    have hself := ht.self (.binary hl hr) rfl
    rw [Throughout, walk, walk, List.forall₂_cons, forall₂_append_iff hl.length_walk] at ht
    have hl := counterpart_renderWith hin hl ht.2.1
    have hr := counterpart_renderWith hin hr ht.2.2
    rw [renderWith, renderWith]
    refine Pairing.counterpart_binary (hl.mono nofun) (hr.mono nofun) ?_
    rw [renderWith_expr, renderWith_expr, renderWith_expr, renderWith_expr]
    exact hself.settled rfl
  | _, _, @Varies.unary _ op _ _ type h, ht => by
    have hself := ht.self (.unary h) rfl
    rw [Throughout, walk, walk, List.forall₂_cons] at ht
    have ih := counterpart_renderWith hin h ht.2
    by_cases hq : op = .quote
    · subst hq
      rw [renderWith, renderWith]
      exact Pairing.counterpart_quoted ih type
    · have hquote : ∀ e : Expr, (Expr.unary op e type).isQuote = false := by
        intro e
        cases op with
        | quote => exact absurd rfl hq
        | _ => rfl
      rw [renderWith_unary (hquote _), renderWith_unary (hquote _)]
      refine Pairing.counterpart_unary (ih.mono nofun) type ?_
      rw [renderWith_expr, renderWith_expr]
      exact hself.settled rfl
  | _, _, @Varies.call _ _ _ method _ _ type callee h ha, ht => by
    have hself := ht.self (.call h ha) rfl
    rw [Throughout, walk, walk, List.forall₂_cons, forall₂_append_iff h.length_walk] at ht
    have hr : P.Counterpart False _ _ := (counterpart_renderWith hin h ht.2.1).mono nofun
    have has := counterpart_renderAll hin ha ht.2.2
    rw [renderWith, renderWith]
    refine Pairing.counterpart_call hr has ?_ ?_ ?_ ?_
    · simp only [renderWith_expr, renderAll_expr]
      exact hself.settled rfl
    · simp only [renderWith_expr, renderAll_expr]
      refine hself.ruled.imp_right fun hrule hnone => ?_
      rw [rule?_eq_none_iff, renderWith_expr, hrule] at hnone
      cases hnone
    · intro hrule a ha a' ha'
      have heq := equality?_eq type callee hrule ha
      have heq' := equality?_eq type callee
        (Pairing.rule?_eq hr method ▸ hrule) ha'
      simp only [renderWith_expr, renderAll_expr] at heq heq'
      exact hself.equality _ heq _ heq'
    · intro hhole hname a hmem a' hmem'
      rw [renderWith_expr] at hhole
      have hhole' := h.isHole ▸ hhole
      cases ha with
      | nil => cases hmem
      | @cons x x' xs xs' hx hxs =>
        cases hmem
        cases hmem'
        rw [walkAll, walkAll, forall₂_append_iff hx.length_walk] at ht
        refine (counterpart_renderWith hin hx ht.2.2.1).mono fun _ => ?_
        exact hself.aggregated x (by simp [aggregated?, hhole, hname]) x'
          (by simp [aggregated?, hhole', hname])
  | _, _, .new h, ht => by
    rw [Throughout, walk, walk, List.forall₂_cons] at ht
    rw [renderWith, renderWith]
    exact Pairing.counterpart_shape (.new h) _ (counterpart_renderBindings hin h ht.2)
  | _, _, .init h, ht => by
    rw [Throughout, walk, walk, List.forall₂_cons] at ht
    rw [renderWith, renderWith]
    exact Pairing.counterpart_shape (.init h) _ (counterpart_renderBindings hin h ht.2)
  | _, _, .list h, ht => by
    rw [Throughout, walk, walk, List.forall₂_cons] at ht
    rw [renderWith, renderWith]
    exact Pairing.counterpart_items (.list h) (counterpart_renderAll hin h ht.2)
  | _, _, .array h, ht => by
    rw [Throughout, walk, walk, List.forall₂_cons] at ht
    rw [renderWith, renderWith]
    exact Pairing.counterpart_items (.array h) (counterpart_renderAll hin h ht.2)
  | _, _, @Varies.lambda _ _ _ ps h, ht => by
    rw [Throughout, walk, walk, List.forall₂_cons, forall₂_append_iff rfl] at ht
    rw [renderWith, renderWith]
    exact Pairing.counterpart_lambda (counterpart_renderWith hin h ht.2.2) ps
  | _, _, .invoke h ha, ht => by
    have hself := ht.self (.invoke h ha) rfl
    rw [renderWith, renderWith]
    refine Pairing.counterpart_invocation (.invoke h ha) ?_
    rcases h.inline ha with ⟨b, b', hb, hb', hvar⟩ | ⟨x, hx, hx'⟩
    · have hmem : b ∈ (invoke _ _).body? := congrArg Except.toOption hb
      have hmem' : b' ∈ (invoke _ _).body? := congrArg Except.toOption hb'
      rw [hb, hb']
      exact .returned ((hin b b' hvar (hself.body b hmem b' hmem')).mono fun hfixed =>
        hfixed b hmem b' hmem')
    · rw [hx, hx']
      exact .failed x
  | _, _, .cond hc ha hb, ht => by
    have hself := ht.self (.cond hc ha hb) rfl
    rw [Throughout, walk, walk, List.forall₂_cons, List.append_assoc, List.append_assoc,
      forall₂_append_iff hc.length_walk, forall₂_append_iff ha.length_walk] at ht
    obtain ⟨-, htc, hta, htb⟩ := ht
    have hdecided := hc.closedTruth? (htc.imp fun _ _ h => h.settled) st.pre
    have hc := counterpart_renderWith hin hc htc
    have ha := counterpart_renderWith hin ha hta
    have hb := counterpart_renderWith hin hb htb
    rw [renderWith, renderWith]
    refine Pairing.counterpart_cond (hc.mono nofun) (ha.mono nofun) (hb.mono nofun) ?_ ?_
    · rw [renderWith_expr, renderWith_expr]
      exact hdecided
    · simp only [renderWith_expr]
      exact hself.settled rfl

theorem counterpart_renderAll
    (hin : ∀ b b', Varies P.strings b b' → bodies b b' →
      P.Counterpart (fixed b b') (inlined b) (inlined' b')) :
    {es es' : List Expr} → VariesAll P.strings es es' →
      List.Forall₂ (BindsAt (FixedWith fixed) bodies) (walkAll es) (walkAll es') →
      List.Forall₂ (P.Counterpart False) (renderAll (P.first st) inlined es)
        (renderAll (P.second st) inlined' es')
  | _, _, .nil, _ => .nil
  | _, _, .cons h hs, ht => by
    rw [walkAll, walkAll, forall₂_append_iff h.length_walk] at ht
    rw [renderAll, renderAll]
    exact .cons ((counterpart_renderWith hin h ht.1).mono nofun) (counterpart_renderAll hin hs ht.2)

theorem counterpart_renderBindings
    (hin : ∀ b b', Varies P.strings b b' → bodies b b' →
      P.Counterpart (fixed b b') (inlined b) (inlined' b')) :
    {bs bs' : List (Text × Expr)} → VariesBindings P.strings bs bs' →
      List.Forall₂ (BindsAt (FixedWith fixed) bodies) (walkBindings bs) (walkBindings bs') →
      P.Bindings (renderBindings (P.first st) inlined bs)
        (renderBindings (P.second st) inlined' bs')
  | _, _, .nil, _ => .nil
  | _, _, .cons h hs, ht => by
    rw [walkBindings, walkBindings, forall₂_append_iff h.length_walk] at ht
    rw [renderBindings, renderBindings]
    exact .cons ⟨rfl, (counterpart_renderWith hin h ht.1).mono nofun⟩
      (counterpart_renderBindings hin hs ht.2)

end

/-- **The renderings of expressions that vary are counterparts**, by induction on how deeply inlined
bodies nest. -/
theorem counterpart_renderTo : (depth : Nat) → {e e' : Expr} → Varies P.strings e e' →
    BindsTo depth e e' →
    P.Counterpart (FixedTo depth e e') (e.renderTo (P.first st) depth)
      (e'.renderTo (P.second st) depth)
  | 0, _, _, _, _ => Pairing.counterpart_unsupported .hole
  | depth + 1, _, _, h, hb => by
    rw [renderTo, renderTo]
    exact counterpart_renderWith (fun _ _ => counterpart_renderTo depth) h hb

theorem counterpart_render {e e' : Expr} (h : Varies P.strings e e') (hb : Binds e e') :
    P.Counterpart (FixedTo inlineDepth e e') (e.render (P.first st)) (e'.render (P.second st)) :=
  counterpart_renderTo inlineDepth h hb

end

end Expr

end QueryTree
