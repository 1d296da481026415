import QueryTree.Proofs.Closed
import QueryTree.Proofs.Grouping
import QueryTree.Proofs.Mirrored
import QueryTree.Proofs.StatementMarks

/-!
# Declared types of bound values

A column may declare a database type. When a column has been written its type is pending, and the
next bound value takes it. A comparison, a truth test and a list of items leave no type pending; but
a test for null or emptiness does, and so does a pattern test that ends with a column and a
membership in a list that is null. Then a value that the next condition binds before it writes a
column has the type of a column it is not compared with.

What a condition binds is therefore what it binds alone as long as the condition before leaves no
type pending. In any case it binds the same values, and their types are those of the condition
compiled with that type pending.

## Main definitions

* `Slate.BindAlike`, `Simulation.bindings`: states that are extended by the same bound values
* `Draft.awaiting`: a draft in which a declared type is pending

## Main results

* `bindings_of_joined`: what the second of two joined conditions binds
* `exists_leaked_type`: a condition that binds a type of the condition before
-/

namespace QueryTree

open Emit

/-! ### States that bind the same values -/

/-- The first state extends `base` by the same bound values by which the second extends `base'`. If
`typed` holds, they have the same types, and the same type is pending. -/
structure Slate.BindAlike (typed : Prop) (base base' s s' : Slate) : Prop where
  params : ∃ ps ps', s.params = base.params ++ ps ∧ s'.params = base'.params ++ ps' ∧
    ps.map (·.value) = ps'.map (·.value) ∧ (typed → ps = ps')
  pendingType : typed → s.pendingType = s'.pendingType

namespace Slate.BindAlike

variable {typed : Prop} {base base' s s' : Slate}

theorem start (h : typed → base.pendingType = base'.pendingType) :
    BindAlike typed base base' base base' :=
  ⟨⟨[], [], by simp, by simp, rfl, fun _ => rfl⟩, h⟩

theorem bindValue (h : BindAlike typed base base' s s') (p : Profile) (v : Value) {t t' : Text}
    (ht : typed → t = t') :
    BindAlike typed base base' (s.bindValue p v t).2 (s'.bindValue p v t').2 := by
  obtain ⟨ps, ps', hs, hs', hvalues, hps⟩ := h.params
  refine ⟨⟨ps ++ [⟨v, if t.isEmpty then s.pendingType else t⟩],
    ps' ++ [⟨v, if t'.isEmpty then s'.pendingType else t'⟩], ?_, ?_, ?_, fun htyped => ?_⟩,
    fun _ => rfl⟩
  · rw [Slate.bindValue, hs, List.append_assoc]
  · rw [Slate.bindValue, hs', List.append_assoc]
  · simp [hvalues]
  · rw [hps htyped, ht htyped, h.pendingType htyped]

end Slate.BindAlike

/-- Compilations that extend two states by the same bound values. Their texts may differ, for
nothing is asked of aliases and of the number of bound values. -/
def Simulation.bindings (typed : Prop) (base base' : Slate) : Simulation where
  rows := .identity
  sameText := False
  States := Slate.BindAlike typed base base'
  Types t t' := typed → t = t'
  types_refl _ _ := rfl
  pendingType hs := hs.pendingType
  params_length _ h := h.elim
  set_pending hs _ _ ht := { hs with pendingType := ht }
  bind_value hs p v _ _ ht := hs.bindValue p v ht
  add_field hs _ _ _ := { hs with }
  bind_row hs _ _ _ := { hs with }
  alias_eq _ _ _ _ h := h.elim

/-- A condition that compiles from one state compiles from every other and binds the same values. -/
theorem Expr.exists_yields_condition (typed : Prop) {st : Settings} {e : Expr} {c : Clause}
    {s₀ s : Slate} (s₀' : Slate) {t : Text} (h : Yields ((e.render st).condition c) s₀ t s)
    (hp : typed → s₀.pendingType = s₀'.pendingType) :
    ∃ t' s', Yields ((e.render st).condition c) s₀' t' s' ∧ Slate.BindAlike typed s₀ s₀' s s' := by
  have hr : (Simulation.bindings typed s₀ s₀').Mirrors (e.render st)
      ((e.rename .identity).render st) :=
    Expr.mirrors_renderTo Expr.inlineDepth (Renaming.admits_identity e)
  rw [Expr.rename_of_forall (fun _ => rfl)] at hr
  have hruns := hr.condition c s₀ s₀' (.start hp)
  rw [Yields] at h
  rw [h] at hruns
  generalize hother : result ((e.render st).condition c) s₀' = y at hruns
  cases hruns with
  | returned _ hs => exact ⟨_, _, hother, hs⟩

/-! ### Joined conditions -/

namespace Expr

variable {st : Settings} {c : Clause} {op : BinaryOp} {p q : Expr} {s s' s₁ s₂ : Slate} {a b : Text}

/-- Whether two joined conditions are both looked at: they do not fold to a truth value, and no
alternative is a true literal. -/
def BothRendered (st : Settings) (op : BinaryOp) (p q : Expr) : Prop :=
  (binary op p q).folded? st.pre = .ok none ∧
    (op.isOr = true → p.literalTruth? ≠ some true ∧ q.literalTruth? ≠ some true)

/-- Two joined conditions that are both looked at yield one after the other. -/
theorem exists_yields_joined (hop : op.isLogical = true) (h : BothRendered st op p q)
    (hp : Yields ((p.render st).condition c) s a s₁)
    (hq : Yields ((q.render st).condition c) s₁ b s₂) :
    ∃ t, Yields (((binary op p q).render st).condition c) s t s₂ := by
  have hlogical : Rendering.binaryCondition op (p.render st) (q.render st) c =
      Rendering.logical op (p.render st) (q.render st) c := by
    rw [Rendering.binaryCondition, if_pos hop]
  have hrender : ((binary op p q).render st).condition c = Emit.folding st
      (.binary op (p.render st).expr (q.render st).expr) (Emit.constantCondition · c)
      (Rendering.binaryCondition op (p.render st) (q.render st) c) := rfl
  rw [hrender, render_expr, render_expr, hlogical]
  by_cases hlit : op.isOr = false ∧ p.literalTruth? = some true
  · -- a true literal is left out, and it emits nothing
    obtain ⟨hor, hlit⟩ := hlit
    obtain ⟨-, rfl⟩ := yields_of_literalTruth? hlit hp
    refine ⟨b, yields_folding.mpr (.inr ⟨h.1, ?_⟩)⟩
    rw [Rendering.logical, render_expr, render_expr]
    simpa [hor, hlit] using hq
  · have hvacuous : (op.isOr && (decide (p.literalTruth? = some true) ||
        decide (q.literalTruth? = some true))) = false := by
      cases hor : op.isOr with
      | false => rfl
      | true => simp [h.2 hor]
    have hleft : (!op.isOr && decide (p.literalTruth? = some true)) = false := by
      cases hor : op.isOr with
      | false => simpa [hor] using hlit
      | true => rfl
    have hjoined : ∃ t, Yields (Rendering.logical op (p.render st) (q.render st) c) s t s₂ := by
      rw [Rendering.logical, render_expr, render_expr]
      simp only [hvacuous, hleft, Bool.false_eq_true, if_false, yields_joined,
        yields_groupedCondition]
      exact ⟨_, _, s₁, _, ⟨a, hp, rfl⟩, ⟨b, hq, rfl⟩, rfl⟩
    obtain ⟨t, ht⟩ := hjoined
    exact ⟨t, yields_folding.mpr (.inr ⟨h.1, ht⟩)⟩

/-! ### Conditions that leave no type pending -/

/-- A condition that leaves no declared type pending: a constant, a truth test, a comparison of
values, or one made of such conditions. -/
inductive Settles : Expr → Prop
  | const (v : Value) (t : Option Ty) : Settles (.const v t)
  | member (e : Expr) (name : Text) (t owner : Option Ty) : Settles (.member e name t owner)
  | values {op : BinaryOp} {l r : Expr} (hop : op.isComparison = true)
    (hplain : (binary op l r).isTruthComparison = false) : Settles (.binary op l r)
  | truths {op : BinaryOp} {l r : Expr} (hop : op.isComparison = true) (hl : Settles l)
    (hr : Settles r) : Settles (.binary op l r)
  | joined {op : BinaryOp} {l r : Expr} (hop : op.isLogical = true) (hl : Settles l)
    (hr : Settles r) : Settles (.binary op l r)
  | not {e : Expr} (he : Settles e) (t : Option Ty) : Settles (.unary .not e t)

/-- The emitter leaves no declared type pending where none was. -/
def Emit.Settles (m : Emit Text) : Prop :=
  ∀ s t s', Yields m s t s' → s.pendingType = [] → s'.pendingType = []

theorem settles_constantCondition (v : Value) : Emit.Settles (constantCondition v c) := by
  intro s t s' h hs
  obtain ⟨_, _, _, rfl⟩ := yields_constantCondition.mp h
  exact hs

theorem settles_folding {e : Expr} {own : Emit Text} (h : Emit.Settles own) :
    Emit.Settles (folding st e (constantCondition · c) own) := by
  intro s t s' hy hs
  rcases yields_folding.mp hy with ⟨v, -, hy⟩ | ⟨-, hy⟩
  · exact settles_constantCondition v _ _ _ hy hs
  · exact h _ _ _ hy hs

theorem settles_compared (op : BinaryOp) (l r : Emit Text) : Emit.Settles (compared op l r) := by
  intro s t s' h _
  simp only [compared, yields_bind, yields_after, yields_setPending, yields_pure] at h
  obtain ⟨a, s₁, -, b, s₂, -, _, s₃, rfl, -, rfl⟩ := h
  rfl

theorem settles_negatable {r : Rendering} (h : Emit.Settles (r.condition c)) (isNegated : Bool) :
    Emit.Settles (r.negatable isNegated c) := by
  intro s t s' hy hs
  obtain ⟨a, ha, -⟩ := yields_negated.mp hy
  obtain ⟨a', ha', -⟩ := yields_groupedCondition.mp ha
  exact h _ _ _ ha' hs

theorem settles_logical {l r : Rendering} (hl : Emit.Settles (l.condition c))
    (hr : Emit.Settles (r.condition c)) : Emit.Settles (Rendering.logical op l r c) := by
  intro s t s' h hs
  unfold Rendering.logical at h
  dsimp only at h
  split at h
  · obtain ⟨-, rfl⟩ := yields_pure.mp h
    exact hs
  split at h
  · exact hr _ _ _ h hs
  · obtain ⟨a, s₁, b, ha, hb, -⟩ := yields_joined.mp h
    obtain ⟨a', ha, -⟩ := yields_groupedCondition.mp ha
    obtain ⟨b', hb, -⟩ := yields_groupedCondition.mp hb
    exact hr _ _ _ hb (hl _ _ _ ha hs)

theorem settles_comparison {l r : Rendering} (hl : Emit.Settles (l.condition c))
    (hr : Emit.Settles (r.condition c)) : Emit.Settles (Rendering.comparison op l r c) := by
  unfold Rendering.comparison
  dsimp only
  split
  · split
    · rename_i x literal hx
      rcases Rendering.truthComparison?_eq hx with rfl | rfl
      · exact settles_negatable hl _
      · exact settles_negatable hr _
    · exact settles_compared _ _ _
  · exact settles_compared _ _ _

/-- A condition that settles leaves no declared type pending. -/
theorem Settles.emit {e : Expr} (h : e.Settles) : Emit.Settles ((e.render st).condition c) := by
  induction h with
  | const v t => exact settles_constantCondition v
  | member e name t owner =>
    refine settles_folding (e := .member e name t owner) ?_
    intro s t s' h _
    dsimp only at h
    split at h
    · exact absurd h not_yields_fail
    · simp only [yields_bind, yields_setPending, yields_pure] at h
      obtain ⟨_, _, -, _, _, rfl, -, rfl⟩ := h
      rfl
  | @values op l r hop hplain =>
    rw [condition_binary]
    refine settles_folding ?_
    rw [Rendering.binaryCondition, isLogical_of_isComparison hop, if_neg Bool.false_ne_true,
      if_pos hop, comparison_eq_compared hplain]
    split <;> exact settles_compared _ _ _
  | @truths op l r hop hl hr ihl ihr =>
    rw [condition_binary]
    refine settles_folding ?_
    rw [Rendering.binaryCondition, isLogical_of_isComparison hop, if_neg Bool.false_ne_true,
      if_pos hop]
    exact settles_comparison ihl ihr
  | @joined op l r hop hl hr ihl ihr =>
    rw [condition_binary]
    refine settles_folding ?_
    rw [Rendering.binaryCondition, if_pos hop]
    exact settles_logical ihl ihr
  | @not e he t ih => exact settles_folding (settles_negatable ih true)

end Expr

/-! ### Drafts -/

namespace Draft

/-- The draft, with a declared type pending. -/
def awaiting (d : Draft) (t : Text) : Draft := { d with slate := { d.slate with pendingType := t } }

/-- A condition that compiles in a draft yields what it appends. -/
theorem exists_yields_of_compile {d d' : Draft} {e : Expr} {c : Clause} (hc : c.isCondition = true)
    (he : e.isHole = false) (h : d.compile e c [] = (d', .ok ())) :
    ∃ t s, d' = { d with text := d.text ++ t, slate := s } ∧
      Yields ((e.render d.settings).condition c) d.slate t s := by
  obtain ⟨t, s, hd', hy⟩ := compile_condition hc h
  refine ⟨t, s, hd', hy.resolve_left fun hhole => ?_⟩
  rw [hhole.1] at he
  cases he

/-- **What the second of two joined conditions binds.** If two conditions compile alone and both are
looked at when they are joined, the second binds in the joined condition what it binds with the
declared type pending that the first leaves. These are the values that it binds alone; and with
their types, when the first leaves no type pending, as conditions that settle do. -/
theorem bindings_of_joined {st : Settings} {op : BinaryOp} {p q : Expr} {dp dq : Draft}
    (hop : op.isLogical = true) (hp : p.isHole = false) (hq : q.isHole = false)
    (hboth : Expr.BothRendered st op p q)
    (hdp : (Draft.new st).compile p .where_ [] = (dp, .ok ()))
    (hdq : (Draft.new st).compile q .where_ [] = (dq, .ok ())) :
    ∃ d d', (Draft.new st).compile (.binary op p q) .where_ [] = (d, .ok ()) ∧
      ((Draft.new st).awaiting dp.slate.pendingType).compile q .where_ [] = (d', .ok ()) ∧
      d.slate.params = dp.slate.params ++ d'.slate.params ∧
      d'.slate.params.map (·.value) = dq.slate.params.map (·.value) ∧
      (dp.slate.pendingType = [] → d'.slate.params = dq.slate.params) ∧
      (p.Settles → dp.slate.pendingType = []) := by
  -- the first condition leaves the state `s₁`, and the second compiles from the states at hand
  obtain ⟨a, s₁, rfl, hpy⟩ := exists_yields_of_compile rfl hp hdp
  obtain ⟨b, s₂, rfl, hqy⟩ := exists_yields_of_compile rfl hq hdq
  obtain ⟨b', s₂', hqy', hsame⟩ :=
    Expr.exists_yields_condition False
      { Slate.empty with pendingType := s₁.pendingType } hqy False.elim
  obtain ⟨b'', s₂'', hqy'', halike⟩ := Expr.exists_yields_condition True s₁ hqy' fun _ => rfl
  obtain ⟨t, hty⟩ := Expr.exists_yields_joined hop hboth hpy hqy''
  refine ⟨_, _, compile_of_yields rfl rfl hty, compile_of_yields rfl hq hqy', ?_, ?_, ?_, ?_⟩
  · obtain ⟨ps, ps', hs, hs', -, heq⟩ := halike.params
    rw [hs', hs, heq trivial]
    rfl
  · obtain ⟨ps, ps', hs, hs', heq, -⟩ := hsame.params
    rw [hs', hs]
    exact heq.symm
  · intro hnone
    have hstate : ({ Slate.empty with pendingType := s₁.pendingType } : Slate) = .empty := by
      rw [show s₁.pendingType = [] from hnone]
      rfl
    rw [hstate] at hqy'
    exact congrArg Slate.params (hqy'.unique hqy).2
  · exact fun hsettles => hsettles.emit _ _ _ hpy rfl

end Draft

namespace Sample

/-- A row of orders. -/
def joinedOrder : Param := ⟨2, "o", some order⟩

/-- The order has the status. -/
def hasStatus (status : Text) : Expr :=
  .binary .equal (.field joinedOrder "Status") (.value (.string status))

/-- The order has no status. -/
def hasNoStatus : Expr := .staticOf "IsNullOrEmpty" [.field joinedOrder "Status"]

/-- The name is that of the customer; it is bound before the column is written. -/
def isNameOf (name : Text) : Expr :=
  .binary .equal (.value (.string name)) (.field customerRow "Name")

/-- The declared types of the values that a condition binds, if it compiles. -/
def boundTypes? (e : Expr) : Option (List Text) :=
  match (Draft.new (.standard .sqlServer world)).compile e .where_ [] with
  | (d, .ok ()) => some (d.slate.params.map (·.dataType))
  | _ => none

theorem compile_of_boundTypes? {e : Expr} {ts : List Text} (h : boundTypes? e = some ts) :
    ∃ d, (Draft.new (.standard .sqlServer world)).compile e .where_ [] = (d, .ok ()) ∧
      d.slate.params.map (·.dataType) = ts := by
  unfold boundTypes? at h
  split at h
  · rename_i d hd
    cases h
    exact ⟨d, hd, rfl⟩
  · cases h

end Sample

open Sample in
/-- The name is bound without a declared type, although the status before it has one. -/
theorem Draft.bindings_of_joined_status :
    ∃ dp dq d, BinaryOp.and.isLogical = true ∧ (hasStatus "new").isHole = false ∧
      (isNameOf "Ada").isHole = false ∧
      Expr.BothRendered (.standard .sqlServer world) .and (hasStatus "new") (isNameOf "Ada") ∧
      (Draft.new (.standard .sqlServer world)).compile (hasStatus "new") .where_ [] =
        (dp, .ok ()) ∧
      (Draft.new (.standard .sqlServer world)).compile (isNameOf "Ada") .where_ [] =
        (dq, .ok ()) ∧
      (Draft.new (.standard .sqlServer world)).compile
        (.binary .and (hasStatus "new") (isNameOf "Ada")) .where_ [] = (d, .ok ()) ∧
      d.slate.params = dp.slate.params ++ dq.slate.params ∧
      dp.slate.params.map (·.dataType) = [("varchar(20)" : Text)] ∧
      dq.slate.params.map (·.dataType) = [[]] := by
  have hboth : Expr.BothRendered (.standard .sqlServer world) .and (hasStatus "new")
      (isNameOf "Ada") := ⟨by rfl, nofun⟩
  have hleft : boundTypes? (hasStatus "new") = some [("varchar(20)" : Text)] := by rfl
  have hright : boundTypes? (isNameOf "Ada") = some [[]] := by rfl
  obtain ⟨dp, hdp, hp⟩ := compile_of_boundTypes? hleft
  obtain ⟨dq, hdq, hq⟩ := compile_of_boundTypes? hright
  have hand : BinaryOp.and.isLogical = true := rfl
  obtain ⟨d, d', hd, -, hparams, -, hsame, hpending⟩ :=
    bindings_of_joined hand rfl rfl hboth hdp hdq
  have hsettles : (hasStatus "new").Settles := .values rfl (by rfl)
  rw [hsame (hpending hsettles)] at hparams
  exact ⟨dp, dq, d, rfl, rfl, rfl, hboth, hdp, hdq, hd, hparams, hp, hq⟩

open Sample in
/-- After a test for a status, a name takes the declared type of the status. Alone it has none. -/
theorem exists_leaked_type :
    Expr.BothRendered (.standard .sqlServer world) .and hasNoStatus (isNameOf "x") ∧
      boundTypes? hasNoStatus = some [] ∧ boundTypes? (isNameOf "x") = some [[]] ∧
      boundTypes? (.binary .and hasNoStatus (isNameOf "x")) = some [("varchar(20)" : Text)] := by
  refine ⟨⟨by rfl, nofun⟩, by rfl, by rfl, by rfl⟩

end QueryTree
