import QueryTree.Proofs.Rendered

/-!
# What emitters leave alone

Most emitters change the state of a compilation in three ways only: they bind a value, give a row
its alias, and set the declared type that the next value takes. A relation between states that
contains these three steps and is kept along several of them is a frame, and everything but a select
list moves along every frame. That no select item is recorded is the frame used here.

A select list records its items, and its text is these items with a separator after each. It has its
own predicate, since the text has to be compared with what is recorded.

## Main definitions

* `Slate.IsFrame`: the relations that binding values and rows moves along
* `Emit.Moves`: an emitter that moves along a relation
* `Emit.Records`: an emitter whose text is the select items that it records
* `Rendering.Confined`

## Main results

* `Expr.confined_renderTo`: the rendering of every expression is confined
-/

namespace QueryTree

open Emit

/-- A relation between states that is kept along steps, that contains binding a value, binding a row
and setting the pending type, and along which no select item is recorded. -/
structure Slate.IsFrame (R : Slate → Slate → Prop) : Prop where
  refl : ∀ s, R s s
  trans : ∀ {s₁ s₂ s₃}, R s₁ s₂ → R s₂ s₃ → R s₁ s₃
  pending : ∀ s t, R s { s with pendingType := t }
  bindValue : ∀ p s v t, R s (s.bindValue p v t).2
  bindRow : ∀ st s p, R s (s.bindRow st p).2
  fields : ∀ {s s'}, R s s' → s'.fields = s.fields

/-- The states in which the same select items are recorded. -/
def Slate.SameFields (s s' : Slate) : Prop := s'.fields = s.fields

/-- Neither values nor rows nor pending types are select items. -/
theorem Slate.isFrame_sameFields : IsFrame SameFields where
  refl _ := rfl
  trans h h' := Eq.trans h' h
  pending _ _ := rfl
  bindValue _ _ _ _ := rfl
  bindRow st s p := by
    unfold SameFields Slate.bindRow
    split <;> rfl
  fields := id

namespace Emit

variable {R : Slate → Slate → Prop} {α β : Type} {st : Settings} {m : Emit α}

/-- Where the emitter does not stop, it moves along the relation. -/
def Moves (R : Slate → Slate → Prop) (m : Emit α) : Prop := ∀ s a s', Yields m s a s' → R s s'

/-- The text of select items, each followed by a separator. -/
def listed (items : List Text) : Text := items.flatMap (· ++ itemSeparator)

/-- Where the emitter does not stop, it records select items and returns their text. -/
def Records (m : Emit Text) : Prop :=
  ∀ s t s', Yields m s t s' → ∃ items, s'.fields = s.fields ++ items ∧ t = listed items

/-! ### Building emitters

An emitter is put together from a few combinators. Those that only rewrite text need nothing of the
relation; those that go on from the state they have reached need it to be a frame. -/

/-- An emitter that always stops moves along every relation. -/
theorem moves_of_not_yields (h : ∀ s a s', ¬ Yields m s a s') : Moves R m :=
  fun s a s' hy => (h s a s' hy).elim

theorem moves_fail {e : CompileError} : Moves R (fail e : Emit α) :=
  moves_of_not_yields fun _ _ _ => not_yields_fail

theorem moves_fault : Moves R (fault : Emit α) := moves_of_not_yields fun _ _ _ => not_yields_fault

theorem moves_unsupported {e : Expr} {c : Clause} : Moves R (unsupported e c : Emit α) :=
  moves_of_not_yields fun _ _ _ => not_yields_unsupported

/-- Text written in front changes no state. -/
theorem Moves.after (h : Moves R m) (t : Text) : Moves R (after t m) :=
  fun s a s' hy => h s a s' (yields_after.mp hy)

theorem Moves.enclose {m : Emit Text} (h : Moves R m) (x y : Text) : Moves R (enclose x m y) := by
  intro s t s' hy
  obtain ⟨a, ha, -⟩ := yields_enclose.mp hy
  exact h s a s' ha

/-- An empty condition is replaced by one that always holds, without a step of its own. -/
theorem Moves.stated {m : Emit Text} (h : Moves R m) : Moves R (stated m) := by
  intro s t s' hy
  obtain ⟨a, ha, -⟩ := yields_stated.mp hy
  exact h s a s' ha

/-- A condition where a value is asked for is written into a case distinction. -/
theorem Moves.truthCase {m : Emit Text} (h : Moves R m) : Moves R (truthCase m) :=
  h.stated.enclose _ _

theorem Moves.grouped {m : Emit Text} (h : Moves R m) (parens : Bool) :
    Moves R (grouped parens m) := by
  unfold Emit.grouped
  split
  · exact h.enclose _ _
  · exact h

theorem Moves.groupedCondition {m : Emit Text} (h : Moves R m) (parens : Bool) :
    Moves R (groupedCondition parens m) := by
  intro s t s' hy
  obtain ⟨a, ha, -⟩ := yields_groupedCondition.mp hy
  exact h s a s' ha

/-- A negation rewrites the text when the emitter has run. -/
theorem Moves.negated {m : Emit Text} (h : Moves R m) (isNegated : Bool) :
    Moves R (negated isNegated m) := by
  intro s t s' hy
  obtain ⟨a, ha, -⟩ := yields_negated.mp hy
  exact h s a s' ha

/-- What is folded into a constant moves as the constant does. -/
theorem moves_folding {e : Expr} {constant : Value → Emit α} {own : Emit α}
    (hc : ∀ v, Moves R (constant v)) (ho : Moves R own) :
    Moves R (folding st e constant own) := by
  intro s a s' hy
  rcases yields_folding.mp hy with ⟨v, -, h⟩ | ⟨-, h⟩
  · exact hc v s a s' h
  · exact ho s a s' h

section Frame

variable (hR : Slate.IsFrame R)

include hR

/-- This is where the relation has to be reflexive. -/
theorem moves_pure (a : α) : Moves R (pure a) := by
  intro s b s' hy
  obtain ⟨-, rfl⟩ := yields_pure.mp hy
  exact hR.refl _

/-- This is where it has to be transitive: one step follows the other. -/
theorem Moves.bind {f : α → Emit β} (h : Moves R m) (hf : ∀ a, Moves R (f a)) :
    Moves R (m >>= f) := by
  intro s b s' hy
  obtain ⟨a, s₁, hm, hfa⟩ := yields_bind.mp hy
  exact hR.trans (h s a s₁ hm) (hf a s₁ b s' hfa)

theorem moves_ofAttempt (r : Attempt CompileError α) : Moves R (ofAttempt r) := by
  cases r with
  | ok a => exact moves_pure hR a
  | error e => exact moves_of_not_yields fun _ _ _ => not_yields_throw

theorem moves_ofExcept (r : Except CompileError α) : Moves R (ofExcept r) := by
  cases r with
  | ok a => exact moves_pure hR a
  | error e => exact moves_fail

theorem Moves.join {l r : Emit Text} (hl : Moves R l) (hr : Moves R r) (sep : Text) :
    Moves R (join l sep r) := by
  intro s t s' hy
  obtain ⟨a, s₁, b, ha, hb, -⟩ := yields_join.mp hy
  exact hR.trans (hl s a s₁ ha) (hr s₁ b s' hb)

theorem Moves.joined {l r : Emit Text} (hl : Moves R l) (hr : Moves R r) (token : Text) :
    Moves R (joined token l r) := by
  intro s t s' hy
  obtain ⟨a, s₁, b, ha, hb, -⟩ := yields_joined.mp hy
  exact hR.trans (hl s a s₁ ha) (hr s₁ b s' hb)

/-- The declared type of the next value may be set and reset. -/
theorem moves_setPending (t : Text) : Moves R (setPending t) := by
  intro s u s' hy
  rw [yields_setPending.mp hy]
  exact hR.pending s t

theorem moves_pending : Moves R pending := by
  intro s t s' hy
  obtain ⟨-, rfl⟩ := yields_pending.mp hy
  exact hR.refl _

/-- Both sides of a comparison are emitted from left to right. -/
theorem Moves.compared {l r : Emit Text} (hl : Moves R l) (hr : Moves R r) (op : BinaryOp) :
    Moves R (compared op l r) :=
  hl.bind hR fun a => (hr.after a).bind hR fun _ =>
    (moves_setPending hR []).bind hR fun _ => moves_pure hR _

/-- A list of emitters moves along the relation one member after the other. -/
theorem moves_mapM {f : β → Emit Text} {l : List β} (h : ∀ b ∈ l, Moves R (f b)) :
    Moves R (l.mapM f) := by
  induction l with
  | nil => exact moves_pure hR []
  | cons b l ih =>
    rw [List.mapM_cons]
    exact (h b (by simp)).bind hR fun t =>
      (ih fun b hb => h b (by simp [hb])).bind hR fun ts => moves_pure hR (t :: ts)

theorem moves_foldl_join {ms : List (Emit Text)} (h : ∀ x ∈ ms, Moves R x) {first : Emit Text}
    (hfirst : Moves R first) (sep : Text) :
    Moves R (ms.foldl (fun done x => Emit.join done sep x) first) := by
  induction ms generalizing first with
  | nil => exact hfirst
  | cons x ms ih =>
    exact ih (fun y hy => h y (by simp [hy])) (hfirst.join hR (h x (by simp)) sep)

/-! ### Values and columns

The three steps that a frame contains, and the emitters that are made of them alone. -/

/-- A placeholder binds its value. -/
theorem moves_placeholder (v : Value) (dataType : Text) : Moves R (placeholder st v dataType) := by
  intro s t s' hy
  obtain ⟨-, rfl⟩ := yields_placeholder.mp hy
  exact hR.bindValue _ s v dataType

/-- A row is given an alias when it is met for the first time. -/
theorem moves_row (p : Param) : Moves R (row st p) := by
  refine Moves.bind hR (fun s r s' hy => ?_) fun r => moves_ofExcept hR _
  simp only [Yields, result_modifyGet, Prod.mk.injEq] at hy
  rw [← hy.2]
  exact hR.bindRow st s p

/-- A column gives its row an alias and sets the pending type to its own. -/
theorem moves_column (p : Param) (member : Text) : Moves R (column st p member) := by
  refine (moves_row hR p).bind hR fun ⟨e, name⟩ => ?_
  simp only
  split
  · exact moves_fail
  · split <;> exact moves_pure hR _

/-- A column, or the length of one; every other member stops. -/
theorem moves_columnOf (c : Clause) (e : Expr) : Moves R (columnOf st c e) := by
  fun_induction columnOf st c e with
  | case1 p name =>
    exact (moves_column hR p name).bind hR fun _ =>
      (moves_setPending hR _).bind hR fun _ => moves_pure hR _
  | case2 e n t o name _ _ hif column ih =>
    exact (ih.enclose _ _).bind hR fun _ => (moves_setPending hR []).bind hR fun _ =>
      moves_pure hR _
  | case3 => exact moves_fail
  | case4 => exact moves_unsupported

theorem moves_constantValue (v : Value) : Moves R (constantValue st v) := by
  unfold constantValue
  split
  · exact moves_pure hR _
  · exact moves_placeholder hR v []

theorem moves_constantCondition (v : Value) (c : Clause) : Moves R (constantCondition v c) := by
  unfold constantCondition
  split
  · exact moves_pure hR _
  · exact moves_pure hR _
  · exact moves_fail

theorem moves_placeholders (dataType : Text) (vs : List Value) :
    Moves R (placeholders st dataType vs) :=
  (moves_mapM hR fun v _ => moves_placeholder hR v dataType).bind hR fun _ => moves_pure hR _

/-- Every member of a list is bound on its own. -/
theorem moves_constantMembers (v : Value) : Moves R (constantMembers st v) := by
  unfold constantMembers
  split
  · exact moves_pure hR _
  · split
    · split
      · exact moves_fault
      · exact moves_pure hR _
      · exact (moves_pending hR).bind hR fun t =>
          (moves_placeholders hR t _).bind hR fun _ => moves_pure hR _
    · exact (moves_placeholder hR v []).bind hR fun _ => moves_pure hR _

/-- A text names a column and binds nothing; other values are bound. -/
theorem moves_constantArgument (v : Value) (c : Clause) : Moves R (constantArgument st v c) := by
  unfold constantArgument
  split
  · split
    · exact moves_pure hR _
    · exact moves_fail
  · split
    · refine (moves_ofExcept hR _).bind hR fun items => ?_
      split
      · exact moves_pure hR _
      · exact moves_fail
    · exact moves_constantValue hR v

end Frame

/-! ### Select lists

A select list is the one place where items are recorded, so it does not move along frames. Its text
is the items it records, which is what the items of a statement are counted by. -/

theorem records_of_not_yields {m : Emit Text} (h : ∀ s a s', ¬ Yields m s a s') : Records m :=
  fun s a s' hy => (h s a s' hy).elim

/-- An item is recorded as it is written. -/
theorem records_selectItem (hR : Slate.IsFrame R) {m : Emit Text} (h : Moves R m) (name : Text) :
    Records (selectItem st m name) := by
  intro s t s' hy
  obtain ⟨a, s₁, ha, item, -, rfl, rfl⟩ := yields_selectItem.mp hy
  refine ⟨[item], ?_, by simp [listed]⟩
  show s₁.fields ++ [item] = _
  rw [hR.fields (h s a s₁ ha)]

/-- Select lists one after the other. -/
theorem records_concat {ms : List (Emit Text)} (h : ∀ x ∈ ms, Records x) :
    Records (concat ms) := by
  induction ms with
  | nil =>
    intro s t s' hy
    obtain ⟨rfl, rfl⟩ := yields_pure.mp hy
    exact ⟨[], by simp, rfl⟩
  | cons x ms ih =>
    intro s t s' hy
    obtain ⟨a, s₁, b, ha, hb, rfl⟩ := yields_join.mp hy
    obtain ⟨items, hfirst, rfl⟩ := h x (by simp) s a s₁ ha
    obtain ⟨rest, hrest, rfl⟩ := ih (fun y hy => h y (by simp [hy])) s₁ b s' hb
    exact ⟨items ++ rest, by rw [hrest, hfirst, List.append_assoc], by simp [listed]⟩

/-- Items that are recorded one by one are recorded in order. -/
theorem fields_of_forM_addField {items : List Text} {s s' : Slate} {u : Unit}
    (h : Yields (items.forM addField) s u s') : s'.fields = s.fields ++ items := by
  induction items generalizing s with
  | nil =>
    rw [List.forM] at h
    obtain ⟨-, rfl⟩ := yields_pure.mp h
    exact (List.append_nil _).symm
  | cons i items ih =>
    rw [List.forM] at h
    obtain ⟨_, s₁, h₁, h⟩ := yields_bind.mp h
    rw [yields_addField.mp h₁] at h
    rw [ih h, List.append_assoc, List.singleton_append]

/-- A list of names is recorded name by name, each as it is written. -/
theorem records_rawFields (items : List Text) : Records (rawFields items) := by
  intro s t s' hy
  simp only [rawFields, yields_bind, yields_pure] at hy
  obtain ⟨_, s₁, h₁, rfl, rfl⟩ := hy
  exact ⟨items, fields_of_forM_addField h₁, rfl⟩

/-- A text is a list of names; every other constant is one item. -/
theorem records_constantProjection (v : Value) : Records (constantProjection st v) := by
  unfold constantProjection
  split
  · intro s t s' hy
    obtain ⟨items, s₁, h₁, hf⟩ := yields_bind.mp hy
    obtain ⟨-, rfl⟩ := yields_ofExcept.mp h₁
    exact records_rawFields items _ t s' hf
  · exact records_selectItem Slate.isFrame_sameFields
      (moves_constantValue Slate.isFrame_sameFields _) []

end Emit

/-! ### Renderings

A rendering is confined when its emitters move along the relation in all positions and its select
list records. Constructs are taken one by one in the order in which renderings are built. -/

/-- The rendering moves along the relation in every position but that of a select list, where it
records what it emits. -/
structure Rendering.Confined (R : Slate → Slate → Prop) (x : Rendering) : Prop where
  value : ∀ c, Moves R (x.value c)
  condition : ∀ c, Moves R (x.condition c)
  members : Moves R x.members
  argument : ∀ c, Moves R (x.argument c)
  projection : Records x.projection
  addends : ∀ m ∈ x.addends, ∀ c, Moves R (m c)

namespace Rendering

variable {R : Slate → Slate → Prop} {st : Settings} {l r : Rendering}

/-- What is supported in no position is confined, since it stops everywhere. -/
theorem confined_unsupported (e : Expr) : Confined R (unsupported st e) where
  value _ := moves_unsupported
  condition _ := moves_unsupported
  members := moves_unsupported
  argument _ := moves_unsupported
  projection := records_of_not_yields fun _ _ _ => not_yields_unsupported
  addends m hm _ := by
    obtain rfl := List.mem_singleton.mp hm
    exact moves_unsupported

/-- Where text is emitted, a lambda is its body. -/
theorem confined_lambda (h : Confined R l) (ps : List Param) : Confined R (lambda st l ps) :=
  { h with
    addends := fun m hm => by
      obtain rfl := List.mem_singleton.mp hm
      exact h.value }

theorem confined_quoted (h : Confined R l) (type : Option Ty) : Confined R (quoted st l type) :=
  { h with
    addends := fun m hm => by
      obtain rfl := List.mem_singleton.mp hm
      exact h.value }

/-- An inlined call moves as the body that takes its place; without a body it stops. -/
theorem moves_emitInlined {α : Type} {body : Unit → Except Expr.InlineError Rendering}
    {f : Rendering → Emit α} (h : ∀ r, body () = .ok r → Moves R (f r)) :
    Moves R (emitInlined body f) := by
  unfold emitInlined
  split
  · rename_i r hr
    exact h r hr
  · exact moves_fail

theorem confined_invocation {whole : Expr} {body : Unit → Except Expr.InlineError Rendering}
    (h : ∀ r, body () = .ok r → Confined R r) : Confined R (invocation st whole body) where
  value c := moves_emitInlined fun r hr => (h r hr).value c
  condition c := moves_emitInlined fun r hr => (h r hr).condition c
  members := moves_emitInlined fun r hr => (h r hr).members
  argument c := moves_emitInlined fun r hr => (h r hr).argument c
  projection := by
    show Records (emitInlined body (·.projection))
    unfold emitInlined
    split
    · rename_i r hr
      exact (h r hr).projection
    · exact records_of_not_yields fun _ _ _ => not_yields_fail
  addends m hm c := by
    obtain rfl := List.mem_singleton.mp hm
    exact moves_emitInlined fun r hr => (h r hr).value c

section Frame

variable (hR : Slate.IsFrame R)

include hR

theorem confined_constant (v : Value) (t : Option Ty) : Confined R (constant st v t) where
  value _ := moves_constantValue hR v
  condition := moves_constantCondition hR v
  members := moves_constantMembers hR v
  argument := moves_constantArgument hR v
  projection := records_constantProjection v
  addends m hm _ := by
    obtain rfl := List.mem_singleton.mp hm
    exact moves_constantValue hR v

/-- What yields a single value is confined as soon as its own value and condition are. Its members
and its projection are made from the value. -/
theorem confined_scalar {e : Expr} {value condition : Clause → Emit Text} {isTest : Bool}
    {addends : Option (List (Clause → Emit Text))} (hv : ∀ c, Moves R (value c))
    (hc : ∀ c, Moves R (condition c)) (ha : ∀ l, addends = some l → ∀ m ∈ l, ∀ c, Moves R (m c)) :
    Confined R (scalar st e value condition isTest addends) := by
  have folded : ∀ c, Moves R (folding st e (constantValue st) (value c)) := fun c =>
    moves_folding (moves_constantValue hR) (hv c)
  have test : ∀ c, Moves R (folding st e (constantCondition · c) (condition c)) := fun c =>
    moves_folding (moves_constantCondition hR · c) (hc c)
  refine ⟨folded, test, moves_folding (moves_constantMembers hR) moves_unsupported, fun c => ?_,
    records_selectItem hR (folded .select) [], ?_⟩
  · show Moves R (if c = .count && isTest then _ else _)
    split
    · exact (test c).stated.enclose _ _
    · exact folded c
  · cases addends with
    | some l => exact ha l rfl
    | none =>
      intro m hm
      obtain rfl := List.mem_singleton.mp hm
      exact folded

/-! ### Operators

Operators differ in how they combine their sides, and in which text they write between them. Every
emitter is made from those of the sides, so nothing depends on the operator. -/

/-- The text of a truth test stands behind the column. -/
theorem confined_member (e : Expr) (name : Text) (type owner : Option Ty) :
    Confined R (member st e name type owner) := by
  refine confined_scalar hR (fun c => moves_columnOf hR c _) (fun c => ?_) nofun
  split
  · exact moves_fail
  · exact (moves_columnOf hR c _).bind hR fun _ => (moves_setPending hR []).bind hR fun _ =>
      moves_pure hR _

omit hR in
theorem moves_negatable (hl : Confined R l) (isNegated : Bool) (c : Clause) :
    Moves R (negatable l isNegated c) :=
  ((hl.condition c).groupedCondition _).negated _

/-- An operand that is a truth literal may be left out; those that stay are joined. -/
theorem moves_logical (hl : Confined R l) (hr : Confined R r) (op : BinaryOp) (c : Clause) :
    Moves R (logical op l r c) := by
  unfold logical
  simp only
  split
  · exact moves_pure hR _
  · split
    · exact hr.condition c
    · exact ((hl.condition c).groupedCondition _).joined hR ((hr.condition c).groupedCondition _) _

/-- A comparison with a truth literal emits the other side alone, and null may change sides. -/
theorem moves_comparison (hl : Confined R l) (hr : Confined R r) (op : BinaryOp) (c : Clause) :
    Moves R (comparison op l r c) := by
  have sides : ∀ x : Rendering × Rendering, x = (if l.expr.isNullConstant && !r.expr.isNullConstant
      then (r, l) else (l, r)) → Moves R (compared op (grouped x.1.expr.needsParens (x.1.value c))
        (grouped x.2.expr.needsParens (x.2.value c))) := by
    rintro _ rfl
    split
    · exact ((hr.value c).grouped _).compared hR ((hl.value c).grouped _) op
    · exact ((hl.value c).grouped _).compared hR ((hr.value c).grouped _) op
  have plain := sides _ rfl
  unfold comparison
  simp only
  split
  · split
    · rename_i hc
      rcases truthComparison?_eq hc with rfl | rfl
      · exact moves_negatable hl _ c
      · exact moves_negatable hr _ c
    · exact plain
  · exact plain

theorem moves_binaryCondition (hl : Confined R l) (hr : Confined R r) (op : BinaryOp)
    (c : Clause) : Moves R (binaryCondition op l r c) := by
  unfold binaryCondition
  split
  · exact moves_logical hR hl hr op c
  · split
    · exact moves_comparison hR hl hr op c
    · split <;> exact moves_fail

omit hR in
/-- The operands of a concatenation are those of its two sides. -/
theorem moves_addends (hl : Confined R l) (hr : Confined R r) :
    ∀ m ∈ l.addends ++ r.addends, ∀ c, Moves R (m c) := by
  intro m hm
  rcases List.mem_append.mp hm with hm | hm
  · exact hl.addends m hm
  · exact hr.addends m hm

/-- A concatenation emits all its operands in a row, every other operator its two sides. -/
theorem moves_binaryValue (hl : Confined R l) (hr : Confined R r) (op : BinaryOp) (c : Clause) :
    Moves R (binaryValue st op l r c) := by
  unfold binaryValue
  simp only
  split
  · exact (moves_binaryCondition hR hl hr op c).truthCase
  · split
    · exact (moves_mapM hR fun m hm => moves_addends hl hr m hm c).bind hR fun _ =>
        moves_pure hR _
    · split
      · exact moves_fail
      · exact ((hl.value c).grouped _).join hR ((hr.value c).grouped _) _

theorem confined_binary (hl : Confined R l) (hr : Confined R r) (op : BinaryOp) :
    Confined R (binary st op l r) := by
  refine confined_scalar hR (moves_binaryValue hR hl hr op) (moves_binaryCondition hR hl hr op)
    fun adds h => ?_
  split at h
  · cases h
    exact moves_addends hl hr
  · cases h

theorem confined_unary (hl : Confined R l) (op : UnaryOp) (type : Option Ty) :
    Confined R (unary st op l type) := by
  refine confined_scalar hR (fun c => ?_) (fun c => ?_) nofun
  · split
    · exact hl.value c
    · exact (((hl.value c).grouped _).after _).bind hR fun _ => moves_pure hR _
    · exact (moves_negatable hl true c).truthCase
    · exact moves_fail
  · split
    · exact moves_negatable hl true c
    · exact hl.condition c
    · exact moves_fail

/-- The branch that is not taken, when the condition is decided, is not emitted. -/
theorem confined_cond {c a b : Rendering} (hc : Confined R c) (ha : Confined R a)
    (hb : Confined R b) : Confined R (cond st c a b) := by
  refine confined_scalar hR (fun cl => (moves_ofAttempt hR _).bind hR fun d => ?_)
    (fun cl => (moves_ofAttempt hR _).bind hR fun d => ?_) nofun
  · split
    · exact ha.value cl
    · exact hb.value cl
    · exact ((hc.condition cl).stated.join hR ((ha.value cl).join hR (hb.value cl) _) _).enclose _ _
  · split
    · exact ha.condition cl
    · exact hb.condition cl
    · exact moves_fail

/-! ### Calls

A call emits its receiver and its arguments where a function of SQL stands for it, and is evaluated
otherwise. -/

theorem moves_likeTest (hl : Confined R l) (hr : Confined R r) (isNegated : Bool)
    (pattern : Pattern) (c : Clause) : Moves R (likeTest st isNegated pattern l r c) :=
  (hl.value c).join hR ((hr.value c).bind hR fun _ => moves_pure hR _) _

/-- The members of a list are emitted behind the value that is looked for. -/
theorem moves_membership (hl : Confined R l) (hr : Confined R r) (isNegated : Bool) (c : Clause) :
    Moves R (membership l r isNegated c) := by
  unfold membership
  split
  · exact moves_pure hR _
  · refine (hl.value c).join hR ?_ _
    split
    · exact moves_fail
    · exact hr.members

theorem moves_aggregate (hl : Confined R l) (c : Clause) : Moves R (aggregate c l) := by
  refine Moves.enclose ?_ _ _
  split
  · split
    · exact moves_pure hR _
    · exact moves_fail
  · exact hl.argument c

/-- One case per function that is known to SQL. -/
theorem moves_intrinsic {target : Rendering} {args : List Rendering} (ht : Confined R target)
    (ha : ∀ a ∈ args, Confined R a) (c : Clause) (i : Intrinsic) :
    Moves R (intrinsic st target args c i) := by
  cases i with
  | like isNegated pattern =>
    cases args with
    | nil => exact moves_fault
    | cons a _ => exact moves_likeTest hR ht (ha a (by simp)) isNegated pattern c
  | membership isNegated =>
    cases args with
    | nil => exact moves_fault
    | cons a _ => exact moves_membership hR ht (ha a (by simp)) isNegated c
  | contains =>
    cases args with
    | nil => exact moves_fault
    | cons a _ =>
      simp only [intrinsic]
      split
      · exact moves_membership hR (ha a (by simp)) ht false c
      · exact moves_likeTest hR ht (ha a (by simp)) false .anywhere c
  | isNullOrEmpty => exact ((ht.value c).join hR (ht.value c) _).enclose _ _
  | equals =>
    cases args with
    | nil => exact moves_fault
    | cons a _ => exact (confined_binary hR ht (ha a (by simp)) .equal).condition c
  | function name => exact (ht.value c).enclose _ _
  | trim => exact (ht.value c).bind hR fun _ => moves_pure hR _
  | aggregate clause => exact moves_aggregate hR ht clause

omit hR in
theorem moves_calledValue {e : Expr} {method : Text} {c : Clause} {constant : Value → Emit Text}
    (h : ∀ v, Moves R (constant v)) : Moves R (calledValue st e method c constant) := by
  unfold calledValue
  split
  · exact h _
  · exact moves_fail
  · exact moves_fault

omit hR in
/-- The receiver and the arguments of a call are among the expressions that it is made of. -/
theorem confined_operands {receiver : Rendering} {args : List Rendering}
    (hr : Confined R receiver) (ha : ∀ a ∈ args, Confined R a) :
    Confined R (operands receiver args).1 ∧ ∀ a ∈ (operands receiver args).2, Confined R a := by
  unfold operands
  cases receiver.expr.isHole with
  | false => exact ⟨hr, ha⟩
  | true =>
    cases args with
    | nil => exact ⟨hr, nofun⟩
    | cons a as => exact ⟨ha a (by simp), fun a h => ha a (by simp [h])⟩

/-- A call that is no function of SQL is computed, and bound if it has a value. -/
theorem moves_emitCall {receiver : Rendering} {args : List Rendering} (hr : Confined R receiver)
    (ha : ∀ a ∈ args, Confined R a) (method : Text) (type : Option Ty) (callee : Option Text)
    (c : Clause) (asCondition : Bool) {constant : Value → Emit Text}
    (hconstant : ∀ v, Moves R (constant v)) :
    Moves R (emitCall st receiver method args type callee c asCondition constant) := by
  obtain ⟨ht, hrest⟩ := confined_operands hr ha
  unfold emitCall
  simp only
  split
  · exact moves_calledValue hconstant
  · rename_i i _
    have emitted : Moves R
        (intrinsic st (operands receiver args).1 (operands receiver args).2 c i) :=
      moves_intrinsic hR ht hrest c i
    split
    · exact moves_fail
    · split
      · exact emitted
      · split
        · exact emitted.truthCase
        · exact moves_fail

theorem confined_call {receiver : Rendering} {args : List Rendering} (hr : Confined R receiver)
    (ha : ∀ a ∈ args, Confined R a) (method : Text) (type : Option Ty) (callee : Option Text) :
    Confined R (call st receiver method args type callee) := by
  rw [call]
  exact confined_scalar hR
    (fun c => moves_emitCall hR hr ha method type callee c false (moves_constantValue hR))
    (fun c => moves_emitCall hR hr ha method type callee c true (moves_constantCondition hR · c))
    fun _ h => by cases h

/-! ### Rows, shapes and lists

The constructs that stand for several columns are supported in select lists, and nowhere else as
values. -/

/-- All columns of a row are one item, a star. -/
theorem records_allColumns (p : Param) : Records (allColumns st p) := by
  intro s t s' hy
  simp only [allColumns, yields_bind, yields_addField, yields_pure] at hy
  obtain ⟨⟨e, name⟩, s₁, hrow, _, _, rfl, rfl, rfl⟩ := hy
  refine ⟨[if st.singleTable then ("*" : Text) else st.ident name ++ ".*"], ?_, by simp [listed]⟩
  show s₁.fields ++ _ = _
  rw [hR.fields (moves_row hR p s _ s₁ hrow)]

theorem confined_param (p : Param) : Confined R (param st p) :=
  { (confined_unsupported (.param p) : Confined R (unsupported st (.param p))) with
    argument := fun c => by
      simp only [param]
      split
      · exact moves_pure hR _
      · exact moves_fail
    projection := records_allColumns hR p }

/-- The members of a new row are items under their names, or all columns of the rows they are. -/
theorem confined_shape {bindings : List (Text × Rendering)} (h : ∀ b ∈ bindings, Confined R b.2)
    (whole : Expr) (type : Option Ty) : Confined R (shape st whole type bindings) :=
  { (confined_unsupported whole : Confined R (unsupported st whole)) with
    projection := by
      refine records_concat fun m hm => ?_
      obtain ⟨⟨name, e⟩, hb, rfl⟩ := List.mem_map.mp hm
      simp only
      split
      · exact records_allColumns hR _
      · exact records_selectItem hR ((h _ hb).value .select) name }

/-- Every member of a list is bound under the type that was pending before the list. -/
theorem moves_memberList {es : List Rendering} (h : ∀ e ∈ es, Confined R e) :
    Moves R (memberList es) := by
  refine (moves_pending hR).bind hR fun t => ?_
  have item : ∀ e ∈ es, Moves R (do
      setPending t
      e.value .in_) := fun e he =>
    (moves_setPending hR t).bind hR fun _ => (h e he).value .in_
  cases es with
  | nil => exact moves_pure hR _
  | cons first rest =>
    refine ((moves_foldl_join hR (fun m hm => ?_) (item first (by simp)) ",").after _).bind hR
      fun _ => (moves_setPending hR []).bind hR fun _ => moves_pure hR _
    obtain ⟨e, he, rfl⟩ := List.mem_map.mp hm
    exact item e (by simp [he])

theorem confined_items {es : List Rendering} (h : ∀ e ∈ es, Confined R e) (whole : Expr) :
    Confined R (items st whole es) :=
  { (confined_unsupported whole : Confined R (unsupported st whole)) with
    members := moves_memberList hR h
    projection := by
      refine records_concat fun m hm => ?_
      obtain ⟨e, he, rfl⟩ := List.mem_map.mp hm
      exact (h e he).projection }

end Frame

end Rendering

namespace Expr

variable {R : Slate → Slate → Prop} {st : Settings} {inlined : Expr → Rendering}

mutual

/-- One case per construct: the rendering of an expression is confined when the renderings of
inlined bodies are. -/
theorem confined_renderWith (hR : Slate.IsFrame R) (hin : ∀ e, (inlined e).Confined R) :
    (e : Expr) → (renderWith st inlined e).Confined R
  | hole => Rendering.confined_unsupported hole
  | const v t => Rendering.confined_constant hR v t
  | param p => Rendering.confined_param hR p
  | member e name t owner => Rendering.confined_member hR e name t owner
  | binary op l r =>
    Rendering.confined_binary hR (confined_renderWith hR hin l) (confined_renderWith hR hin r) op
  | unary op e t => by
    have ih := confined_renderWith hR hin e
    cases op with
    | quote => exact Rendering.confined_quoted ih t
    | _ => exact Rendering.confined_unary hR ih _ t
  | call e method args t f =>
    Rendering.confined_call hR (confined_renderWith hR hin e) (confined_renderAll hR hin args)
      method t f
  | new t bs => Rendering.confined_shape hR (confined_renderBindings hR hin bs) _ t
  | init t bs => Rendering.confined_shape hR (confined_renderBindings hR hin bs) _ t
  | list t es => Rendering.confined_items hR (confined_renderAll hR hin es) _
  | array t es => Rendering.confined_items hR (confined_renderAll hR hin es) _
  | lambda body ps => Rendering.confined_lambda (confined_renderWith hR hin body) ps
  | invoke target args => by
    rw [renderWith]
    refine Rendering.confined_invocation fun r hr => ?_
    cases hi : inline target args with
    | error e =>
      rw [hi] at hr
      cases hr
    | ok body =>
      rw [hi] at hr
      cases hr
      exact hin body
  | cond c a b => Rendering.confined_cond hR (confined_renderWith hR hin c)
      (confined_renderWith hR hin a) (confined_renderWith hR hin b)

theorem confined_renderAll (hR : Slate.IsFrame R) (hin : ∀ e, (inlined e).Confined R) :
    (es : List Expr) → ∀ r ∈ renderAll st inlined es, r.Confined R
  | [] => nofun
  | e :: es => by
    intro r hr
    rw [renderAll] at hr
    rcases List.mem_cons.mp hr with rfl | hr
    · exact confined_renderWith hR hin e
    · exact confined_renderAll hR hin es r hr

theorem confined_renderBindings (hR : Slate.IsFrame R) (hin : ∀ e, (inlined e).Confined R) :
    (bs : List (Text × Expr)) → ∀ b ∈ renderBindings st inlined bs, b.2.Confined R
  | [] => nofun
  | (name, e) :: bs => by
    intro b hb
    rw [renderBindings] at hb
    rcases List.mem_cons.mp hb with rfl | hb
    · exact confined_renderWith hR hin e
    · exact confined_renderBindings hR hin bs b hb

end

/-- **The rendering of every expression is confined**, by induction on how deeply inlined bodies
nest. -/
theorem confined_renderTo (hR : Slate.IsFrame R) :
    (depth : Nat) → (e : Expr) → (renderTo st depth e).Confined R
  | 0, _ => Rendering.confined_unsupported hole
  | depth + 1, e => confined_renderWith hR (confined_renderTo hR depth) e

theorem confined_render (hR : Slate.IsFrame R) (e : Expr) : (e.render st).Confined R :=
  confined_renderTo hR inlineDepth e

end Expr

end QueryTree
