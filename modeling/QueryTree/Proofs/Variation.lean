import Mathlib.Data.List.Forall2
import QueryTree.Proofs.Closed

/-!
# Variations

Two expressions vary when they are the same but for some constants that hold one string in the first
and another in the second. A relation `D` says which strings may stand for which, so that later it
can be told which bound values differ.

What the compiler looks at in an expression apart from its constants is the same for both: its kind
and type, whether it is a hole, a truth literal, an empty list or a condition, how it is grouped,
and which rows it refers to.

## Main definitions

* `Value.Varies`, `Expr.Varies`
* `Expr.Throughout`: what holds of every expression of a tree and of its counterpart

## Main results

* `Expr.Varies.type?`, `Expr.Varies.isClosed` and the like: what both have in common
* `Expr.Varies.inline_cases`: both are inlined, or neither
-/

namespace QueryTree

/-- The same value, or one string for another. -/
inductive Value.Varies (D : Text → Text → Prop) : Value → Value → Prop
  | same (v : Value) : Varies D v v
  | text {a b : Text} (h : D a b) : Varies D (.string a) (.string b)

namespace Expr

mutual

/-- The same expression but for strings that stand for others in its constants. -/
inductive Varies (D : Text → Text → Prop) : Expr → Expr → Prop
  | hole : Varies D hole hole
  | const {v w : Value} {t : Option Ty} (h : v.Varies D w) : Varies D (const v t) (const w t)
  | param (p : Param) : Varies D (param p) (param p)
  | member {e e' : Expr} {name : Text} {t owner : Option Ty} (h : Varies D e e') :
    Varies D (member e name t owner) (member e' name t owner)
  | binary {op : BinaryOp} {l l' r r' : Expr} (hl : Varies D l l') (hr : Varies D r r') :
    Varies D (binary op l r) (binary op l' r')
  | unary {op : UnaryOp} {e e' : Expr} {t : Option Ty} (h : Varies D e e') :
    Varies D (unary op e t) (unary op e' t)
  | call {e e' : Expr} {method : Text} {args args' : List Expr} {t : Option Ty}
    {callee : Option Text} (h : Varies D e e') (ha : VariesAll D args args') :
    Varies D (call e method args t callee) (call e' method args' t callee)
  | new {t : Option Ty} {bs bs' : List (Text × Expr)} (h : VariesBindings D bs bs') :
    Varies D (new t bs) (new t bs')
  | init {t : Option Ty} {bs bs' : List (Text × Expr)} (h : VariesBindings D bs bs') :
    Varies D (init t bs) (init t bs')
  | list {t : Option Ty} {es es' : List Expr} (h : VariesAll D es es') :
    Varies D (list t es) (list t es')
  | array {t : Option Ty} {es es' : List Expr} (h : VariesAll D es es') :
    Varies D (array t es) (array t es')
  | lambda {body body' : Expr} {ps : List Param} (h : Varies D body body') :
    Varies D (lambda body ps) (lambda body' ps)
  | invoke {e e' : Expr} {args args' : List Expr} (h : Varies D e e')
    (ha : VariesAll D args args') : Varies D (invoke e args) (invoke e' args')
  | cond {c c' a a' b b' : Expr} (hc : Varies D c c') (ha : Varies D a a') (hb : Varies D b b') :
    Varies D (cond c a b) (cond c' a' b')

/-- Lists of such expressions. -/
inductive VariesAll (D : Text → Text → Prop) : List Expr → List Expr → Prop
  | nil : VariesAll D [] []
  | cons {e e' : Expr} {es es' : List Expr} (h : Varies D e e') (hs : VariesAll D es es') :
    VariesAll D (e :: es) (e' :: es')

/-- Bindings of such expressions. -/
inductive VariesBindings (D : Text → Text → Prop) :
    List (Text × Expr) → List (Text × Expr) → Prop
  | nil : VariesBindings D [] []
  | cons {name : Text} {e e' : Expr} {bs bs' : List (Text × Expr)} (h : Varies D e e')
    (hs : VariesBindings D bs bs') : VariesBindings D ((name, e) :: bs) ((name, e') :: bs')

end

end Expr

variable {D : Text → Text → Prop}

/-! ### Values

A string may be another one; everything else that a constant can hold is the same on both sides. So
whatever is asked of a value without reading a string has one answer. -/

namespace Value.Varies

variable {v w : Value}

theorem type? (h : v.Varies D w) : v.type? = w.type? := by
  cases h <;> rfl

/-- No string is nil. -/
theorem isNil (h : v.Varies D w) : v.isNil = w.isNil := by
  cases h <;> rfl

theorem truth (h : v.Varies D w) : v.truth = w.truth := by
  cases h <;> rfl

/-- If every string stands for itself alone, both values are the same. -/
theorem eq (h : v.Varies D w) (hD : ∀ a b, D a b → a = b) : v = w := by
  cases h with
  | same => rfl
  | text h => rw [hD _ _ h]

end Value.Varies

/-! ### Shapes

What the compiler asks of an expression before it emits anything. Each answer is read off the
constructors, and constants answer by the values above. -/

namespace Expr.Varies

variable {e e' l l' r r' : Expr}

theorem isHole (h : Varies D e e') : e.isHole = e'.isHole := by
  cases h <;> rfl

theorem kind? (h : Varies D e e') : e.kind? = e'.kind? := by
  cases h <;> rfl

theorem isBinary (h : Varies D e e') : e.isBinary = e'.isBinary := by
  cases h <;> rfl

theorem isLogical (h : Varies D e e') : e.isLogical = e'.isLogical := by
  cases h <;> rfl

/-- The constants that are null are the same. -/
theorem isNullConstant (h : Varies D e e') : e.isNullConstant = e'.isNullConstant := by
  cases h with
  | const h => exact h.isNil
  | _ => rfl

/-- Parentheses depend on the operators that meet, not on what they are applied to. -/
theorem arithmeticParens (h : Varies D e e') (op : BinaryOp) (right : Bool) :
    e.arithmeticParens op right = e'.arithmeticParens op right := by
  cases h <;> rfl

theorem type? : {e e' : Expr} → Varies D e e' → e.type? = e'.type?
  | _, _, .hole | _, _, .param _ | _, _, .member _ | _, _, .call .. | _, _, .new _ | _, _, .init _
  | _, _, .list _ | _, _, .array _ => rfl
  | _, _, .const h => by rw [Expr.type?, Expr.type?, h.type?]
  | _, _, .binary hl hr => by rw [Expr.type?, Expr.type?, type? hl, type? hr]
  | _, _, .unary h => by rw [Expr.type?, Expr.type?, type? h]
  | _, _, .lambda h => by rw [Expr.type?, Expr.type?, type? h]
  | _, _, .invoke h _ => by rw [Expr.type?, Expr.type?, type? h]
  | _, _, .cond _ ha hb => by rw [Expr.type?, Expr.type?, type? ha, type? hb]

theorem isBool (h : Varies D e e') : e.isBool = e'.isBool := by
  rw [Expr.isBool, Expr.isBool, h.type?]

/-- Only calls are asked for their type here. -/
theorem isCompound (h : Varies D e e') : e.isCompound = e'.isCompound := by
  have hbool := h.isBool
  cases h with
  | call => exact hbool
  | _ => rfl

theorem needsParens (h : Varies D e e') : e.needsParens = e'.needsParens := by
  cases h with
  | binary hl hr => rw [Expr.needsParens, Expr.needsParens, hl.isCompound, hr.isCompound]
  | _ => rfl

/-- A string is no truth literal, so the literals of both are the same. -/
theorem literalTruth? : {e e' : Expr} → Varies D e e' → e.literalTruth? = e'.literalTruth?
  | _, _, .const h => h.truth
  | _, _, @unary _ op _ _ _ h => by
    cases op with
    | convert =>
      have ih := literalTruth? h
      cases h with
      | const h => cases h <;> rfl
      | unary _ => exact ih
      | _ => rfl
    | _ => rfl
  | _, _, .hole | _, _, .param _ | _, _, .member _ | _, _, .binary .. | _, _, .call ..
  | _, _, .new _ | _, _, .init _ | _, _, .list _ | _, _, .array _ | _, _, .lambda _
  | _, _, .invoke .. | _, _, .cond .. => rfl

/-- A constant is never a condition, and everything else is the same on both sides. -/
theorem isConditionOf {w w' : Expr} (hw : w.isBool = w'.isBool) : {e e' : Expr} → Varies D e e' →
    Expr.isConditionOf w e = Expr.isConditionOf w' e'
  | _, _, @unary _ op _ _ _ h => by
    have ih := isConditionOf hw h
    have ihConvert := isConditionOf h.isBool h
    cases op with
    | quote => exact ih
    | convert => exact ihConvert
    | _ => rfl
  | _, _, .const _ | _, _, .binary .. => rfl
  | _, _, .hole | _, _, .param _ | _, _, .member _ | _, _, .call .. | _, _, .new _ | _, _, .init _
  | _, _, .list _ | _, _, .array _ | _, _, .lambda _ | _, _, .invoke .. | _, _, .cond .. => hw

theorem isCondition (h : Varies D e e') : e.isCondition = e'.isCondition :=
  h.isConditionOf h.isBool

/-- Quotes are taken off both sides, and what is left varies in the same way. -/
theorem unquote : {e e' : Expr} → Varies D e e' → Varies D e.unquote e'.unquote
  | _, _, @unary _ op _ _ _ h => by
    have ih := unquote h
    cases op with
    | quote => exact ih
    | _ => exact .unary h
  | _, _, .hole => .hole
  | _, _, .const h => .const h
  | _, _, .param p => .param p
  | _, _, .member h => .member h
  | _, _, .binary hl hr => .binary hl hr
  | _, _, .call h ha => .call h ha
  | _, _, .new h => .new h
  | _, _, .init h => .init h
  | _, _, .list h => .list h
  | _, _, .array h => .array h
  | _, _, .lambda h => .lambda h
  | _, _, .invoke h ha => .invoke h ha
  | _, _, .cond hc ha hb => .cond hc ha hb

end Expr.Varies

namespace Expr

/-! ### Trees that do not vary

Variation is reflexive, and with a relation that relates no two different strings it is equality. -/

mutual

/-- Everything varies from itself, whatever strings may stand for others. -/
theorem Varies.refl (D : Text → Text → Prop) : (e : Expr) → Varies D e e
  | hole => .hole
  | const v _ => .const (.same v)
  | param p => .param p
  | member e _ _ _ => .member (.refl D e)
  | binary _ l r => .binary (.refl D l) (.refl D r)
  | unary _ e _ => .unary (.refl D e)
  | call e _ args _ _ => .call (.refl D e) (.refl D args)
  | new _ bs => .new (.refl D bs)
  | init _ bs => .init (.refl D bs)
  | list _ es => .list (.refl D es)
  | array _ es => .array (.refl D es)
  | lambda body _ => .lambda (.refl D body)
  | invoke e args => .invoke (.refl D e) (.refl D args)
  | cond c a b => .cond (.refl D c) (.refl D a) (.refl D b)

theorem VariesAll.refl (D : Text → Text → Prop) : (es : List Expr) → VariesAll D es es
  | [] => .nil
  | e :: es => .cons (.refl D e) (.refl D es)

theorem VariesBindings.refl (D : Text → Text → Prop) :
    (bs : List (Text × Expr)) → VariesBindings D bs bs
  | [] => .nil
  | (_, e) :: bs => .cons (.refl D e) (.refl D bs)

end

mutual

/-- If no string stands for another one, both are the same. -/
theorem Varies.eq (hD : ∀ a b, D a b → a = b) : {e e' : Expr} → Varies D e e' → e = e'
  | _, _, .hole | _, _, .param _ => rfl
  | _, _, .const h => by rw [h.eq hD]
  | _, _, .member h | _, _, .unary h | _, _, .lambda h => by rw [h.eq hD]
  | _, _, .binary hl hr => by rw [hl.eq hD, hr.eq hD]
  | _, _, .call h ha | _, _, .invoke h ha => by rw [h.eq hD, ha.eq hD]
  | _, _, .new h | _, _, .init h | _, _, .list h | _, _, .array h => by rw [h.eq hD]
  | _, _, .cond hc ha hb => by rw [hc.eq hD, ha.eq hD, hb.eq hD]

theorem VariesAll.eq (hD : ∀ a b, D a b → a = b) : {es es' : List Expr} → VariesAll D es es' →
    es = es'
  | _, _, .nil => rfl
  | _, _, .cons h hs => by rw [h.eq hD, hs.eq hD]

theorem VariesBindings.eq (hD : ∀ a b, D a b → a = b) : {bs bs' : List (Text × Expr)} →
    VariesBindings D bs bs' → bs = bs'
  | _, _, .nil => rfl
  | _, _, .cons h hs => by rw [h.eq hD, hs.eq hD]

end

theorem VariesAll.length {D : Text → Text → Prop} {es es' : List Expr} (h : VariesAll D es es') :
    es.length = es'.length := by
  induction es generalizing es' with
  | nil =>
    cases h
    rfl
  | cons e es ih =>
    cases h with
    | cons _ hs => rw [List.length_cons, List.length_cons, ih hs]

/-- A constant that is a list does not vary. -/
theorem Varies.isEmptyList {e e' : Expr} (h : Varies D e e') : e.isEmptyList = e'.isEmptyList := by
  have hu := h.unquote
  unfold Expr.isEmptyList
  revert hu
  generalize e.unquote = u, e'.unquote = u'
  intro hu
  cases hu with
  | const h => cases h <;> rfl
  | list h | array h => cases h <;> rfl
  | _ => rfl

/-! ### Rows

Rows stand in parameters and never in constants, so both sides refer to the same ones in the same
order. -/

mutual

/-- Both refer to the same rows. -/
theorem Varies.rows : {e e' : Expr} → Varies D e e' →
    e.walk.filterMap param? = e'.walk.filterMap param?
  | _, _, .hole => rfl
  | _, _, .const _ => rfl
  | _, _, .param _ => rfl
  | _, _, .member h | _, _, .unary h => by
    rw [walk, walk, List.filterMap_cons_none rfl, List.filterMap_cons_none rfl, h.rows]
  | _, _, .binary hl hr => by
    rw [walk, walk, List.filterMap_cons_none rfl, List.filterMap_cons_none rfl,
      List.filterMap_append, List.filterMap_append, hl.rows, hr.rows]
  | _, _, .call h ha | _, _, .invoke h ha => by
    rw [walk, walk, List.filterMap_cons_none rfl, List.filterMap_cons_none rfl,
      List.filterMap_append, List.filterMap_append, h.rows, ha.rows]
  | _, _, .new h | _, _, .init h | _, _, .list h | _, _, .array h => by
    rw [walk, walk, List.filterMap_cons_none rfl, List.filterMap_cons_none rfl, h.rows]
  | _, _, .lambda h => by
    rw [walk, walk, List.filterMap_cons_none rfl, List.filterMap_cons_none rfl,
      List.filterMap_append, List.filterMap_append, h.rows]
  | _, _, .cond hc ha hb => by
    rw [walk, walk, List.filterMap_cons_none rfl, List.filterMap_cons_none rfl,
      List.filterMap_append, List.filterMap_append, List.filterMap_append, List.filterMap_append,
      hc.rows, ha.rows, hb.rows]

theorem VariesAll.rows : {es es' : List Expr} → VariesAll D es es' →
    (walkAll es).filterMap param? = (walkAll es').filterMap param?
  | _, _, .nil => rfl
  | _, _, .cons h hs => by
    rw [walkAll, walkAll, List.filterMap_append, List.filterMap_append, h.rows, hs.rows]

theorem VariesBindings.rows : {bs bs' : List (Text × Expr)} → VariesBindings D bs bs' →
    (walkBindings bs).filterMap param? = (walkBindings bs').filterMap param?
  | _, _, .nil => rfl
  | _, _, .cons h hs => by
    rw [walkBindings, walkBindings, List.filterMap_append, List.filterMap_append, h.rows, hs.rows]

end

/-- Both are closed, or neither is. -/
theorem Varies.isClosed {e e' : Expr} (h : Varies D e e') : e.isClosed = e'.isClosed := by
  rw [isClosed_eq, isClosed_eq, h.rows]

/-! ### Trees side by side

A hypothesis about single expressions, such as that raw strings agree, is carried along both trees
at once. Their expressions are listed in the same order, so the two lists are paired. -/

/-- What holds of every expression of a tree and of its counterpart in another one. -/
def Throughout (Q : Expr → Expr → Prop) (e e' : Expr) : Prop := List.Forall₂ Q e.walk e'.walk

section

variable {Q : Expr → Expr → Prop}

mutual

/-- Both trees have the same size, so their expressions can be paired one by one. -/
theorem Varies.length_walk : {e e' : Expr} → Varies D e e' → e.walk.length = e'.walk.length
  | _, _, .hole | _, _, .const _ | _, _, .param _ => rfl
  | _, _, .member h | _, _, .unary h => by
    rw [walk, walk, List.length_cons, List.length_cons, h.length_walk]
  | _, _, .binary hl hr => by
    rw [walk, walk, List.length_cons, List.length_cons, List.length_append, List.length_append,
      hl.length_walk, hr.length_walk]
  | _, _, .call h ha | _, _, .invoke h ha => by
    rw [walk, walk, List.length_cons, List.length_cons, List.length_append, List.length_append,
      h.length_walk, ha.length_walk]
  | _, _, .new h | _, _, .init h | _, _, .list h | _, _, .array h => by
    rw [walk, walk, List.length_cons, List.length_cons, h.length_walk]
  | _, _, .lambda h => by
    rw [walk, walk, List.length_cons, List.length_cons, List.length_append, List.length_append,
      h.length_walk]
  | _, _, .cond hc ha hb => by
    rw [walk, walk, List.length_cons, List.length_cons, List.length_append, List.length_append,
      List.length_append, List.length_append, hc.length_walk, ha.length_walk, hb.length_walk]

theorem VariesAll.length_walk : {es es' : List Expr} → VariesAll D es es' →
    (walkAll es).length = (walkAll es').length
  | _, _, .nil => rfl
  | _, _, .cons h hs => by
    rw [walkAll, walkAll, List.length_append, List.length_append, h.length_walk, hs.length_walk]

theorem VariesBindings.length_walk : {bs bs' : List (Text × Expr)} → VariesBindings D bs bs' →
    (walkBindings bs).length = (walkBindings bs').length
  | _, _, .nil => rfl
  | _, _, .cons h hs => by
    rw [walkBindings, walkBindings, List.length_append, List.length_append, h.length_walk,
      hs.length_walk]

end

/-- Lists of the same length are paired part by part. -/
theorem forall₂_append_iff {α : Type} {R : α → α → Prop} {xs xs' ys ys' : List α}
    (h : xs.length = xs'.length) : List.Forall₂ R (xs ++ ys) (xs' ++ ys') ↔
      List.Forall₂ R xs xs' ∧ List.Forall₂ R ys ys' := by
  constructor
  · intro hr
    induction xs generalizing xs' with
    | nil =>
      obtain rfl := List.length_eq_zero_iff.mp h.symm
      exact ⟨.nil, hr⟩
    | cons x xs ih =>
      obtain ⟨x', xs', rfl⟩ := List.exists_cons_of_length_eq_add_one h.symm
      cases hr with
      | cons hx hr =>
        obtain ⟨hxs, hys⟩ := ih (by simpa using h) hr
        exact ⟨.cons hx hxs, hys⟩
  · rintro ⟨hx, hy⟩
    exact List.rel_append hx hy

/-- The root of a tree is its first expression, unless it is a hole. -/
theorem Throughout.self {e e' : Expr} (h : Throughout Q e e') (hv : Varies D e e')
    (hne : e.isHole = false) : Q e e' := by
  cases hv with
  | hole => cases hne
  | _ =>
    simp only [Throughout, walk] at h
    cases h with
    | cons h _ => exact h

end

/-! ### Inlined invocations

An invocation is compiled as the body of its lambda with the arguments in place of the parameters.
The argument that is found for a parameter depends on the parameters alone, so variations of the
arguments give variations of the body. -/

theorem VariesAll.forall₂ {es es' : List Expr} (h : VariesAll D es es') :
    List.Forall₂ (Varies D) es es' := by
  induction es generalizing es' with
  | nil =>
    cases h
    exact .nil
  | cons e es ih =>
    cases h with
    | cons h hs => exact .cons h (ih hs)

/-- Replacements with related results, which changed something both or neither. -/
structure Replaced.Relates {α : Type} (R : α → α → Prop) (r r' : Replaced α) : Prop where
  result : R r.result r'.result
  changed : r.changed = r'.changed

/-- Two replacements side by side change something if one of them does. -/
theorem Replaced.Relates.and {α β : Type} {R : α → α → Prop} {S : β → β → Prop}
    {a a' : Replaced α} {b b' : Replaced β} (ha : a.Relates R a') (hb : b.Relates S b') :
    (a.and b).Relates (fun p q => R p.1 q.1 ∧ S p.2 q.2) (a'.and b') where
  result := ⟨ha.result, hb.result⟩
  changed := by rw [Replaced.and, Replaced.and, ha.changed, hb.changed]

/-- Rules that replace nothing but parameters, and those by variations. -/
structure Substitutes (D : Text → Text → Prop) (rule rule' : Expr → Option Expr) : Prop where
  param : ∀ p, Option.Rel (Varies D) (rule (param p)) (rule' (param p))
  none : ∀ e, e.param? = none → rule e = none ∧ rule' e = none

section

variable {rule rule' : Expr → Option Expr}

/-- Where the rule has nothing to say, an expression is rebuilt from replaced operands, or left
alone if none of them changes. -/
theorem askFirst_relates {α : Type} {R : α → α → Prop} {e e' : Expr}
    {operands operands' : Unit → Replaced α} {rebuild rebuild' : α → Expr} (h : Varies D e e')
    (hn : rule e = none) (hn' : rule' e' = none) (ho : (operands ()).Relates R (operands' ()))
    (hb : ∀ a a', R a a' → Varies D (rebuild a) (rebuild' a')) :
    (askFirst rule e operands rebuild).Relates (Varies D)
      (askFirst rule' e' operands' rebuild') := by
  rw [askFirst, askFirst, hn, hn']
  refine ⟨?_, ho.changed⟩
  show Varies D (if _ then _ else _) (if _ then _ else _)
  rw [ho.changed]
  split
  · exact hb _ _ ho.result
  · exact h

/-- A member is looked up again in the type of what it is taken from, which is the same for both. -/
theorem Varies.rebuildMember {e e' : Expr} (h : Varies D e e') (name : Text)
    (type owner : Option Ty) :
    Varies D (rebuildMember e name type owner) (rebuildMember e' name type owner) := by
  unfold Expr.rebuildMember memberOf
  rw [← h.type?]
  rcases e.type?.bind fun t => t.memberType name with _ | ⟨t, owner⟩
  · exact .member h
  · exact .member h

/-- A missing branch becomes null on both sides. -/
theorem Varies.orNull {e e' : Expr} (h : Varies D e e') : Varies D e.orNull e'.orNull := by
  unfold Expr.orNull
  rw [← h.isHole]
  split
  · exact .const (.same _)
  · exact h

theorem replace_param_relates (p : Param)
    (h : Option.Rel (Varies D) (rule (param p)) (rule' (param p))) :
    (Expr.replace rule (param p)).Relates (Varies D) (Expr.replace rule' (param p)) := by
  rw [Expr.replace, Expr.replace]
  generalize rule (param p) = a, rule' (param p) = a' at h
  cases h with
  | none => exact ⟨.param p, rfl⟩
  | some h =>
    have hresult := h
    cases h <;> exact ⟨hresult, rfl⟩

mutual

/-- Replacing parameters by variations keeps a variation. -/
theorem Varies.replace (hr : Substitutes D rule rule') : {e e' : Expr} → Varies D e e' →
    (Expr.replace rule e).Relates (Varies D) (Expr.replace rule' e')
  | _, _, .hole => ⟨.hole, rfl⟩
  | _, _, .const h =>
    askFirst_relates (.const h) (hr.none _ rfl).1 (hr.none _ rfl).2
      (R := fun _ _ => True) ⟨trivial, rfl⟩ fun _ _ _ => .const h
  | _, _, .param p => replace_param_relates p (hr.param p)
  | _, _, .member h =>
    askFirst_relates (.member h) (hr.none _ rfl).1 (hr.none _ rfl).2 (h.replace hr)
      fun _ _ h => h.rebuildMember _ _ _
  | _, _, .binary hl hr' =>
    askFirst_relates (.binary hl hr') (hr.none _ rfl).1 (hr.none _ rfl).2
      ((hl.replace hr).and (hr'.replace hr)) fun _ _ h => .binary h.1 h.2
  | _, _, .unary h =>
    askFirst_relates (.unary h) (hr.none _ rfl).1 (hr.none _ rfl).2 (h.replace hr)
      fun _ _ h => .unary h
  | _, _, .call h ha =>
    askFirst_relates (.call h ha) (hr.none _ rfl).1 (hr.none _ rfl).2
      ((h.replace hr).and (ha.replace hr)) fun _ _ h => .call h.1 h.2
  | _, _, .new h =>
    askFirst_relates (.new h) (hr.none _ rfl).1 (hr.none _ rfl).2 (h.replace hr)
      fun _ _ h => .new h
  | _, _, .init h =>
    askFirst_relates (.init h) (hr.none _ rfl).1 (hr.none _ rfl).2 (h.replace hr)
      fun _ _ h => .init h
  | _, _, .list h =>
    askFirst_relates (.list h) (hr.none _ rfl).1 (hr.none _ rfl).2 (h.replace hr)
      fun _ _ h => .list h
  | _, _, .array h =>
    askFirst_relates (.array h) (hr.none _ rfl).1 (hr.none _ rfl).2 (h.replace hr)
      fun _ _ h => .array h
  | _, _, .lambda h =>
    askFirst_relates (.lambda h) (hr.none _ rfl).1 (hr.none _ rfl).2 (h.replace hr)
      fun _ _ h => .lambda h
  | _, _, .invoke h ha =>
    askFirst_relates (.invoke h ha) (hr.none _ rfl).1 (hr.none _ rfl).2
      ((h.replace hr).and (ha.replace hr)) fun _ _ h => .invoke h.1 h.2
  | _, _, .cond hc ha hb =>
    askFirst_relates (.cond hc ha hb) (hr.none _ rfl).1 (hr.none _ rfl).2
      ((hc.replace hr).and ((ha.replace hr).and (hb.replace hr)))
      fun _ _ h => .cond h.1 h.2.1.orNull h.2.2.orNull

theorem VariesAll.replace (hr : Substitutes D rule rule') : {es es' : List Expr} →
    VariesAll D es es' → (replaceAll rule es).Relates (VariesAll D) (replaceAll rule' es')
  | _, _, .nil => ⟨.nil, rfl⟩
  | _, _, .cons h hs =>
    have h' := (h.replace hr).and (hs.replace hr)
    ⟨.cons h'.result.1 h'.result.2, h'.changed⟩

theorem VariesBindings.replace (hr : Substitutes D rule rule') :
    {bs bs' : List (Text × Expr)} → VariesBindings D bs bs' →
    (replaceBindings rule bs).Relates (VariesBindings D) (replaceBindings rule' bs')
  | _, _, .nil => ⟨.nil, rfl⟩
  | _, _, .cons h hs =>
    have h' := (h.replace hr).and (hs.replace hr)
    ⟨.cons h'.result.1 h'.result.2, h'.changed⟩

end

end

/-- The first match stands at the same place in both lists. -/
theorem find?_rel {α : Type} {R : α → α → Prop} {p : α → Bool} {l l' : List α}
    (h : List.Forall₂ R l l') (hp : ∀ a b, R a b → p a = p b) :
    Option.Rel R (l.find? p) (l'.find? p) := by
  induction h with
  | nil => exact .none
  | @cons a b _ _ hab _ ih =>
    rw [List.find?_cons, List.find?_cons, ← hp a b hab]
    cases p a with
    | true => exact .some hab
    | false => exact ih

theorem or_rel {α : Type} {R : α → α → Prop} {a a' b b' : Option α} (ha : Option.Rel R a a')
    (hb : Option.Rel R b b') : Option.Rel R (a.or b) (a'.or b') := by
  cases ha with
  | none => exact hb
  | some h => exact .some h

/-- The expression of a pair that is found varies as the pairs do. -/
theorem map_snd_rel {a a' : Option (Param × Expr)}
    (h : Option.Rel (fun x y => x.1 = y.1 ∧ Varies D x.2 y.2) a a') :
    Option.Rel (Varies D) (a.map (·.2)) (a'.map (·.2)) := by
  cases h with
  | none => exact .none
  | some h => exact .some h.2

theorem forall₂_zip_varies {es es' : List Expr} (h : List.Forall₂ (Varies D) es es') :
    (ps : List Param) → List.Forall₂ (fun a b : Param × Expr => a.1 = b.1 ∧ Varies D a.2 b.2)
      (ps.zip es) (ps.zip es')
  | [] => .nil
  | p :: ps => by
    cases h with
    | nil => exact .nil
    | cons h hs => exact .cons ⟨rfl, h⟩ (forall₂_zip_varies hs ps)

/-- A parameter is looked up by its number first, and by name and type if there is no such number.
-/
theorem substitution_eq (ps : List Param) (args : List Expr) (p : Param) :
    substitution ps args p =
      (((ps.zip args).reverse.find? fun a => decide (a.1.id = p.id)).or
        ((ps.zip args).reverse.find? fun a =>
          decide (a.1.name = p.name) && decide (a.1.type = p.type))).map (·.2) := by
  unfold substitution
  dsimp only
  split
  · rename_i q e hfound
    replace hfound : ((ps.zip args).reverse.find? fun a => decide (a.1.id = p.id)) =
      some (q, e) := hfound
    rw [hfound]
    rfl
  · rename_i hnone
    replace hnone : ((ps.zip args).reverse.find? fun a => decide (a.1.id = p.id)) = none := hnone
    rw [hnone]
    rfl

/-- What takes the place of a parameter varies as the arguments do. -/
theorem substitution_rel {args args' : List Expr} (h : VariesAll D args args') (ps : List Param)
    (p : Param) : Option.Rel (Varies D) (substitution ps args p) (substitution ps args' p) := by
  have hpairs := List.rel_reverse (forall₂_zip_varies h.forall₂ ps)
  have hid := find?_rel hpairs (p := fun a => decide (a.1.id = p.id)) fun a b hab => by
    rw [hab.1]
  have hname := find?_rel hpairs
    (p := fun a => decide (a.1.name = p.name) && decide (a.1.type = p.type)) fun a b hab => by
      rw [hab.1]
  rw [substitution_eq, substitution_eq]
  exact map_snd_rel (or_rel hid hname)

/-- Both invocations are inlined, to variations, or neither is for the same reason. -/
theorem Varies.inline {e e' : Expr} {args args' : List Expr} (h : Varies D e e')
    (ha : VariesAll D args args') :
    (∃ b b', inline e args = .ok b ∧ inline e' args' = .ok b' ∧ Varies D b b') ∨
      ∃ x, inline e args = .error x ∧ inline e' args' = .error x := by
  have hu := h.unquote
  unfold Expr.inline
  generalize e.unquote = u, e'.unquote = u' at hu
  cases hu with
  | @lambda _ _ ps h =>
    by_cases hlen : ps.length = args.length
    · have hlen' : ps.length = args'.length := by rw [← ha.length, hlen]
      refine .inl ⟨_, _, if_pos hlen, if_pos hlen', (h.replace ⟨?_, ?_⟩).result⟩
      · intro p
        exact substitution_rel ha ps p
      · intro x hx
        cases x with
        | param p => cases hx
        | _ => exact ⟨rfl, rfl⟩
    · have hlen' : ps.length ≠ args'.length := by rwa [← ha.length]
      exact .inr ⟨_, if_neg hlen, if_neg hlen'⟩
  | _ => exact .inr ⟨_, rfl, rfl⟩

end Expr

end QueryTree
