import QueryTree.Proofs.Concatenation
import QueryTree.Proofs.Folding
import QueryTree.Proofs.ItemNames
import QueryTree.Proofs.NullTests

/-!
# Conversions and quotes around parts

Compiling looks through a conversion and through a quote: what is emitted for them is what is
emitted for the expression inside. But whoever groups operands looks at their form, and a conversion
or a quote has a form of its own. So a part that is wrapped is emitted as before exactly as long as
no rule around it asks for a form that the wrapping hides. The rules that ask are those for operands
of operators and of negation, for the minus sign, for the list of a membership test and for what is
counted.

`Expr.Wraps` says that one part of an expression is wrapped, anywhere below shapes, lists, calls,
conditionals, lambdas and invocations, and that every rule on the way gets the same answer. Both
expressions then compile alike: to the same text, with the same parameters, or to the same error.

## Main definitions

* `Expr.Scalar`: expressions that are one value
* `Expr.GroupedAlike`, `Intrinsic.Admits`: rules that get the same answer
* `Expr.Wraps`: one part is wrapped
* `Rendering.Alike`: renderings that emit the same

## Main results

* `Expr.Wraps.alike`: a part may be wrapped where no rule asks for its form
* `Expr.Wraps.compile_wrapped`: so both compile alike
* `exists_wrapped_sum_torn`: a sum that is wrapped loses its parentheses
-/

namespace QueryTree

open Emit Sql

namespace Expr

variable {e e' x : Expr} {k : Bool}

/-! ### Parts with rows -/

theorem isClosed_eq_false_iff : e.isClosed = false ↔ ∃ p, param p ∈ e.walk := by
  rw [isClosed_eq, List.isEmpty_eq_false_iff_exists_mem]
  constructor
  · rintro ⟨p, hp⟩
    obtain ⟨y, hy, hyp⟩ := List.mem_filterMap.mp hp
    refine ⟨p, ?_⟩
    unfold param? at hyp
    split at hyp
    · cases hyp
      exact hy
    · cases hyp
  · rintro ⟨p, hp⟩
    exact ⟨p, List.mem_filterMap.mpr ⟨_, hp, rfl⟩⟩

theorem not_isClosed_of_walk (h : x.isClosed = false) (hsub : ∀ y ∈ x.walk, y ∈ e.walk) :
    e.isClosed = false := by
  obtain ⟨p, hp⟩ := isClosed_eq_false_iff.mp h
  exact isClosed_eq_false_iff.mpr ⟨p, hsub _ hp⟩

theorem walk_of_mem_walkAll {es : List Expr} (hx : x ∈ es) : ∀ y ∈ x.walk, y ∈ walkAll es := by
  induction es with
  | nil => cases hx
  | cons e es ih =>
    intro y hy
    rw [walkAll]
    rcases List.mem_cons.mp hx with rfl | hx
    · exact List.mem_append_left _ hy
    · exact List.mem_append_right _ (ih hx y hy)

theorem walk_of_mem_walkBindings {bs : List (Text × Expr)} {name : Text} (hx : (name, x) ∈ bs) :
    ∀ y ∈ x.walk, y ∈ walkBindings bs := by
  induction bs with
  | nil => cases hx
  | cons b bs ih =>
    obtain ⟨m, e⟩ := b
    intro y hy
    rw [walkBindings]
    rcases List.mem_cons.mp hx with heq | hx
    · cases heq
      exact List.mem_append_left _ hy
    · exact List.mem_append_right _ (ih hx y hy)

/-! ### Single values -/

/-- The expression is one value. `isTest` says whether counting it counts the rows that satisfy
it. -/
inductive Scalar : (isTest : Bool) → Expr → Prop
  | member {e : Expr} {name : Text} {type owner : Option Ty} :
    Scalar (member e name type owner).isBool (.member e name type owner)
  | binary {op : BinaryOp} {l r : Expr} : Scalar (!op.isArithmetic) (.binary op l r)
  | unary {op : UnaryOp} {e : Expr} {type : Option Ty} (hop : op ≠ .quote) :
    Scalar (op = .not) (.unary op e type)
  | call {e : Expr} {method : Text} {args : List Expr} {type : Option Ty} {callee : Option Text} :
    Scalar (call e method args type callee).isBool (.call e method args type callee)
  | cond {c a b : Expr} : Scalar false (.cond c a b)
  | quote {k : Bool} {e : Expr} {type : Option Ty} (h : Scalar k e) :
    Scalar k (.unary .quote e type)
  | lambda {k : Bool} {body : Expr} {ps : List Param} (h : Scalar k body) :
    Scalar k (.lambda body ps)
  | invoke {k : Bool} {target body : Expr} {args : List Expr}
    (hbody : inline target args = .ok body) (h : Scalar k body) : Scalar k (.invoke target args)

/-- A single value is no row. -/
theorem Scalar.unquote_ne_param (h : Scalar k e) (p : Param) : e.unquote ≠ .param p := by
  induction h with
  | unary hop =>
    rename_i op e type
    cases op with
    | quote => exact absurd rfl hop
    | _ => nofun
  | quote _ ih => exact ih
  | _ => nofun

/-! ### Rules that get the same answer -/

/-- Two expressions are texts alike and truth values alike. -/
structure SameClass (e e' : Expr) : Prop where
  text : e'.type?.map Ty.isString = e.type?.map Ty.isString
  bool : e'.type?.map Ty.isBool = e.type?.map Ty.isBool

/-- An operator groups both operands alike. -/
def GroupedAlike (op : BinaryOp) (right : Bool) (e e' : Expr) : Prop :=
  if op.isArithmetic then
    e.arithmeticParens op right = e'.arithmeticParens op right ∧
      (op = .add → e.addends.length = e'.addends.length)
  else e.needsParens = e'.needsParens ∧ e.isLogical = e'.isLogical

end Expr

/-- A method takes both expressions alike, as its target or as an argument. `kept` says that both
are lists of the same members, if they are lists. -/
def Intrinsic.Admits (i : Intrinsic) (isTarget kept : Bool) (e e' : Expr) : Prop :=
  match i with
  | equals => e.GroupedAlike .equal false e'
  | membership _ => isTarget = true ∨ kept = true
  | contains => isTarget = true → e.type?.any Ty.isCollection = e'.type?.any Ty.isCollection ∧
      (e.type?.any Ty.isCollection = true → kept = true)
  | aggregate c => c = .count → kept = true ∨ e.Scalar false ∧ e'.Scalar false
  | _ => True

namespace Expr

variable {e e' x : Expr} {k : Bool}

/-- One part of the first expression is wrapped in the second, and every rule around it gets the
same answer. `kept` says that the wrapping does not hide what is no value, such as a list. -/
inductive Wraps : (kept : Bool) → Expr → Expr → Prop
  | convert {k : Bool} {x : Expr} {type : Option Ty} (hx : x.isClosed = false) (hs : Scalar k x)
    (hc : SameClass x (.unary .convert x type)) : Wraps false x (.unary .convert x type)
  | quote {x : Expr} {type : Option Ty} (hx : x.isClosed = false)
    (hc : SameClass x (.unary .quote x type)) : Wraps true x (.unary .quote x type)
  | left {k : Bool} {op : BinaryOp} {l l' r : Expr} (h : Wraps k l l')
    (hg : GroupedAlike op false l l') : Wraps true (.binary op l r) (.binary op l' r)
  | right {k : Bool} {op : BinaryOp} {l r r' : Expr} (h : Wraps k r r')
    (hg : GroupedAlike op true r r') : Wraps true (.binary op l r) (.binary op l r')
  | operand {k : Bool} {op : UnaryOp} {e e' : Expr} {type : Option Ty} (hop : op ≠ .quote)
    (h : Wraps k e e') (hnot : op = .not → e.isLogical = e'.isLogical)
    (hminus : op = .negate → e.isBinary = e'.isBinary) :
    Wraps true (.unary op e type) (.unary op e' type)
  | quoted {k : Bool} {e e' : Expr} {type : Option Ty} (h : Wraps k e e')
    (hq : (Expr.unary .quote e type).isBool = e.isBool) :
    Wraps k (.unary .quote e type) (.unary .quote e' type)
  | test {k : Bool} {c c' a b : Expr} (h : Wraps k c c') : Wraps true (.cond c a b) (.cond c' a b)
  | ifTrue {k : Bool} {c a a' b : Expr} (h : Wraps k a a') : Wraps true (.cond c a b) (.cond c a' b)
  | ifFalse {k : Bool} {c a b b' : Expr} (h : Wraps k b b') :
    Wraps true (.cond c a b) (.cond c a b')
  | receiver {k : Bool} {e e' : Expr} {method : Text} {args : List Expr} {type : Option Ty}
    {callee : Option Text} {i : Intrinsic} (h : Wraps k e e')
    (hi : Intrinsic.ofName? method = some i) (hstatic : i.isAggregate = false)
    (hadmits : i.Admits true k e e') :
    Wraps true (.call e method args type callee) (.call e' method args type callee)
  | argument {k : Bool} {e a a' : Expr} {method : Text} {before behind : List Expr}
    {type : Option Ty} {callee : Option Text} {i : Intrinsic} (h : Wraps k a a')
    (hi : Intrinsic.ofName? method = some i) (hstatic : i.isAggregate = true → e.isHole = true)
    (hadmits : i.Admits (e.isHole && before.isEmpty) k a a') :
    Wraps true (.call e method (before ++ a :: behind) type callee)
      (.call e method (before ++ a' :: behind) type callee)
  | new {k : Bool} {a a' : Expr} {name : Text} {before behind : List (Text × Expr)}
    {type : Option Ty} (h : Wraps k a a') :
    Wraps true (.new type (before ++ (name, a) :: behind))
      (.new type (before ++ (name, a') :: behind))
  | init {k : Bool} {a a' : Expr} {name : Text} {before behind : List (Text × Expr)}
    {type : Option Ty} (h : Wraps k a a') :
    Wraps true (.init type (before ++ (name, a) :: behind))
      (.init type (before ++ (name, a') :: behind))
  | list {k : Bool} {a a' : Expr} {before behind : List Expr} {type : Option Ty}
    (h : Wraps k a a') :
    Wraps true (.list type (before ++ a :: behind)) (.list type (before ++ a' :: behind))
  | array {k : Bool} {a a' : Expr} {before behind : List Expr} {type : Option Ty}
    (h : Wraps k a a') :
    Wraps true (.array type (before ++ a :: behind)) (.array type (before ++ a' :: behind))
  | lambda {k : Bool} {body body' : Expr} {ps : List Param} (h : Wraps k body body') :
    Wraps k (.lambda body ps) (.lambda body' ps)
  | invoke {k : Bool} {target target' body body' : Expr} {args args' : List Expr}
    (hopen : (Expr.invoke target args).isClosed = false)
    (hopen' : (Expr.invoke target' args').isClosed = false)
    (hc : SameClass (.invoke target args) (.invoke target' args'))
    (hbody : inline target args = .ok body) (hbody' : inline target' args' = .ok body')
    (h : Wraps k body body') : Wraps k (.invoke target args) (.invoke target' args')

/-! ### What the rules see -/

/-- Both expressions depend on a row, and they answer the same questions alike. -/
structure Resembles (e e' : Expr) : Prop where
  isOpen : e.isClosed = false
  isOpen' : e'.isClosed = false
  sameClass : SameClass e e'
  condition : ∀ w w' : Expr, w.isBool = e.isBool → w'.isBool = e'.isBool →
    isConditionOf w e = isConditionOf w' e'
  param : ∀ p, e.unquote = .param p ↔ e'.unquote = .param p

theorem any_eq_of_map_eq {α : Type} {o o' : Option α} {f : α → Bool} (h : o'.map f = o.map f) :
    o'.any f = o.any f := by
  cases o <;> cases o' <;> simp_all

theorem SameClass.refl (e : Expr) : SameClass e e := ⟨rfl, rfl⟩

theorem SameClass.isText (h : SameClass e e') : e'.isText = e.isText := any_eq_of_map_eq h.text

theorem SameClass.isBool (h : SameClass e e') : e'.isBool = e.isBool := any_eq_of_map_eq h.bool

theorem map_orElse {α β : Type} (f : α → β) (a b : Option α) :
    (a <|> b).map f = (a.map f <|> b.map f) := by
  cases a <;> rfl

/-- The class of an expression with the type of the first operand that has one. -/
theorem SameClass.of_orElse {a a' b b' : Expr} (ha : SameClass a a') (hb : SameClass b b')
    (he : e.type? = (a.type? <|> b.type?)) (he' : e'.type? = (a'.type? <|> b'.type?)) :
    SameClass e e' := by
  constructor
  · rw [he, he', map_orElse, map_orElse, ha.text, hb.text]
  · rw [he, he', map_orElse, map_orElse, ha.bool, hb.bool]

theorem SameClass.binary {op : BinaryOp} {l' r' : Expr} (hl : SameClass l l')
    (hr : SameClass r r') : SameClass (.binary op l r) (.binary op l' r') := by
  by_cases hop : op.isArithmetic = true
  · exact .of_orElse hl hr (by rw [type?, if_pos hop]) (by rw [type?, if_pos hop])
  · constructor <;> rw [type?, type?, if_neg hop, if_neg hop]

theorem SameClass.unary {op : UnaryOp} {type : Option Ty} (h : SameClass e e') :
    SameClass (.unary op e type) (.unary op e' type) := by
  by_cases hop : op = .not
  · constructor <;> rw [type?, type?, if_pos hop, if_pos hop]
  · constructor
    · rw [type?, type?, if_neg hop, if_neg hop, map_orElse, map_orElse, h.text]
    · rw [type?, type?, if_neg hop, if_neg hop, map_orElse, map_orElse, h.bool]

theorem SameClass.cond {c c' a a' b b' : Expr} (ha : SameClass a a') (hb : SameClass b b') :
    SameClass (.cond c a b) (.cond c' a' b') :=
  .of_orElse ha hb rfl rfl

theorem isConditionOf_congr {w w' : Expr} (h : w.isBool = w'.isBool) (e : Expr) :
    isConditionOf w e = isConditionOf w' e := by
  fun_induction isConditionOf w e with
  | case1 w e t ih => exact ih h
  | _ => simp_all [isConditionOf]

theorem walk_element {before behind : List Expr} : ∀ y ∈ x.walk,
    y ∈ walkAll (before ++ x :: behind) :=
  walk_of_mem_walkAll (List.mem_append_right _ (List.mem_cons_self ..))

theorem walk_binding {before behind : List (Text × Expr)} {name : Text} : ∀ y ∈ x.walk,
    y ∈ walkBindings (before ++ (name, x) :: behind) :=
  walk_of_mem_walkBindings (List.mem_append_right _ (List.mem_cons_self ..))

/-- Expressions with a part that depends on a row, which are no quotes, conversions or
parameters. -/
theorem Resembles.of_part {y y' : Expr} (h : Resembles y y') (hsub : ∀ z ∈ y.walk, z ∈ e.walk)
    (hsub' : ∀ z ∈ y'.walk, z ∈ e'.walk) (hc : SameClass e e')
    (hcond : ∀ w w' : Expr, w.isBool = e.isBool → w'.isBool = e'.isBool →
      isConditionOf w e = isConditionOf w' e')
    (hparam : ∀ p, e.unquote ≠ .param p ∧ e'.unquote ≠ .param p) : Resembles e e' where
  isOpen := not_isClosed_of_walk h.isOpen hsub
  isOpen' := not_isClosed_of_walk h.isOpen' hsub'
  sameClass := hc
  condition := hcond
  param p := iff_of_false (hparam p).1 (hparam p).2

/-- Such expressions that are conditions by their type. -/
theorem Resembles.of_typed {y y' : Expr} (h : Resembles y y') (hsub : ∀ z ∈ y.walk, z ∈ e.walk)
    (hsub' : ∀ z ∈ y'.walk, z ∈ e'.walk) (hc : SameClass e e')
    (hcond : ∀ w : Expr, isConditionOf w e = w.isBool ∧ isConditionOf w e' = w.isBool)
    (hparam : ∀ p, e.unquote ≠ .param p ∧ e'.unquote ≠ .param p) : Resembles e e' := by
  refine h.of_part hsub hsub' hc (fun w w' hw hw' => ?_) hparam
  rw [(hcond w).1, (hcond w').2, hw, hw', hc.isBool]

/-- **What a part may be wrapped in looks the same.** -/
theorem Wraps.resembles (h : Wraps k e e') : Resembles e e' := by
  induction h with
  | @convert k x type hx hs hc =>
    refine ⟨hx, by rwa [isClosed_unary], hc, fun w w' hw _ => ?_, fun p => ?_⟩
    · exact isConditionOf_congr hw x
    · exact iff_of_false (hs.unquote_ne_param p) nofun
  | @quote x type hx hc =>
    refine ⟨hx, by rwa [isClosed_unary], hc, fun w w' hw hw' => ?_, fun p => Iff.rfl⟩
    exact isConditionOf_congr (by rw [hw, hw', hc.isBool]) x
  | left _ _ ih =>
    exact ih.of_part (fun z hz => by simp [walk, hz]) (fun z hz => by simp [walk, hz])
      (ih.sameClass.binary (.refl _)) (fun _ _ _ _ => rfl) fun _ => ⟨nofun, nofun⟩
  | right _ _ ih =>
    exact ih.of_part (fun z hz => by simp [walk, hz]) (fun z hz => by simp [walk, hz])
      (.binary (.refl _) ih.sameClass) (fun _ _ _ _ => rfl) fun _ => ⟨nofun, nofun⟩
  | @operand _ op e e' type hop _ _ _ ih =>
    have hplain : ∀ e : Expr, ∀ p, (unary op e type).unquote ≠ .param p := by
      cases op with
      | quote => exact absurd rfl hop
      | _ => exact fun _ _ => nofun
    refine ih.of_part (fun z hz => by simp [walk, hz]) (fun z hz => by simp [walk, hz])
      ih.sameClass.unary (fun w w' _ _ => ?_) fun p => ⟨hplain e p, hplain e' p⟩
    cases op with
    | quote => exact absurd rfl hop
    | convert => exact ih.condition e e' rfl rfl
    | _ => rfl
  | @quoted _ e e' type _ hq ih =>
    have hq' : (unary .quote e' type).isBool = e'.isBool := by
      rw [ih.sameClass.unary.isBool, hq, ih.sameClass.isBool]
    refine ⟨?_, ?_, ih.sameClass.unary, fun w w' hw hw' => ?_, ih.param⟩
    · rw [isClosed_unary, ih.isOpen]
    · rw [isClosed_unary, ih.isOpen']
    · exact ih.condition w w' (hw.trans hq) (hw'.trans hq')
  | test _ ih =>
    exact ih.of_typed (fun z hz => by simp [walk, hz])
      (fun z hz => by simp [walk, hz]) (.cond (.refl _) (.refl _))
      (fun _ => ⟨rfl, rfl⟩) fun _ => ⟨nofun, nofun⟩
  | ifTrue _ ih =>
    exact ih.of_typed (fun z hz => by simp [walk, hz])
      (fun z hz => by simp [walk, hz]) (.cond ih.sameClass (.refl _))
      (fun _ => ⟨rfl, rfl⟩) fun _ => ⟨nofun, nofun⟩
  | ifFalse _ ih =>
    exact ih.of_typed (fun z hz => by simp [walk, hz])
      (fun z hz => by simp [walk, hz]) (.cond (.refl _) ih.sameClass)
      (fun _ => ⟨rfl, rfl⟩) fun _ => ⟨nofun, nofun⟩
  | receiver _ _ _ _ ih =>
    exact ih.of_typed (fun z hz => by simp [walk, hz])
      (fun z hz => by simp [walk, hz]) ⟨rfl, rfl⟩
      (fun _ => ⟨rfl, rfl⟩) fun _ => ⟨nofun, nofun⟩
  | argument _ _ _ _ ih =>
    exact ih.of_typed (fun z hz => by simp [walk, walk_element z hz])
      (fun z hz => by simp [walk, walk_element z hz]) ⟨rfl, rfl⟩
      (fun _ => ⟨rfl, rfl⟩) fun _ => ⟨nofun, nofun⟩
  | new _ ih =>
    exact ih.of_typed (fun z hz => by simp [walk, walk_binding z hz])
      (fun z hz => by simp [walk, walk_binding z hz]) ⟨rfl, rfl⟩
      (fun _ => ⟨rfl, rfl⟩) fun _ => ⟨nofun, nofun⟩
  | init _ ih =>
    exact ih.of_typed (fun z hz => by simp [walk, walk_binding z hz])
      (fun z hz => by simp [walk, walk_binding z hz]) ⟨rfl, rfl⟩
      (fun _ => ⟨rfl, rfl⟩) fun _ => ⟨nofun, nofun⟩
  | list _ ih =>
    exact ih.of_typed (fun z hz => by simp [walk, walk_element z hz])
      (fun z hz => by simp [walk, walk_element z hz]) ⟨rfl, rfl⟩
      (fun _ => ⟨rfl, rfl⟩) fun _ => ⟨nofun, nofun⟩
  | array _ ih =>
    exact ih.of_typed (fun z hz => by simp [walk, walk_element z hz])
      (fun z hz => by simp [walk, walk_element z hz]) ⟨rfl, rfl⟩
      (fun _ => ⟨rfl, rfl⟩) fun _ => ⟨nofun, nofun⟩
  | lambda _ ih =>
    exact ih.of_typed (fun z hz => by simp [walk, hz])
      (fun z hz => by simp [walk, hz]) ⟨ih.sameClass.text, ih.sameClass.bool⟩
      (fun _ => ⟨rfl, rfl⟩) fun _ => ⟨nofun, nofun⟩
  | invoke hopen hopen' hc _ _ _ _ =>
    exact ⟨hopen, hopen', hc, fun w w' hw hw' => by
      show w.isBool = w'.isBool
      rw [hw, hw', hc.isBool], fun _ => iff_of_false nofun nofun⟩

theorem literalTruth?_of_not_isClosed (h : e.isClosed = false) : e.literalTruth? = none := by
  cases hl : e.literalTruth? with
  | none => rfl
  | some b => rw [isClosed_of_literalTruth? hl] at h; cases h

theorem isEmptyList_of_not_isClosed (h : e.isClosed = false) : e.isEmptyList = false := by
  rw [← isClosed_unquote] at h
  unfold isEmptyList
  split
  · rename_i type items heq
    cases items with
    | nil => rw [heq] at h; cases h
    | cons => rfl
  · rename_i type items heq
    cases items with
    | nil => rw [heq] at h; cases h
    | cons => rfl
  · rename_i v type heq
    rw [heq] at h
    cases h
  · rfl

end Expr

/-! ### Renderings that emit the same -/

namespace Rendering

variable {st : Settings} {e e' : Expr} {k : Bool} {l l' r r' : Rendering}

/-- Both renderings emit the same where a value or condition stands, and if `kept` says so, also
where a list or the row of an update does and where something is counted. -/
structure Alike (kept : Bool) (r r' : Rendering) : Prop where
  value : r.value = r'.value
  condition : r.condition = r'.condition
  projection : r.projection = r'.projection
  argument : ∀ c, c ≠ .count → r.argument c = r'.argument c
  counted : kept = true → r.argument .count = r'.argument .count
  members : kept = true → r.members = r'.members
  rows : kept = true → r.rows .update = r'.rows .update
  addends : r.expr.addends.length = r'.expr.addends.length → r.addends = r'.addends

theorem Alike.refl (k : Bool) (r : Rendering) : Alike k r r :=
  ⟨rfl, rfl, rfl, fun _ _ => rfl, fun _ => rfl, fun _ => rfl, fun _ => rfl, fun _ => rfl⟩

theorem folding_of_not_isClosed {α : Type} {constant : Value → Emit α} {own : Emit α}
    (h : e.isClosed = false) : folding st e constant own = own := by
  rw [folding, Expr.folded?_of_not_isClosed h]
  rfl

theorem unsupported_congr {α : Type} (h : e.kind? = e'.kind?) :
    (Emit.unsupported e : Clause → Emit α) = Emit.unsupported e' := by
  funext c
  rw [Emit.unsupported, Emit.unsupported, h]

theorem noRows_congr {μ : Type} (h : e.kind? = e'.kind?) :
    (noRows e : Clause → (Column → Bool) → Attempt CompileError (List (Row μ))) = noRows e' := by
  funext c w
  rw [noRows, noRows, h]

section Scalars

variable {value condition : Clause → Emit Text} {isTest : Bool}
  {addends addends' : Option (List (Clause → Emit Text))}

/-! A single value with rows is emitted by its own rules. -/

theorem scalar_value (he : e.isClosed = false) :
    (scalar st e value condition isTest addends).value = value :=
  funext fun _ => folding_of_not_isClosed he

theorem scalar_condition (he : e.isClosed = false) :
    (scalar st e value condition isTest addends).condition = condition :=
  funext fun _ => folding_of_not_isClosed he

theorem scalar_projection (he : e.isClosed = false) :
    (scalar st e value condition isTest addends).projection = selectItem st (value .select) [] :=
  congrArg (selectItem st · []) (folding_of_not_isClosed he)

theorem scalar_argument (he : e.isClosed = false) (c : Clause) :
    (scalar st e value condition isTest addends).argument c =
      if c = .count && isTest then enclose "CASE WHEN " (stated (condition c)) " THEN 1 END"
      else value c := by
  show (if c = .count && isTest then enclose _ (stated ((scalar st e value condition isTest
    addends).condition c)) _ else (scalar st e value condition isTest addends).value c) = _
  rw [scalar_value he, scalar_condition he]

theorem scalar_members (he : e.isClosed = false) :
    (scalar st e value condition isTest addends).members = Emit.unsupported e .in_ :=
  folding_of_not_isClosed he

theorem scalar_rows (he : e.isClosed = false) :
    (scalar st e value condition isTest addends).rows = noRows e := by
  funext c w
  show foldedRows st e (noRows e) c w = _
  rw [foldedRows, Expr.folded?_of_not_isClosed he]
  rfl

theorem scalar_addends (he : e.isClosed = false) :
    (scalar st e value condition isTest addends).addends = addends.getD [value] := by
  show addends.getD [(scalar st e value condition isTest addends).value] = _
  rw [scalar_value he]

theorem alike_scalar (he : e.isClosed = false) (he' : e'.isClosed = false)
    (hk : e.kind? = e'.kind?)
    (ha : e.addends.length = e'.addends.length → addends = addends') :
    Alike true (scalar st e value condition isTest addends)
      (scalar st e' value condition isTest addends') where
  value := by rw [scalar_value he, scalar_value he']
  condition := by rw [scalar_condition he, scalar_condition he']
  projection := by rw [scalar_projection he, scalar_projection he']
  argument c _ := by rw [scalar_argument he, scalar_argument he']
  counted _ := by rw [scalar_argument he, scalar_argument he']
  members _ := by rw [scalar_members he, scalar_members he', unsupported_congr hk]
  rows _ := by rw [scalar_rows he, scalar_rows he', noRows_congr hk]
  addends h := by rw [scalar_addends he, scalar_addends he', ha h]

end Scalars

/-! #### Operators -/

/-- Both operands emit the same, and the operator groups them alike. -/
structure OperandAlike (op : BinaryOp) (right : Bool) (r r' : Rendering) : Prop where
  value : r.value = r'.value
  condition : r.condition = r'.condition
  truth : r.expr.literalTruth? = r'.expr.literalTruth?
  isCondition : r.expr.isCondition = r'.expr.isCondition
  isNull : r.expr.isNullConstant = r'.expr.isNullConstant
  isText : r.expr.isText = r'.expr.isText
  parens : op.isArithmetic = false →
    r.expr.needsParens = r'.expr.needsParens ∧ r.expr.isLogical = r'.expr.isLogical
  arithmetic : op.isArithmetic = true →
    r.expr.arithmeticParens op right = r'.expr.arithmeticParens op right ∧
      (op = .add → r.addends = r'.addends)

variable {op : BinaryOp} {right : Bool}

theorem OperandAlike.refl (op : BinaryOp) (right : Bool) (r : Rendering) :
    OperandAlike op right r r :=
  ⟨rfl, rfl, rfl, rfl, rfl, rfl, fun _ => ⟨rfl, rfl⟩, fun _ => ⟨rfl, fun _ => rfl⟩⟩

theorem Alike.operand (h : Alike k r r') (hr : Expr.Resembles r.expr r'.expr)
    (hg : Expr.GroupedAlike op right r.expr r'.expr) : OperandAlike op right r r' where
  value := h.value
  condition := h.condition
  truth := by rw [Expr.literalTruth?_of_not_isClosed hr.isOpen,
    Expr.literalTruth?_of_not_isClosed hr.isOpen']
  isCondition := hr.condition _ _ rfl rfl
  isNull := by rw [Expr.isNullConstant_of_not_isClosed hr.isOpen,
    Expr.isNullConstant_of_not_isClosed hr.isOpen']
  isText := hr.sameClass.isText.symm
  parens hop := by simpa [Expr.GroupedAlike, hop] using hg
  arithmetic hop := by
    rw [Expr.GroupedAlike, if_pos hop] at hg
    exact ⟨hg.1, fun hadd => h.addends (hg.2 hadd)⟩

theorem logical_congr (hl : OperandAlike op false l l') (hr : OperandAlike op true r r')
    (hop : op.isArithmetic = false) : logical op l r = logical op l' r' := by
  funext c
  rw [logical, logical, hl.truth, hr.truth, hl.condition, hr.condition, (hl.parens hop).1,
    (hr.parens hop).1]

theorem negatable_congr (hc : r.condition = r'.condition)
    (hl : r.expr.isLogical = r'.expr.isLogical) : r.negatable = r'.negatable := by
  funext isNegated c
  rw [negatable, negatable, hc, hl]

theorem comparison_congr (hl : OperandAlike op false l l') (hr : OperandAlike op true r r')
    (hop : op.isArithmetic = false) : comparison op l r = comparison op l' r' := by
  funext c
  have left : l.negatable = l'.negatable := negatable_congr hl.condition (hl.parens hop).2
  have right : r.negatable = r'.negatable := negatable_congr hr.condition (hr.parens hop).2
  rw [comparison, comparison, truthComparison?.eq_def, truthComparison?.eq_def, hl.truth, hr.truth,
    hl.isCondition, hr.isCondition, hl.isNull, hr.isNull]
  -- Every test is about the same operands now, and what stands in its branches is the same.
  cases l'.expr.isNullConstant && !r'.expr.isNullConstant <;>
    cases r'.expr.literalTruth? <;> cases l'.expr.literalTruth? <;>
    cases l'.expr.isCondition <;> cases r'.expr.isCondition <;>
    simp only [left, right, hl.value, hr.value, (hl.parens hop).1, (hr.parens hop).1, if_true,
      if_false, Bool.false_eq_true]

theorem isArithmetic_of_isLogical (h : op.isLogical = true) : op.isArithmetic = false := by
  cases op <;> first | rfl | cases h

theorem isArithmetic_of_isComparison (h : op.isComparison = true) : op.isArithmetic = false := by
  cases op <;> first | rfl | cases h

theorem binaryCondition_congr (hl : OperandAlike op false l l') (hr : OperandAlike op true r r') :
    binaryCondition op l r = binaryCondition op l' r' := by
  funext c
  rw [binaryCondition, binaryCondition]
  split
  · rename_i hop
    rw [logical_congr hl hr (isArithmetic_of_isLogical hop)]
  · split
    · rename_i hop
      rw [comparison_congr hl hr (isArithmetic_of_isComparison hop)]
    · rfl

theorem binaryValue_congr (hl : OperandAlike op false l l') (hr : OperandAlike op true r r') :
    binaryValue st op l r = binaryValue st op l' r' := by
  funext c
  have hlText : l.expr.type?.any Ty.isString = l'.expr.type?.any Ty.isString := hl.isText
  have hrText : r.expr.type?.any Ty.isString = r'.expr.type?.any Ty.isString := hr.isText
  rw [binaryValue, binaryValue]
  beta_reduce
  rw [hlText, hrText, binaryCondition_congr hl hr, hl.value, hr.value]
  split
  · rfl
  · rename_i hop
    have hop : op.isArithmetic = true := by simpa using hop
    rw [(hl.arithmetic hop).1, (hr.arithmetic hop).1]
    split
    · rename_i hadd
      have hadd : op = .add := by simpa using (Bool.and_eq_true_iff.mp hadd).1
      rw [(hl.arithmetic hop).2 hadd, (hr.arithmetic hop).2 hadd]
    · rfl

/-- An operator between operands that emit the same. -/
theorem alike_binary (hl : OperandAlike op false l l') (hr : OperandAlike op true r r')
    (he : (Expr.binary op l.expr r.expr).isClosed = false)
    (he' : (Expr.binary op l'.expr r'.expr).isClosed = false)
    (ha : op = .add → l.expr.addends.length + r.expr.addends.length =
      l'.expr.addends.length + r'.expr.addends.length →
        l.addends = l'.addends ∧ r.addends = r'.addends) :
    Alike true (binary st op l r) (binary st op l' r') := by
  rw [binary, binary, binaryValue_congr hl hr, binaryCondition_congr hl hr]
  refine alike_scalar he he' rfl fun hlength => ?_
  split
  · rename_i hadd
    subst hadd
    rw [Expr.addends, Expr.addends, List.length_append, List.length_append] at hlength
    obtain ⟨hleft, hright⟩ := ha rfl hlength
    rw [hleft, hright]
  · rfl

theorem alike_unary {op : UnaryOp} {type : Option Ty} (h : Alike k r r')
    (hr : Expr.Resembles r.expr r'.expr) (hnot : op = .not → r.expr.isLogical = r'.expr.isLogical)
    (hminus : op = .negate → r.expr.isBinary = r'.expr.isBinary) :
    Alike true (unary st op r type) (unary st op r' type) := by
  have he : (Expr.unary op r.expr type).isClosed = false := by
    rw [Expr.isClosed_unary, hr.isOpen]
  have he' : (Expr.unary op r'.expr type).isClosed = false := by
    rw [Expr.isClosed_unary, hr.isOpen']
  have negated : op = .not → r.negatable = r'.negatable := fun hop =>
    negatable_congr h.condition (hnot hop)
  rw [unary, unary]
  cases op with
  | not =>
    rw [negated rfl]
    exact alike_scalar he he' rfl fun _ => rfl
  | negate =>
    rw [h.value, hminus rfl]
    exact alike_scalar he he' rfl fun _ => rfl
  | convert =>
    rw [h.value, h.condition]
    exact alike_scalar he he' rfl fun _ => rfl
  | _ => exact alike_scalar he he' rfl fun _ => rfl

/-- A conditional whose test depends on a row has no test to decide at once. -/
theorem closedTruth?_of_not_isClosed (he : e.isClosed = false) (pre : Prelude) :
    e.closedTruth? pre = .ok none := by
  rw [Expr.closedTruth?, he]
  rfl

theorem alike_cond {c c' a a' b b' : Rendering} (hc : c.condition = c'.condition)
    (ha : a.value = a'.value ∧ a.condition = a'.condition)
    (hb : b.value = b'.value ∧ b.condition = b'.condition)
    (ht : c.expr.closedTruth? st.pre = c'.expr.closedTruth? st.pre)
    (he : (Expr.cond c.expr a.expr b.expr).isClosed = false)
    (he' : (Expr.cond c'.expr a'.expr b'.expr).isClosed = false) :
    Alike true (cond st c a b) (cond st c' a' b') := by
  rw [cond, cond, ht, hc, ha.1, ha.2, hb.1, hb.2]
  exact alike_scalar he he' rfl fun _ => rfl

end Rendering

/-! ### Single values that are wrapped -/

namespace Expr

variable {st : Settings} {e x : Expr} {k : Bool}

/-- A rendering selects its value, and it counts its value unless it is a test. -/
def EmitsValue (st : Settings) (isTest : Bool) (r : Rendering) : Prop :=
  r.projection = selectItem st (r.value .select) [] ∧
    ∀ c, (c = .count → isTest = false) → r.argument c = r.value c

theorem emitsValue_scalar {value condition : Clause → Emit Text} {isTest : Bool}
    {addends : Option (List (Clause → Emit Text))} :
    EmitsValue st isTest (.scalar st e value condition isTest addends) := by
  refine ⟨rfl, fun c hc => ?_⟩
  have hvalue : (decide (c = .count) && isTest) = false := by
    by_cases hcount : c = .count
    · simp [hc hcount]
    · simp [hcount]
  show (if decide (c = .count) && isTest then _ else _) = _
  rw [hvalue]
  rfl

/-- Without any depth left nothing is emitted. -/
theorem emitsValue_of_succ (h : ∀ depth, EmitsValue st k (e.renderTo st (depth + 1)))
    (depth : Nat) : EmitsValue st k (e.renderTo st depth) := by
  cases depth with
  | zero => exact ⟨rfl, fun _ _ => rfl⟩
  | succ depth => exact h depth

/-- A single value is selected and counted by its value. -/
theorem Scalar.emitsValue (h : Scalar k e) : ∀ depth, EmitsValue st k (e.renderTo st depth) := by
  induction h with
  | member =>
    refine emitsValue_of_succ fun depth => ?_
    rw [renderTo, renderWith, Rendering.member]
    exact emitsValue_scalar
  | binary =>
    refine emitsValue_of_succ fun depth => ?_
    rw [renderTo, renderWith, Rendering.binary]
    exact emitsValue_scalar
  | @unary op e type hop =>
    have hquote : (Expr.unary op e type).isQuote = false := by
      cases op with
      | quote => exact absurd rfl hop
      | _ => rfl
    refine emitsValue_of_succ fun depth => ?_
    rw [renderTo, renderWith_unary hquote, Rendering.unary]
    exact emitsValue_scalar
  | call =>
    refine emitsValue_of_succ fun depth => ?_
    rw [renderTo, renderWith, Rendering.call, renderWith_expr, renderAll_expr]
    exact emitsValue_scalar
  | cond =>
    refine emitsValue_of_succ fun depth => ?_
    rw [renderTo, renderWith, Rendering.cond]
    exact emitsValue_scalar
  | quote _ ih =>
    refine emitsValue_of_succ fun depth => ?_
    rw [renderTo, renderWith]
    exact ih (depth + 1)
  | lambda _ ih =>
    refine emitsValue_of_succ fun depth => ?_
    rw [renderTo, renderWith]
    exact ih (depth + 1)
  | invoke hbody _ ih =>
    refine emitsValue_of_succ fun depth => ?_
    rw [renderTo, renderWith, hbody]
    exact ih depth

/-- What is no addition is written as one operand of a concatenation. -/
theorem addends_renderTo (h : e.isAddition = false) (depth : Nat) :
    (e.renderTo st depth).addends = [(e.renderTo st depth).value] := by
  cases depth with
  | zero => rfl
  | succ depth =>
    rw [renderTo]
    cases e with
    | binary op l r =>
      have hop : op ≠ .add := by
        rintro rfl
        cases h
      rw [renderWith, Rendering.binary, if_neg hop]
      rfl
    | unary op e type =>
      cases op <;> rfl
    | _ => rfl

end Expr

/-! ### Calls and shapes -/

namespace Rendering

variable {st : Settings} {k : Bool} {r r' : Rendering} {args : List Rendering} {c : Clause}
  {i : Intrinsic}

theorem isHole_of_resembles (h : Expr.Resembles r.expr r'.expr) :
    r.expr.isHole = false ∧ r'.expr.isHole = false :=
  ⟨Expr.isHole_of_not_isClosed h.isOpen, Expr.isHole_of_not_isClosed h.isOpen'⟩

/-- Membership in a list with the same members. -/
theorem membership_congr {x : Rendering} {isNegated : Bool} (h : r.members = r'.members)
    (hr : Expr.Resembles r.expr r'.expr) :
    membership x r isNegated c = membership x r' isNegated c := by
  rw [membership, membership, Expr.isEmptyList_of_not_isClosed hr.isOpen,
    Expr.isEmptyList_of_not_isClosed hr.isOpen', (isHole_of_resembles hr).1,
    (isHole_of_resembles hr).2, h]

/-- Equality of an operand that emits the same. -/
theorem equals_congr {l l' : Rendering} (hl : OperandAlike .equal false l l')
    (hr : OperandAlike .equal true r r')
    (he : (Expr.binary .equal l.expr r.expr).isClosed = false)
    (he' : (Expr.binary .equal l'.expr r'.expr).isClosed = false) :
    (binary st .equal l r).condition = (binary st .equal l' r').condition :=
  (alike_binary hl hr he he' nofun).condition

/-- A method with a target that emits the same. -/
theorem intrinsic_target_congr (h : Alike k r r') (hr : Expr.Resembles r.expr r'.expr)
    (hadmits : i.Admits true k r.expr r'.expr)
    (hv : r.expr.Scalar false → Expr.EmitsValue st false r)
    (hv' : r'.expr.Scalar false → Expr.EmitsValue st false r') :
    intrinsic st r args c i = intrinsic st r' args c i := by
  cases i with
  | like isNegated pattern =>
    cases args with
    | nil => rfl
    | cons a args => rw [intrinsic, intrinsic, likeTest, likeTest, h.value]
  | membership isNegated =>
    cases args with
    | nil => rfl
    | cons a args => rw [intrinsic, intrinsic, membership, membership, h.value]
  | contains =>
    cases args with
    | nil => rfl
    | cons a args =>
      obtain ⟨htype, hkept⟩ := hadmits rfl
      rw [intrinsic, intrinsic, ← htype]
      split
      · rename_i hlist
        exact membership_congr (h.members (hkept hlist)) hr
      · rw [likeTest, likeTest, h.value]
  | equals =>
    cases args with
    | nil => rfl
    | cons a args =>
      rw [intrinsic, intrinsic]
      refine congrFun (equals_congr (h.operand hr hadmits) (.refl _ _ a) ?_ ?_) c
      · rw [Expr.isClosed_binary, hr.isOpen]
        rfl
      · rw [Expr.isClosed_binary, hr.isOpen']
        rfl
  | isNullOrEmpty => rw [intrinsic, intrinsic, h.value]
  | function name => rw [intrinsic, intrinsic, h.value]
  | trim => rw [intrinsic, intrinsic, h.value]
  | aggregate clause =>
    rw [intrinsic, intrinsic, aggregate, aggregate, (isHole_of_resembles hr).1,
      (isHole_of_resembles hr).2]
    by_cases hcount : clause = .count
    · subst hcount
      rcases hadmits rfl with hkept | ⟨hs, hs'⟩
      · rw [h.counted hkept]
      · rw [(hv hs).2 _ fun _ => rfl, (hv' hs').2 _ fun _ => rfl, h.value]
    · rw [h.argument clause hcount]

/-- A method with a first argument that emits the same. -/
theorem intrinsic_argument_congr {target : Rendering} (h : Alike k r r')
    (hr : Expr.Resembles r.expr r'.expr) (hadmits : i.Admits false k r.expr r'.expr) :
    intrinsic st target (r :: args) c i = intrinsic st target (r' :: args) c i := by
  cases i with
  | like isNegated pattern => rw [intrinsic, intrinsic, likeTest, likeTest, h.value]
  | membership isNegated =>
    rw [intrinsic, intrinsic]
    exact membership_congr (h.members (hadmits.resolve_left Bool.false_ne_true)) hr
  | contains => rw [intrinsic, intrinsic, membership, membership, likeTest, likeTest, h.value]
  | equals =>
    rw [intrinsic, intrinsic]
    refine congrFun (equals_congr (.refl _ _ target) (h.operand hr hadmits) ?_ ?_) c
    · rw [Expr.isClosed_binary, hr.isOpen, Bool.and_false]
    · rw [Expr.isClosed_binary, hr.isOpen', Bool.and_false]
  | _ => rfl

/-- A method looks at its first argument only. -/
theorem intrinsic_rest_congr {target a : Rendering} {args' : List Rendering} :
    intrinsic st target (a :: args) c i = intrinsic st target (a :: args') c i := by
  cases i <;> rfl

/-- Calls of a method with a rule emit the same if its rule does. -/
theorem emitCall_congr {args' : List Rendering} {method : Text} {type : Option Ty}
    {callee : Option Text} {asCondition : Bool} {constant : Value → Emit Text}
    (hi : Intrinsic.ofName? method = some i) (hstatic : i.isAggregate = true →
      r.expr.isHole = true) (hhole : r.expr.isHole = r'.expr.isHole)
    (htarget : (operands r args).1.expr.isHole = (operands r' args').1.expr.isHole)
    (hrest : (operands r args).2.length = (operands r' args').2.length)
    (hrule : intrinsic st (operands r args).1 (operands r args).2 c i =
      intrinsic st (operands r' args').1 (operands r' args').2 c i) :
    emitCall st r method args type callee c asCondition constant =
      emitCall st r' method args' type callee c asCondition constant := by
  have hsome : rule? r method = some i := by
    cases hagg : i.isAggregate with
    | false => simp [rule?, hi, hagg]
    | true => simp [rule?, hi, hagg, hstatic hagg]
  have hsome' : rule? r' method = some i := by
    rw [← hsome, rule?, rule?, hhole]
  simp only [emitCall, hsome, hsome', htarget, hrest, hrule]

/-- A call whose receiver emits the same. -/
theorem alike_receiver {method : Text} {type : Option Ty} {callee : Option Text}
    (h : Alike k r r') (hr : Expr.Resembles r.expr r'.expr)
    (hi : Intrinsic.ofName? method = some i) (hstatic : i.isAggregate = false)
    (hadmits : i.Admits true k r.expr r'.expr)
    (hv : r.expr.Scalar false → Expr.EmitsValue st false r)
    (hv' : r'.expr.Scalar false → Expr.EmitsValue st false r')
    (he : (Expr.call r.expr method (args.map (·.expr)) type callee).isClosed = false)
    (he' : (Expr.call r'.expr method (args.map (·.expr)) type callee).isClosed = false) :
    Alike true (call st r method args type callee) (call st r' method args type callee) := by
  obtain ⟨hhole, hhole'⟩ := isHole_of_resembles hr
  have hoperands : operands r args = (r, args) := by simp [operands, hhole]
  have hoperands' : operands r' args = (r', args) := by simp [operands, hhole']
  have emit : ∀ c asCondition constant,
      emitCall st r method args type callee c asCondition constant =
        emitCall st r' method args type callee c asCondition constant := by
    intro c asCondition constant
    refine emitCall_congr hi (by simp [hstatic]) (hhole.trans hhole'.symm) ?_ ?_ ?_
    · rw [hoperands, hoperands', hhole, hhole']
    · rw [hoperands, hoperands']
    · rw [hoperands, hoperands']
      exact intrinsic_target_congr h hr hadmits hv hv'
  rw [call, call, funext fun c => emit c false _, funext fun c => emit c true _]
  exact alike_scalar he he' rfl fun _ => rfl

/-- The target and the other arguments of a call with an argument that emits the same. -/
theorem intrinsic_operands_congr {x : Rendering} {before behind : List Rendering}
    (h : Alike k r r') (hr : Expr.Resembles r.expr r'.expr)
    (hadmits : i.Admits (x.expr.isHole && before.isEmpty) k r.expr r'.expr)
    (hv : r.expr.Scalar false → Expr.EmitsValue st false r)
    (hv' : r'.expr.Scalar false → Expr.EmitsValue st false r') :
    (operands x (before ++ r :: behind)).1.expr.isHole =
        (operands x (before ++ r' :: behind)).1.expr.isHole ∧
      (operands x (before ++ r :: behind)).2.length =
        (operands x (before ++ r' :: behind)).2.length ∧
      intrinsic st (operands x (before ++ r :: behind)).1 (operands x (before ++ r :: behind)).2 c i
        = intrinsic st (operands x (before ++ r' :: behind)).1
            (operands x (before ++ r' :: behind)).2 c i := by
  cases hhole : x.expr.isHole with
  | false =>
    rw [hhole, Bool.false_and] at hadmits
    have hoperands : ∀ args, operands x args = (x, args) := fun args => by simp [operands, hhole]
    rw [hoperands, hoperands]
    refine ⟨rfl, by simp, ?_⟩
    cases before with
    | nil => exact intrinsic_argument_congr h hr hadmits
    | cons b before => exact intrinsic_rest_congr
  | true =>
    rw [hhole, Bool.true_and] at hadmits
    have hoperands : ∀ a args, operands x (a :: args) = (a, args) :=
      fun a args => by simp [operands, hhole]
    cases before with
    | nil =>
      rw [List.nil_append, List.nil_append, hoperands, hoperands]
      refine ⟨?_, rfl, intrinsic_target_congr h hr hadmits hv hv'⟩
      rw [(isHole_of_resembles hr).1, (isHole_of_resembles hr).2]
    | cons b before =>
      rw [List.cons_append, List.cons_append, hoperands, hoperands]
      refine ⟨rfl, by simp, ?_⟩
      cases before with
      | nil => exact intrinsic_argument_congr h hr hadmits
      | cons => exact intrinsic_rest_congr

/-- A call with an argument that emits the same. -/
theorem alike_argument {x : Rendering} {before behind : List Rendering} {method : Text}
    {type : Option Ty} {callee : Option Text} (h : Alike k r r')
    (hr : Expr.Resembles r.expr r'.expr) (hi : Intrinsic.ofName? method = some i)
    (hstatic : i.isAggregate = true → x.expr.isHole = true)
    (hadmits : i.Admits (x.expr.isHole && before.isEmpty) k r.expr r'.expr)
    (hv : r.expr.Scalar false → Expr.EmitsValue st false r)
    (hv' : r'.expr.Scalar false → Expr.EmitsValue st false r')
    (he : (Expr.call x.expr method ((before ++ r :: behind).map (·.expr)) type callee).isClosed =
      false)
    (he' : (Expr.call x.expr method ((before ++ r' :: behind).map (·.expr)) type callee).isClosed =
      false) :
    Alike true (call st x method (before ++ r :: behind) type callee)
      (call st x method (before ++ r' :: behind) type callee) := by
  have emit : ∀ c asCondition constant,
      emitCall st x method (before ++ r :: behind) type callee c asCondition constant =
        emitCall st x method (before ++ r' :: behind) type callee c asCondition constant := by
    intro c asCondition constant
    obtain ⟨htarget, hrest, hrule⟩ := intrinsic_operands_congr h hr hadmits hv hv'
    exact emitCall_congr hi hstatic rfl htarget hrest hrule
  rw [call, call, funext fun c => emit c false _, funext fun c => emit c true _]
  exact alike_scalar he he' rfl fun _ => rfl

/-! #### Shapes and lists -/

variable {e e' : Expr}

theorem memberItem_congr (h : r.value = r'.value) (hr : Expr.Resembles r.expr r'.expr)
    (name : Text) :
    (match r.expr.unquote with
      | .param p => allColumns st p
      | _ => Emit.selectItem st (r.value .select) name) =
    match r'.expr.unquote with
      | .param p => allColumns st p
      | _ => Emit.selectItem st (r'.value .select) name := by
  rw [h]
  by_cases hrow : ∃ p, r.expr.unquote = .param p
  · obtain ⟨p, hp⟩ := hrow
    rw [hp, (hr.param p).mp hp]
  · have hrow' : ∀ p, r'.expr.unquote ≠ .param p := fun p hp => hrow ⟨p, (hr.param p).mpr hp⟩
    split
    · rename_i p hp
      exact absurd ⟨p, hp⟩ hrow
    · rfl

/-- A binding that depends on a row is written as it is emitted. -/
theorem ofBindings_congr {writable : Column → Bool} {type : Option Ty} {m : Emit Text} {name : Text}
    {before behind : List (Text × Expr × Emit Text)} (he : e.isClosed = false)
    (he' : e'.isClosed = false) :
    Row.ofBindings st writable type (before ++ (name, e, m) :: behind) =
      Row.ofBindings st writable type (before ++ (name, e', m) :: behind) := by
  simp only [Row.ofBindings, List.mapM_append, List.mapM_cons, he, he', Bool.not_false, if_true]

theorem memberItems_congr {name : Text} {before behind : List (Text × Rendering)}
    (h : r.value = r'.value) (hr : Expr.Resembles r.expr r'.expr) :
    memberItems st (before ++ (name, r) :: behind) =
      memberItems st (before ++ (name, r') :: behind) := by
  simp only [memberItems, List.map_append, List.map_cons]
  exact congrArg (fun item => concat (_ ++ item :: _)) (memberItem_congr h hr name)

/-- A shape with a member that emits the same. -/
theorem alike_shape {type : Option Ty} {name : Text} {before behind : List (Text × Rendering)}
    (h : r.value = r'.value) (hr : Expr.Resembles r.expr r'.expr) (hk : e.kind? = e'.kind?) :
    Alike true (shape st e type (before ++ (name, r) :: behind))
      (shape st e' type (before ++ (name, r') :: behind)) where
  value := unsupported_congr hk
  condition := unsupported_congr hk
  projection := memberItems_congr h hr
  argument _ _ := congrFun (unsupported_congr hk) _
  counted _ := congrFun (unsupported_congr hk) _
  members _ := congrFun (unsupported_congr hk) _
  rows _ := by
    funext writable
    show shapeRow .. = shapeRow ..
    simp only [shapeRow, List.map_append, List.map_cons, h]
    rw [ofBindings_congr hr.isOpen hr.isOpen']
  addends _ := congrArg ([·]) (unsupported_congr hk)

/-- The members of a list are emitted from left to right. -/
theorem memberList_congr {rs rs' : List Rendering}
    (h : rs.map (·.value .in_) = rs'.map (·.value .in_)) : memberList rs = memberList rs' := by
  have item : ∀ (t : Text) (rs : List Rendering),
      (rs.map fun e => (do Emit.setPending t; e.value .in_ : Emit Text)) =
        (rs.map (·.value .in_)).map fun m => (do Emit.setPending t; m : Emit Text) := by
    intro t rs
    rw [List.map_map]
    rfl
  cases rs with
  | nil =>
    cases rs' with
    | nil => rfl
    | cons => cases h
  | cons r rs =>
    cases rs' with
    | nil => cases h
    | cons r' rs' =>
      obtain ⟨hfirst, hrest⟩ := List.cons.inj h
      simp only [memberList, item, hfirst, hrest]

/-- A list with an item that emits the same. -/
theorem alike_items {before behind : List Rendering} (h : Alike k r r') (hk : e.kind? = e'.kind?) :
    Alike true (items st e (before ++ r :: behind)) (items st e' (before ++ r' :: behind)) where
  value := unsupported_congr hk
  condition := unsupported_congr hk
  projection := by
    show Emit.concat _ = Emit.concat _
    rw [List.map_append, List.map_append, List.map_cons, List.map_cons, h.projection]
  argument _ _ := congrFun (unsupported_congr hk) _
  counted _ := congrFun (unsupported_congr hk) _
  members _ := memberList_congr (by
    rw [List.map_append, List.map_append, List.map_cons, List.map_cons, h.value])
  rows _ := by
    funext writable
    exact congrFun (congrFun (noRows_congr hk) .update) writable
  addends _ := congrArg ([·]) (unsupported_congr hk)

/-! #### What hides nothing -/

/-- A quote around what emits the same. -/
theorem alike_quoted {type : Option Ty} (h : Alike k r r') :
    Alike k (quoted st r type) (quoted st r' type) :=
  ⟨h.value, h.condition, h.projection, h.argument, h.counted, h.members, h.rows,
    fun _ => congrArg ([·]) h.value⟩

/-- A lambda whose body emits the same. -/
theorem alike_lambda {ps : List Param} (h : Alike k r r') :
    Alike k (lambda st r ps) (lambda st r' ps) :=
  ⟨h.value, h.condition, h.projection, h.argument, h.counted, h.members, h.rows,
    fun _ => congrArg ([·]) h.value⟩

/-- An invocation whose inlined body emits the same. -/
theorem alike_invocation (h : Alike k r r') :
    Alike k (invocation st e fun _ => .ok r) (invocation st e' fun _ => .ok r') :=
  ⟨h.value, h.condition, h.projection, h.argument, h.counted, h.members, h.rows,
    fun _ => congrArg ([·]) h.value⟩

/-- A conversion of a single value emits the value. -/
theorem alike_convert {type : Option Ty} {isTest : Bool} (hr : r.expr.isClosed = false)
    (hv : Expr.EmitsValue st isTest r)
    (ha : r.expr.isAddition = false → r.addends = [r.value]) :
    Alike false r (unary st .convert r type) := by
  have he : (Expr.unary .convert r.expr type).isClosed = false := by rw [Expr.isClosed_unary, hr]
  refine ⟨(scalar_value he).symm, (scalar_condition he).symm, ?_, fun c hc => ?_, nofun, nofun,
    nofun, fun hlength => ?_⟩
  · rw [hv.1]
    exact (scalar_projection he).symm
  · rw [hv.2 c fun h => absurd h hc]
    exact (scalar_argument he c).symm ▸ by simp
  · rw [ha (Expr.isAddition_of_length_addends hlength), unary, scalar_addends he]
    rfl

/-- A quote emits what is quoted. -/
theorem alike_quote {type : Option Ty} (ha : r.expr.isAddition = false → r.addends = [r.value]) :
    Alike true r (quoted st r type) :=
  ⟨rfl, rfl, rfl, fun _ _ => rfl, fun _ => rfl, fun _ => rfl, fun _ => rfl,
    fun hlength => ha (Expr.isAddition_of_length_addends hlength)⟩

end Rendering

/-! ### Trees -/

namespace Expr

variable {e e' x : Expr} {k : Bool} {st : Settings}

theorem renderTo_succ_expr (st : Settings) (e : Expr) (depth : Nat) :
    (e.renderTo st (depth + 1)).expr = e :=
  renderWith_expr st _ e

theorem renderAll_append (st : Settings) (inlined : Expr → Rendering) (before behind : List Expr) :
    renderAll st inlined (before ++ x :: behind) = renderAll st inlined before ++
      renderWith st inlined x :: renderAll st inlined behind := by
  rw [renderAll_eq_map, renderAll_eq_map, renderAll_eq_map, List.map_append, List.map_cons]

theorem renderBindings_append (st : Settings) (inlined : Expr → Rendering) {name : Text}
    (before behind : List (Text × Expr)) :
    renderBindings st inlined (before ++ (name, x) :: behind) =
      renderBindings st inlined before ++
        (name, renderWith st inlined x) :: renderBindings st inlined behind := by
  rw [renderBindings_eq_map, renderBindings_eq_map, renderBindings_eq_map, List.map_append,
    List.map_cons]

/-- The renderings of parts that look the same. -/
theorem Resembles.rendered (h : Resembles e e') (depth : Nat) :
    Resembles (e.renderTo st (depth + 1)).expr (e'.renderTo st (depth + 1)).expr := by
  rwa [renderTo_succ_expr, renderTo_succ_expr]

/-- A part that is wrapped stands as an operand where the operator groups it alike. -/
theorem Wraps.operandAlike {op : BinaryOp} {right : Bool} {depth : Nat} (h : Wraps k e e')
    (ih : Rendering.Alike k (e.renderTo st (depth + 1)) (e'.renderTo st (depth + 1)))
    (hg : GroupedAlike op right e e') :
    Rendering.OperandAlike op right (e.renderTo st (depth + 1)) (e'.renderTo st (depth + 1)) :=
  ih.operand (h.resembles.rendered depth) (by rwa [renderTo_succ_expr, renderTo_succ_expr])

/-- What is counted alike: single values that are no tests. -/
theorem emitsValue_rendered (depth : Nat)
    (h : Scalar false (e.renderTo st (depth + 1)).expr) :
    EmitsValue st false (e.renderTo st (depth + 1)) := by
  rw [renderTo_succ_expr] at h
  exact h.emitsValue (depth + 1)

/-- **A part may be wrapped where no rule asks for its form**: everything around it is rendered
alike. -/
theorem Wraps.alike (h : Wraps k e e') (depth : Nat) :
    Rendering.Alike k (e.renderTo st depth) (e'.renderTo st depth) := by
  -- Without any depth left nothing is rendered.
  cases depth with
  | zero => exact .refl _ _
  | succ depth =>
  -- By induction on where the part is: the rule of every construct is applied to what is known of
  -- the renderings of its parts. Only an invocation spends depth.
  induction h generalizing depth with
  | @convert _ x type hx hs _ =>
    show Rendering.Alike false _ (renderWith st _ (.unary .convert x type))
    rw [renderWith_unary rfl]
    exact Rendering.alike_convert (by rwa [renderTo_succ_expr]) (hs.emitsValue (depth + 1))
      fun h => addends_renderTo (by rwa [renderTo_succ_expr] at h) (depth + 1)
  | @quote x type _ _ =>
    exact Rendering.alike_quote fun h =>
      addends_renderTo (by rwa [renderTo_succ_expr] at h) (depth + 1)
  | @left k op l l' r h hg ih =>
    obtain ⟨hopen, hopen', -, -, -⟩ := (Wraps.left (r := r) h hg).resembles
    refine Rendering.alike_binary (h.operandAlike (ih depth) hg) (.refl _ _ _) ?_ ?_ ?_
    · rwa [← renderTo, ← renderTo, renderTo_succ_expr, renderTo_succ_expr]
    · rwa [← renderTo, ← renderTo, renderTo_succ_expr, renderTo_succ_expr]
    · exact fun _ hlength => ⟨(ih depth).addends (Nat.add_right_cancel hlength), rfl⟩
  | @right k op l r r' h hg ih =>
    obtain ⟨hopen, hopen', -, -, -⟩ := (Wraps.right (l := l) h hg).resembles
    refine Rendering.alike_binary (.refl _ _ _) (h.operandAlike (ih depth) hg) ?_ ?_ ?_
    · rwa [← renderTo, ← renderTo, renderTo_succ_expr, renderTo_succ_expr]
    · rwa [← renderTo, ← renderTo, renderTo_succ_expr, renderTo_succ_expr]
    · exact fun _ hlength => ⟨rfl, (ih depth).addends (Nat.add_left_cancel hlength)⟩
  | @operand k op e e' type hop h hnot hminus ih =>
    have hquote : ∀ e, (unary op e type).isQuote = false := by
      cases op with
      | quote => exact absurd rfl hop
      | _ => exact fun _ => rfl
    show Rendering.Alike true (renderWith st _ _) (renderWith st _ _)
    rw [renderWith_unary (hquote e), renderWith_unary (hquote e')]
    refine Rendering.alike_unary (ih depth) (h.resembles.rendered depth) ?_ ?_
    · rwa [← renderTo, ← renderTo, renderTo_succ_expr, renderTo_succ_expr]
    · rwa [← renderTo, ← renderTo, renderTo_succ_expr, renderTo_succ_expr]
  | quoted _ _ ih => exact Rendering.alike_quoted (ih depth)
  | @test k c c' a b h ih =>
    obtain ⟨hopen, hopen', -, -, -⟩ := (Wraps.test (a := a) (b := b) h).resembles
    have hc : Resembles (c.renderTo st (depth + 1)).expr (c'.renderTo st (depth + 1)).expr :=
      h.resembles.rendered depth
    refine Rendering.alike_cond (ih depth).condition ⟨rfl, rfl⟩ ⟨rfl, rfl⟩ ?_ ?_ ?_
    · exact (Rendering.closedTruth?_of_not_isClosed hc.isOpen _).trans
        (Rendering.closedTruth?_of_not_isClosed hc.isOpen' _).symm
    · simpa only [renderWith_expr] using hopen
    · simpa only [renderWith_expr] using hopen'
  | @ifTrue k c a a' b h ih =>
    obtain ⟨hopen, hopen', -, -, -⟩ := (Wraps.ifTrue (c := c) (b := b) h).resembles
    refine Rendering.alike_cond rfl ⟨(ih depth).value, (ih depth).condition⟩ ⟨rfl, rfl⟩ rfl ?_ ?_
    · simpa only [renderWith_expr] using hopen
    · simpa only [renderWith_expr] using hopen'
  | @ifFalse k c a b b' h ih =>
    obtain ⟨hopen, hopen', -, -, -⟩ := (Wraps.ifFalse (c := c) (a := a) h).resembles
    refine Rendering.alike_cond rfl ⟨rfl, rfl⟩ ⟨(ih depth).value, (ih depth).condition⟩ rfl ?_ ?_
    · simpa only [renderWith_expr] using hopen
    · simpa only [renderWith_expr] using hopen'
  | @receiver k e e' method args type callee i h hi hstatic hadmits ih =>
    obtain ⟨hopen, hopen', -, -, -⟩ : Resembles (.call e method args type callee)
        (.call e' method args type callee) :=
      (Wraps.receiver h hi hstatic hadmits).resembles
    refine Rendering.alike_receiver (ih depth) (h.resembles.rendered depth) hi hstatic ?_
      (emitsValue_rendered depth) (emitsValue_rendered depth) ?_ ?_
    · simpa only [renderWith_expr] using hadmits
    · simpa only [renderWith_expr, renderAll_expr] using hopen
    · simpa only [renderWith_expr, renderAll_expr] using hopen'
  | @argument k e a a' method before behind type callee i h hi hstatic hadmits ih =>
    obtain ⟨hopen, hopen', -, -, -⟩ : Resembles (.call e method (before ++ a :: behind) type callee)
        (.call e method (before ++ a' :: behind) type callee) :=
      (Wraps.argument h hi hstatic hadmits).resembles
    show Rendering.Alike true (Rendering.call st _ method (renderAll st _ _) type callee)
      (Rendering.call st _ method (renderAll st _ _) type callee)
    rw [renderAll_append, renderAll_append]
    refine Rendering.alike_argument (ih depth) (h.resembles.rendered depth) hi ?_ ?_
      (emitsValue_rendered depth) (emitsValue_rendered depth) ?_ ?_
    · simpa only [renderWith_expr] using hstatic
    · simpa only [renderWith_expr, renderAll_eq_map, List.isEmpty_map] using hadmits
    · simpa only [renderWith_expr, ← renderAll_append, renderAll_expr] using hopen
    · simpa only [renderWith_expr, ← renderAll_append, renderAll_expr] using hopen'
  | @new k a a' name before behind type h ih =>
    show Rendering.Alike true (Rendering.shape st _ type (renderBindings st _ _))
      (Rendering.shape st _ type (renderBindings st _ _))
    rw [renderBindings_append, renderBindings_append]
    exact Rendering.alike_shape (ih depth).value (h.resembles.rendered depth) rfl
  | @init k a a' name before behind type h ih =>
    show Rendering.Alike true (Rendering.shape st _ type (renderBindings st _ _))
      (Rendering.shape st _ type (renderBindings st _ _))
    rw [renderBindings_append, renderBindings_append]
    exact Rendering.alike_shape (ih depth).value (h.resembles.rendered depth) rfl
  | @list k a a' before behind type h ih =>
    show Rendering.Alike true (Rendering.items st _ (renderAll st _ _))
      (Rendering.items st _ (renderAll st _ _))
    rw [renderAll_append, renderAll_append]
    exact Rendering.alike_items (ih depth) rfl
  | @array k a a' before behind type h ih =>
    show Rendering.Alike true (Rendering.items st _ (renderAll st _ _))
      (Rendering.items st _ (renderAll st _ _))
    rw [renderAll_append, renderAll_append]
    exact Rendering.alike_items (ih depth) rfl
  | lambda _ ih => exact Rendering.alike_lambda (ih depth)
  | @invoke k target target' body body' args args' _ _ _ hbody hbody' h ih =>
    have hinlined : Rendering.Alike k (body.renderTo st depth) (body'.renderTo st depth) := by
      cases depth with
      | zero => exact .refl _ _
      | succ depth => exact ih depth
    show Rendering.Alike k
      (Rendering.invocation st _ fun _ => (inline target args).map (renderTo st depth))
      (Rendering.invocation st _ fun _ => (inline target' args').map (renderTo st depth))
    rw [hbody, hbody']
    exact Rendering.alike_invocation hinlined

end Expr

/-! ### Statements -/

/-- **A conversion or a quote is transparent where no rule asks for the form it hides**: then an
expression compiles to the same text and parameters with it and without it, or stops alike. -/
theorem Expr.Wraps.compile_wrapped {k : Bool} {e e' : Expr} (h : e.Wraps k e') (d : Draft)
    {c : Clause} (hc : c.isCondition = true ∨ c = .select ∨ c = .update ∧ k = true)
    (directions : List Direction) : d.compile e c directions = d.compile e' c directions := by
  have halike : Rendering.Alike k (e.render d.settings) (e'.render d.settings) :=
    h.alike inlineDepth
  have hemitted : Draft.emitted d.settings e c directions =
      Draft.emitted d.settings e' c directions := by
    rcases hc with hc | rfl | ⟨rfl, rfl⟩
    · cases c with
      | where_ | join | having => exact congrFun halike.condition _
      | _ => cases hc
    · exact halike.projection
    · show (do Emit.assignments _ (← Emit.ofAttempt ((e.render _).rows .update _))) = _
      rw [halike.rows rfl]
      rfl
  rw [Draft.compile, Draft.compile, hemitted, isHole_of_not_isClosed h.resembles.isOpen,
    isHole_of_not_isClosed h.resembles.isOpen']

namespace Sample

/-- The age of a customer. -/
def age : Expr := .field customerRow "Age"

/-- An integer that is written as a value. -/
def integer (n : Int) : Expr := .value (.int .int n)

/-- A conversion that keeps a number a number. -/
def asInteger (e : Expr) : Expr := .unary .convert e (some (.int .int))

/-- The condition that a customer is active and that twice the age exceeds a bound, where `wrap`
may wrap what is compared. -/
def activeBeyond (wrap : Expr → Expr) : Expr :=
  .binary .andAlso (.binary .greaterThan (wrap (.binary .multiply age (integer 2))) (integer 35))
    isActive

/-- The product of an age with the next age, where `wrap` may wrap the next age. -/
def ageTimesNext (wrap : Expr → Expr) : Expr :=
  .binary .multiply age (wrap (.binary .add age (integer 1)))

end Sample

open Sample in
/-- A comparison does not ask what it compares for its form. -/
theorem Expr.Wraps.compile_wrapped_activeBeyond :
    Wraps true (activeBeyond id) (activeBeyond asInteger) ∧
      (Clause.where_.isCondition = true ∨ Clause.where_ = .select ∨
        Clause.where_ = .update ∧ true = true) ∧
      (Draft.new (.standard .oracle world)).compile (activeBeyond id) .where_ [] =
        (Draft.new (.standard .oracle world)).compile (activeBeyond asInteger) .where_ [] := by
  have product : Wraps false (.binary .multiply age (integer 2))
      (asInteger (.binary .multiply age (integer 2))) :=
    .convert (by decide) .binary ⟨by decide, by decide⟩
  have h : Wraps true (activeBeyond id) (activeBeyond asInteger) :=
    .left (.left product ⟨by decide, by decide⟩) ⟨by decide, by decide⟩
  exact ⟨h, .inl rfl, h.compile_wrapped _ (.inl rfl) _⟩

open Sample in
/-- **A sum that is wrapped loses its parentheses**: as a factor it is torn apart. -/
theorem exists_wrapped_sum_torn :
    (Expr.binary .add age (integer 1)).isClosed = false ∧
      Expr.SameClass (.binary .add age (integer 1)) (asInteger (.binary .add age (integer 1))) ∧
      ∃ d d', (Draft.new (.standard .sqlServer world)).compile (ageTimesNext id) .select [] =
          (d, .ok ()) ∧
        (Draft.new (.standard .sqlServer world)).compile (ageTimesNext asInteger) .select [] =
          (d', .ok ()) ∧
        readTerm? d.text =
          some (.node .multiply (.leaf "c.age") (.node .add (.leaf "c.age") (.leaf "@p1"))) ∧
        readTerm? d'.text =
          some (.node .add (.node .multiply (.leaf "c.age") (.leaf "c.age")) (.leaf "@p1")) := by
  have grouped : selection? (ageTimesNext id) =
      some (("c.age * (c.age + @p1)" : Text), (["c.age * (c.age + @p1)"] : List Text)) := by
    decide +kernel
  have torn : selection? (ageTimesNext asInteger) =
      some (("c.age * c.age + @p1" : Text), (["c.age * c.age + @p1"] : List Text)) := by
    decide +kernel
  obtain ⟨d, hd, ht, -⟩ := compile_of_selection? grouped
  obtain ⟨d', hd', ht', -⟩ := compile_of_selection? torn
  refine ⟨by decide +kernel, ⟨by decide +kernel, by decide +kernel⟩, d, d', hd, hd', ?_, ?_⟩
  · rw [ht]
    decide +kernel
  · rw [ht']
    decide +kernel

end QueryTree
