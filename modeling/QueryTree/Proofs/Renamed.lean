import QueryTree.Proofs.Variation

/-!
# Renamed parameters

An expression whose row parameters are renamed is the same to the compiler but for the rows it
refers to. Its kind and type are the same, for a parameter keeps its type, and so are all questions
that decide how it is grouped. An expression without rows is not changed at all; one with rows is
evaluated alike, and if that fails only the parameter that its error names is another.

## Main definitions

* `Renaming`: new parameters for old ones
* `Expr.rename`: the expression with its parameters renamed
* `Attempt.Relates`: attempts that fail for related reasons or have related results

## Main results

* `Expr.type?_rename`, `Expr.isClosed_rename` and the like: what renaming does not change
* `Expr.rename_of_isClosed`: an expression without rows is not changed at all
* `Expr.eval_rename`: only the parameter that an error names is another
-/

namespace QueryTree

/-! ### Attempts

Two attempts that go along with each other, up to a relation of what they end with. Comparing
evaluations needs that reasons for stopping may differ, since an error names a parameter. -/

/-- Attempts that fail for reasons related by `E` or fault both, or have results related by `R`. -/
inductive Attempt.Relates {ε α β : Type} (E : ε → ε → Prop) (R : α → β → Prop) :
    Attempt ε α → Attempt ε β → Prop
  | failed {e e' : ε} (h : E e e') : Relates E R (.error (.error e)) (.error (.error e'))
  | faulted : Relates E R (.error .fault) (.error .fault)
  | returned {a : α} {b : β} (h : R a b) : Relates E R (.ok a) (.ok b)

namespace Attempt.Relates

variable {ε η α β γ δ : Type} {E : ε → ε → Prop} {F : η → η → Prop} {R : α → β → Prop}
  {S : γ → δ → Prop}

/-- An attempt is related to itself if all reasons and all results are. -/
theorem refl {R : α → α → Prop} (hE : ∀ e, E e e) (hR : ∀ a, R a a) (x : Attempt ε α) :
    Relates E R x x := by
  match x with
  | .ok a => exact .returned (hR a)
  | .error (.error e) => exact .failed (hE e)
  | .error .fault => exact .faulted

/-- What follows is compared for related results only; a stop is passed on. -/
theorem bind {x : Attempt ε α} {y : Attempt ε β} {f : α → Attempt ε γ} {g : β → Attempt ε δ}
    (h : Relates E R x y) (hf : ∀ a b, R a b → Relates E S (f a) (g b)) :
    Relates E S (x >>= f) (y >>= g) := by
  cases h with
  | failed h => exact .failed h
  | faulted => exact .faulted
  | returned h => exact hf _ _ h

/-- What is done with the result of one attempt. -/
theorem after {f : α → Attempt ε γ} {g : α → Attempt ε δ} (hE : ∀ e, E e e) (x : Attempt ε α)
    (hf : ∀ a, Relates E S (f a) (g a)) : Relates E S (x >>= f) (x >>= g) :=
  bind (R := (· = ·)) (.refl hE (fun _ => rfl) x) fun a _ hab => hab ▸ hf a

/-- Lists are worked out one by one, up to the first that stops in either. -/
theorem mapM {f : α → Attempt ε γ} {g : β → Attempt ε δ} {l : List α} {l' : List β}
    (h : List.Forall₂ R l l') (hf : ∀ a b, R a b → Relates E S (f a) (g b)) :
    Relates E (List.Forall₂ S) (l.mapM f) (l'.mapM g) := by
  induction h with
  | nil => exact .returned .nil
  | cons hab _ ih =>
    rw [List.mapM_cons, List.mapM_cons]
    exact (hf _ _ hab).bind fun _ _ hc => ih.bind fun _ _ hcs => .returned (.cons hc hcs)

/-- Reasons may be wrapped as long as they stay related. -/
theorem mapError {f : ε → η} {x : Attempt ε α} {y : Attempt ε β} (h : Relates E R x y)
    (hf : ∀ e e', E e e' → F (f e) (f e')) : Relates F R (x.mapError f) (y.mapError f) := by
  cases h with
  | failed h => exact .failed (hf _ _ h)
  | faulted => exact .faulted
  | returned h => exact .returned h

end Attempt.Relates

/-! ### Renaming

A renaming keeps types, and it keeps apart what was apart. Parameters are renamed where they are
referred to; the lists that lambdas declare stay as they are. -/

/-- New row parameters for old ones. -/
structure Renaming where
  /-- The new parameter for one of the old ones. -/
  apply : Param → Param
  /-- The parameters of the expressions to be renamed. -/
  Occurs : Param → Prop
  type_apply : ∀ p, (apply p).type = p.type
  /-- The identity of an old parameter that is replaced, and that of its new one, is no other
  parameter's. -/
  unique : ∀ {p q}, apply p ≠ p → Occurs q → q.id = p.id ∨ q.id = (apply p).id →
    q = p ∨ q = apply p

variable {r : Renaming}

namespace Expr

mutual

/-- The expression with its row parameters renamed, but for those that lambdas declare. -/
def rename (r : Renaming) : Expr → Expr
  | hole => hole
  | const v t => const v t
  | param p => param (r.apply p)
  | member e n t o => member (rename r e) n t o
  | binary op l r' => binary op (rename r l) (rename r r')
  | unary op e t => unary op (rename r e) t
  | call e m args t f => call (rename r e) m (renameAll r args) t f
  | new t bs => new t (renameBindings r bs)
  | init t bs => init t (renameBindings r bs)
  | list t es => list t (renameAll r es)
  | array t es => array t (renameAll r es)
  | lambda body ps => lambda (rename r body) ps
  | invoke e args => invoke (rename r e) (renameAll r args)
  | cond c a b => cond (rename r c) (rename r a) (rename r b)

/-- A list of expressions with their row parameters renamed. -/
def renameAll (r : Renaming) : List Expr → List Expr
  | [] => []
  | e :: es => rename r e :: renameAll r es

/-- Bindings with the row parameters of their expressions renamed. -/
def renameBindings (r : Renaming) : List (Text × Expr) → List (Text × Expr)
  | [] => []
  | (name, e) :: bs => (name, rename r e) :: renameBindings r bs

end

-- The equations of renaming, by which all proofs below go.
attribute [local simp] rename renameAll renameBindings

/-- The second function of the recursion is the first one on every member. -/
theorem renameAll_eq_map (es : List Expr) : renameAll r es = es.map (rename r) := by
  induction es with
  | nil => rfl
  | cons e es ih => rw [renameAll, ih, List.map_cons]

/-! ### What renaming does not change

The questions that the compiler asks of an expression are about its shape and its type. None of them
depends on which row a parameter stands for. -/

theorem isHole_rename (e : Expr) : (e.rename r).isHole = e.isHole := by
  cases e <;> simp only [rename, isHole]

theorem kind?_rename (e : Expr) : (e.rename r).kind? = e.kind? := by
  cases e <;> simp only [rename, kind?]

theorem isBinary_rename (e : Expr) : (e.rename r).isBinary = e.isBinary := by
  cases e <;> simp only [rename, isBinary]

theorem isLogical_rename (e : Expr) : (e.rename r).isLogical = e.isLogical := by
  cases e <;> simp only [rename, isLogical]

theorem isNullConstant_rename (e : Expr) : (e.rename r).isNullConstant = e.isNullConstant := by
  cases e <;> simp only [rename, isNullConstant]

theorem arithmeticParens_rename (e : Expr) (op : BinaryOp) (right : Bool) :
    (e.rename r).arithmeticParens op right = e.arithmeticParens op right := by
  cases e <;> simp only [rename, arithmeticParens]

/-- The only place where the type of a parameter is asked for. -/
theorem type?_rename : (e : Expr) → (e.rename r).type? = e.type?
  | hole | const .. | member .. | call .. | new .. | init .. | list .. | array .. => by
    simp only [rename, type?]
  | param p => by simp only [rename, type?, r.type_apply]
  | binary _ l r' => by simp only [rename, type?, type?_rename l, type?_rename r']
  | unary _ e _ => by simp only [rename, type?, type?_rename e]
  | lambda body _ => by simp only [rename, type?, type?_rename body]
  | invoke target _ => by simp only [rename, type?, type?_rename target]
  | cond _ a b => by simp only [rename, type?, type?_rename a, type?_rename b]

theorem isBool_rename (e : Expr) : (e.rename r).isBool = e.isBool := by
  rw [isBool, isBool, type?_rename]

theorem isCompound_rename (e : Expr) : (e.rename r).isCompound = e.isCompound := by
  have hbool : (e.rename r).isBool = e.isBool := isBool_rename e
  cases e with
  | call => simpa only [rename, isCompound] using hbool
  | _ => simp only [rename, isCompound]

theorem needsParens_rename (e : Expr) : (e.rename r).needsParens = e.needsParens := by
  cases e <;> simp only [rename, needsParens, isCompound_rename]

/-- Truth literals are constants, which have no parameters. -/
theorem literalTruth?_rename : (e : Expr) → (e.rename r).literalTruth? = e.literalTruth?
  | unary op e t => by
    have ih := literalTruth?_rename e
    cases op with
    | convert =>
      cases e with
      | const => simp only [rename]
      | unary => simpa only [rename, literalTruth?] using ih
      | _ => simp only [rename, literalTruth?]
    | _ => simp only [rename, literalTruth?]
  | hole | const .. | param _ | member .. | binary .. | call .. | new .. | init .. | list ..
  | array .. | lambda .. | invoke .. | cond .. => by simp only [rename, literalTruth?]

/-- An expression is a condition by its shape, or else by the type of the whole. -/
theorem isConditionOf_rename {w w' : Expr} (hw : w'.isBool = w.isBool) :
    (e : Expr) → isConditionOf w' (e.rename r) = isConditionOf w e
  | unary op e t => by
    have ih := isConditionOf_rename hw e
    have ihConvert := isConditionOf_rename (isBool_rename (r := r) e) e
    cases op with
    | quote => simpa only [rename, isConditionOf] using ih
    | convert => simpa only [rename, isConditionOf] using ihConvert
    | _ => simp only [rename, isConditionOf]
  | const .. | binary .. => by simp only [rename, isConditionOf]
  | hole | param _ | member .. | call .. | new .. | init .. | list .. | array .. | lambda ..
  | invoke .. | cond .. => by simpa only [rename, isConditionOf] using hw

theorem isCondition_rename (e : Expr) : (e.rename r).isCondition = e.isCondition :=
  isConditionOf_rename (isBool_rename e) e

/-- Quotes are taken off before or after renaming. -/
theorem unquote_rename : (e : Expr) → (e.rename r).unquote = e.unquote.rename r
  | unary op e t => by
    have ih := unquote_rename e
    cases op with
    | quote => simpa only [rename, unquote] using ih
    | _ => simp only [rename, unquote]
  | hole | const .. | param _ | member .. | binary .. | call .. | new .. | init .. | list ..
  | array .. | lambda .. | invoke .. | cond .. => by simp only [rename, unquote]

/-- A list keeps its length. -/
theorem isEmptyList_rename (e : Expr) : (e.rename r).isEmptyList = e.isEmptyList := by
  rw [isEmptyList.eq_def, isEmptyList.eq_def, unquote_rename]
  cases e.unquote with
  | list t es | array t es =>
    cases es <;> simp only [rename, renameAll, List.isEmpty_nil, List.isEmpty_cons]
  | _ => simp only [rename]

/-! ### Expressions without rows

Renaming changes row parameters and nothing else. So an expression without any is left alone, and
with it everything that is computed from closed expressions. -/

mutual

/-- A renamed expression refers to as many rows. -/
theorem length_rows_rename : (e : Expr) →
    ((e.rename r).walk.filterMap param?).length = (e.walk.filterMap param?).length
  | hole | const .. => by simp only [rename]
  | param _ => by
    simp only [rename, walk]
    rfl
  | member e .. | unary _ e _ | lambda e _ => by
    simp [rename, walk, List.filterMap_cons, param?, length_rows_rename e]
  | binary _ l r' => by
    simp [rename, walk, List.filterMap_cons, param?, length_rows_rename l, length_rows_rename r']
  | call e _ args _ _ | invoke e args => by
    simp [rename, walk, List.filterMap_cons, param?, length_rows_rename e,
      length_rows_renameAll args]
  | new _ bs | init _ bs => by
    simp [rename, walk, List.filterMap_cons, param?, length_rows_renameBindings bs]
  | list _ es | array _ es => by
    simp [rename, walk, List.filterMap_cons, param?, length_rows_renameAll es]
  | cond c a b => by
    simp [rename, walk, List.filterMap_cons, param?, length_rows_rename c, length_rows_rename a,
      length_rows_rename b]

theorem length_rows_renameAll : (es : List Expr) →
    ((walkAll (renameAll r es)).filterMap param?).length = ((walkAll es).filterMap param?).length
  | [] => by simp only [renameAll]
  | e :: es => by
    simp [renameAll, walkAll, length_rows_rename e, length_rows_renameAll es]

theorem length_rows_renameBindings : (bs : List (Text × Expr)) →
    ((walkBindings (renameBindings r bs)).filterMap param?).length =
      ((walkBindings bs).filterMap param?).length
  | [] => by simp only [renameBindings]
  | (_, e) :: bs => by
    simp [renameBindings, walkBindings, length_rows_rename e, length_rows_renameBindings bs]

end

/-- A new parameter is a row as the old one was. -/
theorem isClosed_rename (e : Expr) : (e.rename r).isClosed = e.isClosed := by
  rw [isClosed_eq, isClosed_eq, Bool.eq_iff_iff, List.isEmpty_iff_length_eq_zero,
    List.isEmpty_iff_length_eq_zero, length_rows_rename]

mutual

/-- Renaming does not change an expression without rows. -/
theorem rename_of_rows : (e : Expr) → e.walk.filterMap param? = [] → e.rename r = e
  | hole, _ | const .., _ => by simp only [rename]
  | param _, h => by simp [walk, param?] at h
  | member e .., h | unary _ e _, h => by
    simp only [walk, List.filterMap_cons, param?] at h
    rw [rename, rename_of_rows e h]
  | lambda body _, h => by
    simp only [walk, List.filterMap_cons, param?, List.filterMap_append,
      List.append_eq_nil_iff] at h
    rw [rename, rename_of_rows body h.2]
  | binary _ l r', h => by
    simp only [walk, List.filterMap_cons, param?, List.filterMap_append,
      List.append_eq_nil_iff] at h
    rw [rename, rename_of_rows l h.1, rename_of_rows r' h.2]
  | call e _ args _ _, h | invoke e args, h => by
    simp only [walk, List.filterMap_cons, param?, List.filterMap_append,
      List.append_eq_nil_iff] at h
    rw [rename, rename_of_rows e h.1, renameAll_of_rows args h.2]
  | new _ bs, h | init _ bs, h => by
    simp only [walk, List.filterMap_cons, param?] at h
    rw [rename, renameBindings_of_rows bs h]
  | list _ es, h | array _ es, h => by
    simp only [walk, List.filterMap_cons, param?] at h
    rw [rename, renameAll_of_rows es h]
  | cond c a b, h => by
    simp only [walk, List.filterMap_cons, param?, List.filterMap_append,
      List.append_eq_nil_iff] at h
    rw [rename, rename_of_rows c h.1.1, rename_of_rows a h.1.2, rename_of_rows b h.2]

theorem renameAll_of_rows : (es : List Expr) → (walkAll es).filterMap param? = [] →
    renameAll r es = es
  | [], _ => by simp only [renameAll]
  | e :: es, h => by
    simp only [walkAll, List.filterMap_append, List.append_eq_nil_iff] at h
    rw [renameAll, rename_of_rows e h.1, renameAll_of_rows es h.2]

theorem renameBindings_of_rows : (bs : List (Text × Expr)) →
    (walkBindings bs).filterMap param? = [] → renameBindings r bs = bs
  | [], _ => by simp only [renameBindings]
  | (_, e) :: bs, h => by
    simp only [walkBindings, List.filterMap_append, List.append_eq_nil_iff] at h
    rw [renameBindings, rename_of_rows e h.1, renameBindings_of_rows bs h.2]

end

/-- An expression without rows is not changed at all. -/
theorem rename_of_isClosed {e : Expr} (h : e.isClosed = true) : e.rename r = e :=
  rename_of_rows e (List.isEmpty_iff.mp (isClosed_eq e ▸ h))

/-- Folding is for expressions without rows, and these are not changed. -/
theorem folded?_rename (e : Expr) (pre : Prelude) : (e.rename r).folded? pre = e.folded? pre := by
  cases h : e.isClosed with
  | true => rw [rename_of_isClosed h]
  | false => rw [folded?_of_not_isClosed h, folded?_of_not_isClosed (isClosed_rename e ▸ h)]

/-- So is the decision of a conditional. -/
theorem closedTruth?_rename (e : Expr) (pre : Prelude) :
    (e.rename r).closedTruth? pre = e.closedTruth? pre := by
  cases h : e.isClosed with
  | true => rw [rename_of_isClosed h]
  | false => simp [closedTruth?, isClosed_rename, h]

mutual

/-- Renaming nothing changes nothing. -/
theorem rename_of_forall (h : ∀ p, r.apply p = p) : (e : Expr) → e.rename r = e
  | hole | const .. => by simp only [rename]
  | param p => by rw [rename, h]
  | member e .. | unary _ e _ | lambda e _ => by rw [rename, rename_of_forall h e]
  | binary _ l r' => by rw [rename, rename_of_forall h l, rename_of_forall h r']
  | call e _ args _ _ | invoke e args => by
    rw [rename, rename_of_forall h e, renameAll_of_forall h args]
  | new _ bs | init _ bs => by rw [rename, renameBindings_of_forall h bs]
  | list _ es | array _ es => by rw [rename, renameAll_of_forall h es]
  | cond c a b => by
    rw [rename, rename_of_forall h c, rename_of_forall h a, rename_of_forall h b]

theorem renameAll_of_forall (h : ∀ p, r.apply p = p) : (es : List Expr) → renameAll r es = es
  | [] => by simp only [renameAll]
  | e :: es => by rw [renameAll, rename_of_forall h e, renameAll_of_forall h es]

theorem renameBindings_of_forall (h : ∀ p, r.apply p = p) :
    (bs : List (Text × Expr)) → renameBindings r bs = bs
  | [] => by simp only [renameBindings]
  | (_, e) :: bs => by rw [renameBindings, rename_of_forall h e, renameBindings_of_forall h bs]

end

/-! ### Evaluation

An expression with rows may be evaluated all the same, where an operand that has a row is never
reached. Then both have the same value. Where a row is reached, the errors name the old and the new
parameter. -/

end Expr

/-- The same reason, or that a value depends on a parameter and on its new one. -/
inductive EvalError.Renamed (r : Renaming) : EvalError → EvalError → Prop
  | same (e : EvalError) : Renamed r e e
  | parameter (p : Param) :
    Renamed r (.dependsOnParameter p.name) (.dependsOnParameter (r.apply p).name)

/-- If nothing is renamed, the reasons are the same. -/
theorem EvalError.Renamed.eq_of_forall {e e' : EvalError} (h : e.Renamed r e')
    (hr : ∀ p, r.apply p = p) : e' = e := by
  cases h with
  | same => rfl
  | parameter p => rw [hr]

/-- Evaluations with the same value, or that fail for the same reason but for a parameter's name. -/
abbrev EvaluateAlike (r : Renaming) {α : Type} (x y : Attempt EvalError α) : Prop :=
  Attempt.Relates (EvalError.Renamed r) (· = ·) x y

theorem EvaluateAlike.refl {α : Type} (x : Attempt EvalError α) : EvaluateAlike r x x :=
  Attempt.Relates.refl .same (fun _ => rfl) x

/-- What is done with a value does not see where it comes from. -/
theorem EvaluateAlike.andThen {α β : Type} {x y : Attempt EvalError α}
    {f g : α → Attempt EvalError β} (h : EvaluateAlike r x y)
    (hf : ∀ a, EvaluateAlike r (f a) (g a)) : EvaluateAlike r (x >>= f) (y >>= g) :=
  h.bind fun a _ hab => hab ▸ hf a

namespace Expr

open Attempt

variable (pre : Prelude)

mutual

/-- **Renamed expressions evaluate alike.** A parameter has no value, and its name is all that the
error tells of it. -/
theorem eval_rename : (e : Expr) → EvaluateAlike r (e.eval pre) ((e.rename r).eval pre)
  | hole | const .. => by
    rw [rename]
    exact .refl _
  | param p => by
    rw [rename, eval, eval]
    exact .failed (.parameter p)
  | member e name t o => by
    rw [rename, eval, eval, isHole_rename]
    split
    · exact .refl _
    · exact (eval_rename e).andThen fun v => .refl _
  | binary op l r' => by
    rw [rename, eval, eval]
    refine (eval_rename l).andThen fun a => ?_
    have right : ∀ f : Value → Attempt EvalError Value,
        EvaluateAlike r (r'.eval pre >>= f) ((r'.rename r).eval pre >>= f) :=
      fun f => (eval_rename r').andThen fun b => .refl _
    split
    · split
      · exact .refl _
      · split
        · exact .refl _
        · split
          · exact .refl _
          · exact right _
    · split
      · exact .refl _
      · exact right _
  | unary op e t => by
    rw [rename, eval, eval]
    exact (eval_rename e).andThen fun v => .refl _
  | call receiver method args t callee => by
    rw [rename, eval, eval, isHole_rename]
    refine (evalAll_rename args).andThen fun vs => ?_
    split
    · exact .refl _
    · split
      · exact .refl _
      · exact (eval_rename receiver).andThen fun v => .refl _
  | cond c a b => by
    rw [rename, eval, eval]
    refine (eval_rename c).andThen fun v => ?_
    split
    · exact .refl _
    · exact eval_rename a
    · exact eval_rename b
  | list t es | array t es => by
    rw [rename, eval, eval]
    exact (evalAll_rename es).andThen fun vs => .refl _
  | new t bs | init t bs => by
    rw [rename, eval, eval]
    split
    · exact evalMembers_rename _ _ bs
    · exact evalEntries_rename _ bs
  | lambda .. | invoke .. => by
    rw [rename, eval, eval]
    exact .refl _

theorem evalAll_rename : (es : List Expr) →
    EvaluateAlike r (evalAll pre es) (evalAll pre (renameAll r es))
  | [] => by
    rw [renameAll]
    exact .refl _
  | e :: es => by
    rw [renameAll, evalAll, evalAll]
    exact (eval_rename e).andThen fun v => (evalAll_rename es).andThen fun vs => .refl _

theorem evalEntries_rename (entries : List (MapKey × Value)) : (bs : List (Text × Expr)) →
    EvaluateAlike r (evalEntries pre entries bs) (evalEntries pre entries (renameBindings r bs))
  | [] => by
    rw [renameBindings]
    exact .refl _
  | (name, e) :: bs => by
    rw [renameBindings, evalEntries, evalEntries]
    exact (eval_rename e).andThen fun v => evalEntries_rename _ bs

theorem evalMembers_rename (t : Ty) (obj : Value) : (bs : List (Text × Expr)) →
    EvaluateAlike r (evalMembers pre t obj bs) (evalMembers pre t obj (renameBindings r bs))
  | [] => by
    rw [renameBindings]
    exact .refl _
  | (name, e) :: bs => by
    rw [renameBindings, evalMembers, evalMembers]
    exact (eval_rename e).andThen fun v => EvaluateAlike.andThen (.refl _) fun obj =>
      evalMembers_rename t obj bs

end

end Expr

end QueryTree
