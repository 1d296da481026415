import QueryTree.Proofs.Complement
import QueryTree.Proofs.Conjunction
import QueryTree.Proofs.Folding

/-!
# Membership in nothing

Nothing is a member of an empty list, so a test for membership in one never holds and a test for
absence always does. A list is known to be empty where it is written out as a constant, a list or an
array, also in quotes, and these tests have the texts `1 = 0` and none at all. Every other list
without rows is folded to its value when its items are written, and if there are none it becomes
`(NULL)`. This fits the test for membership: to be a member of `(NULL)` is unknown, and so holds for
no row. But to be absent from it is unknown as well, so the test for absence also holds for no row.

## Main definitions

* `Sql.Formula.verdict`, `Sql.verdict`: the truth of a condition, where that of atoms may be unknown
* `Sql.Judges`: truth values that a row may give the atoms
* `Value.isEmptyCollection`: lists and arrays that hold nothing

## Main results

* `Expr.yields_members_of_empty`: the items of an empty list
* `Draft.conditionText?_inTest_of_empty`: the texts of the tests
* `absent_from_empty_iff`: the tests for absence hold only where the list is known to be empty
-/

namespace QueryTree

open Sql Emit

/-! ### Conditions that may be unknown -/

namespace Sql

variable {w : Text → Option Bool} {v : Text → Bool} {f : Formula} {t : Text}

namespace Formula

/-- Whether both of two conditions hold. That one does not is enough to know that they do not. -/
def both : Option Bool → Option Bool → Option Bool
  | some false, _ | _, some false => some false
  | some true, some true => some true
  | _, _ => none

/-- Whether one of two conditions holds. That one does is enough to know. -/
def either : Option Bool → Option Bool → Option Bool
  | some true, _ | _, some true => some true
  | some false, some false => some false
  | _, _ => none

/-- The truth of a formula, where that of its atoms may be unknown. -/
def verdict (w : Text → Option Bool) : Formula → Option Bool
  | atom t => w t
  | group f => f.verdict w
  | and f g => both (f.verdict w) (g.verdict w)
  | or f g => either (f.verdict w) (g.verdict w)

end Formula

/-- The truth of the text of a condition, where that of its atoms may be unknown. No text holds. -/
def verdict (w : Text → Option Bool) (t : Text) : Option Bool :=
  if t.isEmpty then some true else (read t).verdict w

theorem verdict_of_atomic (h : Atomic t) : verdict w t = w t := by
  have hne : t ≠ [] := Formula.text_ne_nil (legible_atom h).atomic
  have hread : read t = .atom t := read_text (legible_atom h)
  rw [verdict, if_neg (by simpa using hne), hread]
  rfl

/-- Truth values that a row may give the atoms of conditions. Whether a value is equal to null is
unknown, and so are membership in a list of nothing but null and absence from it. -/
structure Judges (w : Text → Option Bool) : Prop where
  equal_zero : w "1 = 0" = some false
  differs_zero : w "1 <> 0" = some true
  in_null : ∀ x : Text, w (x ++ " IN " ++ "(NULL)") = none
  notIn_null : ∀ x : Text, w (x ++ " NOT IN " ++ "(NULL)") = none

/-- Some row gives every atom a truth value. -/
theorem exists_judges : ∃ w, Judges w := by
  let w : Text → Option Bool := fun t =>
    if t = ("1 = 0" : Text) then some false else if t = ("1 <> 0" : Text) then some true else none
  have long : ∀ t : Text, 6 < t.length → w t = none := by
    intro t ht
    have h₁ : t ≠ ("1 = 0" : Text) := by
      rintro rfl
      exact absurd ht (by decide)
    have h₂ : t ≠ ("1 <> 0" : Text) := by
      rintro rfl
      exact absurd ht (by decide)
    exact (if_neg h₁).trans (if_neg h₂)
  have hlist : ("(NULL)" : Text).length = 6 := by decide
  have hin : (" IN " : Text).length = 4 := by decide
  have hnot : (" NOT IN " : Text).length = 8 := by decide
  refine ⟨w, rfl, rfl, fun x => long _ ?_, fun x => long _ ?_⟩
  · rw [List.length_append, List.length_append, hlist, hin]
    omega
  · rw [List.length_append, List.length_append, hlist, hnot]
    omega

end Sql

/-! ### Values without items -/

namespace Value

/-- Whether the value, behind pointers, is a list or an array without items. Bytes are no list. -/
def isEmptyCollection (v : Value) : Bool :=
  v.type?.any Ty.isCollection && v.deref.items?.any List.isEmpty

theorem items?_of_isEmptyCollection {v : Value} (h : v.isEmptyCollection = true) :
    v.deref.items? = some [] := by
  obtain ⟨-, h⟩ := Bool.and_eq_true_iff.mp h
  cases hitems : v.deref.items? with
  | none =>
    rw [hitems] at h
    cases h
  | some items =>
    rw [hitems] at h
    rw [List.isEmpty_iff.mp h]

theorem IsShaped.not_isEmptyCollection {v : Value} (h : v.IsShaped) :
    v.isEmptyCollection = false := by
  have hderef : v.deref = v := deref_of_ne_ptr fun t u hu => by
    obtain h | ⟨x, h⟩ | ⟨k, e, entries, rfl⟩ := h
    · rw [isRecord, hu] at h
      cases h
    · rw [hu] at h
      cases h
    · cases hu
  have hitems : v.deref.items? = none := by
    rw [hderef, items?]
    obtain h | ⟨x, h⟩ | ⟨k, e, entries, rfl⟩ := h
    · unfold isRecord at h
      generalize v.under = u at h
      cases u with
      | record => rfl
      | _ => cases h
    · rw [h]
    · rfl
  rw [isEmptyCollection, hitems]
  simp

end Value

namespace Expr

/-! ### The items of an empty list -/

variable {pre : Prelude} {st : Settings} {c : Clause} {s s' : Slate} {e x list : Expr} {v : Value}
  {t a : Text}

/-- What evaluates to an empty list is known to be empty, or it is folded. -/
theorem isEmptyList_or_isFoldable (h : e.eval pre = .ok v) (hv : v.isEmptyCollection = true)
    (hcall : e.isAggregateCall = false) : e.isEmptyList = true ∨ e.unquote.isFoldable = true := by
  have hvalue := hasValue_unquote h hcall
  rw [isEmptyList]
  generalize e.unquote = u at hvalue
  cases hvalue with
  | hole h =>
    rw [h] at hv
    cases hv
  | const t => exact .inl hv
  | folded h => exact .inr h
  | items he hslice hlength =>
    have hnil := Value.items?_of_isEmptyCollection hv
    have hderef : v.deref = v := Value.deref_of_ne_ptr fun t u => by rw [hslice]; nofun
    rw [hderef, Value.items?, hslice] at hnil
    cases hnil
    have hempty := (List.isEmpty_iff_length_eq_zero).mpr hlength.symm
    rcases he with rfl | rfl
    · exact .inl hempty
    · exact .inl hempty
  | shape he h =>
    rw [h.not_isEmptyCollection] at hv
    cases hv

theorem yields_constantMembers_of_empty (hv : v.isEmptyCollection = true) (s : Slate) :
    Yields (constantMembers st v) s "(NULL)" s := by
  unfold constantMembers
  split
  · exact yields_pure.mpr ⟨rfl, rfl⟩
  · rw [if_pos (Bool.and_eq_true_iff.mp hv).1, Value.items?_of_isEmptyCollection hv]
    exact yields_pure.mpr ⟨rfl, rfl⟩

/-- **The items of an empty list.** A list that is not known to be empty before it is folded has a
null for its only item. -/
theorem yields_members_of_empty (hc : e.isClosed = true) (h : e.eval st.pre = .ok v)
    (hv : v.isEmptyCollection = true) (hcall : e.isAggregateCall = false)
    (hlist : e.isEmptyList = false) (s : Slate) :
    Yields (e.render st).members s "(NULL)" s := by
  have hfold : e.unquote.isFoldable = true :=
    (isEmptyList_or_isFoldable h hv hcall).resolve_left (by simp [hlist])
  exact (yields_members_of_folded hc h hfold).mpr (yields_constantMembers_of_empty hv s)

/-! ### The tests -/

theorem isClosed_of_staticOf {method : Text} (h : (staticOf method [x, list]).isClosed = true) :
    x.isClosed = true := by
  rw [staticOf, callOf, isClosed_eq, walk, walkAll, List.filterMap_cons_none rfl,
    List.filterMap_append, List.filterMap_append, List.isEmpty_iff, List.append_eq_nil_iff,
    List.append_eq_nil_iff] at h
  rw [isClosed_eq, h.2.1]
  rfl

/-- A static call with two arguments that names no function has no value. -/
theorem eval_staticOf (method : Text) (hx : x.eval pre ≠ .fault) (hlist : list.eval pre = .ok v) :
    ∃ err, (staticOf method [x, list]).eval pre = .error (.error err) := by
  rw [staticOf, callOf, eval, evalAll, evalAll, evalAll, hlist]
  cases hex : x.eval pre with
  | ok u => exact ⟨_, rfl⟩
  | error stop =>
    cases stop with
    | error err => exact ⟨err, rfl⟩
    | fault => exact absurd hex hx

theorem folded?_staticOf {method : Text} (hx : x.isClosed = true → x.eval pre ≠ .fault)
    (hlist : list.eval pre = .ok v) : (staticOf method [x, list]).folded? pre = .ok none :=
  folded?_of_eval fun h => eval_staticOf method (hx (isClosed_of_staticOf h)) hlist

theorem folded?_notOf_staticOf {method : Text} (hx : x.isClosed = true → x.eval pre ≠ .fault)
    (hlist : list.eval pre = .ok v) :
    (notOf (staticOf method [x, list])).folded? pre = .ok none := by
  refine folded?_of_eval fun h => ?_
  rw [notOf, isClosed_unary] at h
  obtain ⟨err, he⟩ := eval_staticOf method (hx (isClosed_of_staticOf h)) hlist
  exact ⟨err, by rw [notOf, eval, he]; rfl⟩

/-- A test for membership is compiled by the rule for it. -/
theorem condition_staticOf {method : Text} {isNegated : Bool} (hx : x.isHole = false)
    (hm : Intrinsic.ofName? method = some (.membership isNegated))
    (hf : (staticOf method [x, list]).folded? st.pre = .ok none) :
    Yields (((staticOf method [x, list]).render st).condition c) s t s' ↔
      Yields (Rendering.membership (x.render st) (list.render st) isNegated c) s t s' := by
  have hrule : Rendering.rule? (hole.render st) method = some (.membership isNegated) := by
    rw [Rendering.rule?, hm]
    rfl
  have hemit : Rendering.emitCall st (hole.render st) method ([x, list].map (render st))
      (callType? hole method [x, list]) none c true (constantCondition · c) =
        Rendering.membership (x.render st) (list.render st) isNegated c := by
    have hstatic : hole.isHole = true := rfl
    unfold Rendering.emitCall
    rw [hrule]
    simp [Rendering.operands, render_expr, hstatic, hx, Intrinsic.arity, Intrinsic.isCondition,
      Rendering.intrinsic]
  rw [staticOf, callOf] at hf ⊢
  rw [condition_call, hemit, yields_folding, hf]
  simp

/-- The text of the test whether a value, whose text is given, is in a list without items. -/
def emptyTest (isNegated isKnown : Bool) (a : Text) : Text :=
  if isKnown then if isNegated then [] else never
  else a ++ (if isNegated then " NOT IN " else " IN ") ++ "(NULL)"

theorem yields_emptyTest (method : Text) (isNegated : Bool) (hc : c.isCondition = true)
    (hm : Intrinsic.ofName? method = some (.membership isNegated))
    (ha : Yields ((x.render st).value c) s a s')
    (hfault : x.isClosed = true → x.eval st.pre ≠ .fault) (hlist : list.isClosed = true)
    (hv : list.eval st.pre = .ok v) (hempty : v.isEmptyCollection = true)
    (hcall : list.isAggregateCall = false) :
    ∃ s₁, Yields (((staticOf method [x, list]).render st).condition c) s
      (emptyTest isNegated list.isEmptyList a) s₁ := by
  have hx : x.isHole = false := by
    cases x with
    | hole =>
      have hy : Yields (Emit.unsupported hole c) s a s' := ha
      exact absurd hy not_yields_unsupported
    | _ => rfl
  have hhole : list.isHole = false := by
    cases list with
    | hole => cases hv; cases hempty
    | _ => rfl
  simp only [condition_staticOf hx hm (folded?_staticOf hfault hv), Rendering.membership,
    render_expr]
  cases hknown : list.isEmptyList with
  | true =>
    refine ⟨s, yields_pure.mpr ⟨?_, rfl⟩⟩
    cases isNegated <;> simp [emptyTest, hc, never]
  | false =>
    have hmembers := yields_members_of_empty hlist hv hempty hcall hknown s'
    refine ⟨s', yields_join.mpr ⟨a, s', "(NULL)", ha, ?_, ?_⟩⟩
    · rwa [hhole]
    · cases isNegated <;> rfl

/-- A call that is not folded is no list. -/
theorem not_yields_members_of_isAggregateCall (hcall : e.isAggregateCall = true) :
    ¬ Yields (e.render st).members s t s' := by
  have hmembers : (e.render st).members = (renderWith st (renderTo st 9999) e).members := rfl
  rw [hmembers, ← members_unquote]
  unfold isAggregateCall at hcall
  split at hcall
  · rename_i receiver method args type callee hu
    have hfold : (call receiver method args type callee).isFoldable = false := by
      rw [isFoldable, hcall]
      rfl
    intro hy
    rw [hu, renderWith, Rendering.call, renderWith_expr, renderAll_expr] at hy
    rcases yields_folding.mp hy with ⟨v, hv, -⟩ | ⟨-, hy⟩
    · rw [folded?, hfold] at hv
      cases hv
    · exact absurd hy not_yields_unsupported
  · cases hcall

/-- No test is compiled whose list is a call that is not folded. -/
theorem not_yields_staticOf {method : Text} (isNegated : Bool) (hx : x.isHole = false)
    (hm : Intrinsic.ofName? method = some (.membership isNegated))
    (hfault : x.isClosed = true → x.eval st.pre ≠ .fault)
    (hv : list.eval st.pre = .ok v) (hcall : list.isAggregateCall = true) :
    ¬ Yields (((staticOf method [x, list]).render st).condition c) s t s' := by
  have hknown : list.isEmptyList = false := by
    unfold isAggregateCall at hcall
    unfold isEmptyList
    split at hcall
    · rename_i hu
      rw [hu]
    · cases hcall
  have hhole : list.isHole = false := by
    cases list with
    | hole => cases hcall
    | _ => rfl
  rw [condition_staticOf hx hm (folded?_staticOf hfault hv), Rendering.membership, render_expr,
    hknown, hhole, if_neg Bool.false_ne_true, if_neg Bool.false_ne_true, yields_join]
  rintro ⟨_, _, _, -, hy, -⟩
  exact not_yields_members_of_isAggregateCall hcall hy

/-- A negation is only compiled if its operand is. -/
theorem exists_yields_of_notOf (hf : e.notOf.folded? st.pre = .ok none)
    (h : Yields ((e.notOf.render st).condition c) s t s') :
    ∃ u s₁, Yields ((e.render st).condition c) s u s₁ := by
  have hrender : (e.notOf.render st).condition c = Emit.folding st
      (.unary .not (e.render st).expr (some .bool)) (Emit.constantCondition · c)
      ((e.render st).negatable true c) := rfl
  rw [hrender, render_expr] at h
  rcases yields_folding.mp h with ⟨v, hv, -⟩ | ⟨-, h⟩
  · rw [notOf] at hf
    rw [hf] at hv
    cases hv
  · obtain ⟨u, hu, -⟩ := yields_negated.mp h
    obtain ⟨u, hu, -⟩ := yields_groupedCondition.mp hu
    exact ⟨u, s', hu⟩

end Expr

/-! ### What the tests say -/

namespace Sql

open QueryTree.Expr

variable {w : Text → Option Bool} {a : Text}

theorem valued_nullList : Valued "(NULL)" :=
  valued_call (f := "") (t := "NULL") (by decide) (valued_valueWord (by decide))

theorem atomic_never : Atomic never := legible_never.atomic never (by simp [Formula.atoms])

theorem negate_emptyTest (ha : Valued a) (isKnown : Bool) :
    negate (emptyTest false isKnown a) =
      if isKnown then ("1 <> 0" : Text) else emptyTest true false a := by
  cases isKnown with
  | true =>
    have h : negate never = "1 <> 0" := by decide
    exact h
  | false =>
    exact negate_comparison (by decide : (" IN " : Text) ∈ comparisonTokens) (by decide) ha
      valued_nullList

/-- The tests say what they should where the list is known to be empty; else they are unknown. -/
theorem verdict_emptyTest (hw : Judges w) (ha : Valued a) (isNegated isKnown : Bool) :
    verdict w (emptyTest isNegated isKnown a) = if isKnown then some isNegated else none := by
  cases isKnown with
  | true =>
    cases isNegated with
    | true => rfl
    | false => exact (verdict_of_atomic atomic_never).trans hw.equal_zero
  | false =>
    cases isNegated with
    | true =>
      have h : Atomic (a ++ " NOT IN " ++ "(NULL)") :=
        ⟨a, " NOT IN ", "(NULL)", by decide, ha, valued_nullList, rfl⟩
      exact (verdict_of_atomic h).trans (hw.notIn_null a)
    | false =>
      have h : Atomic (a ++ " IN " ++ "(NULL)") :=
        ⟨a, " IN ", "(NULL)", by decide, ha, valued_nullList, rfl⟩
      exact (verdict_of_atomic h).trans (hw.in_null a)

end Sql

namespace Draft

variable {d : Draft} {c : Clause} {x list e : Expr} {v : Value} {a : Text} {s : Slate}

theorem conditionText?_eq_none (hc : c.isCondition = true) (he : e.isHole = false)
    (h : ∀ t s, ¬ Yields ((e.render d.settings).condition c) d.slate t s) :
    d.conditionText? c e = none := by
  cases ht : d.conditionText? c e with
  | none => rfl
  | some t =>
    obtain ⟨s, ⟨hhole, -⟩ | hy⟩ := yields_of_conditionText? hc ht
    · rw [he] at hhole
      cases hhole
    · exact absurd hy (h t s)

/-- **What the tests for membership in an empty list compile to.** -/
theorem conditionText?_of_empty (hc : c.isCondition = true)
    (hx : x.Named d.settings (.readable d.settings.quoted))
    (hs : d.slate.aliases.Within (.readable d.settings.quoted))
    (ha : Yields ((x.render d.settings).value c) d.slate a s)
    (hfault : x.isClosed = true → x.eval d.settings.pre ≠ .fault) (hlist : list.isClosed = true)
    (hv : list.eval d.settings.pre = .ok v) (hempty : v.isEmptyCollection = true)
    (hcall : list.isAggregateCall = false) :
    d.conditionText? c (x.inTest [.inl list]) = some (Expr.emptyTest false list.isEmptyList a) ∧
      d.conditionText? c (x.notInTest [.inl list]) =
        some (Expr.emptyTest true list.isEmptyList a) ∧
      d.conditionText? c (x.inTest [.inl list]).notOf =
        some (if list.isEmptyList then ("1 <> 0" : Text) else Expr.emptyTest true false a) := by
  obtain ⟨-, hvalue⟩ := (Expr.lawful_render hx).value c d.slate a s hs ha
  obtain ⟨s₁, hin⟩ := Expr.yields_emptyTest "In" false hc rfl ha hfault
    hlist hv hempty hcall
  obtain ⟨s₂, hnotIn⟩ := Expr.yields_emptyTest "NotIn" true hc rfl ha hfault
    hlist hv hempty hcall
  refine ⟨conditionText?_of_yields hc rfl hin, conditionText?_of_yields hc rfl hnotIn, ?_⟩
  have hnot := Expr.yields_notOf_of_folded? (Expr.folded?_notOf_staticOf hfault hv) hin
  have hne : (Expr.emptyTest false list.isEmptyList a).isEmpty = false := by
    refine Bool.eq_false_iff.mpr fun h => ?_
    rw [List.isEmpty_iff] at h
    revert h
    cases list.isEmptyList with
    | true => exact nofun
    | false => exact List.append_ne_nil_of_right_ne_nil _ (by decide)
  have hlogical : (Expr.staticOf "In" [x, list]).isLogical = false := rfl
  rw [hne, hlogical, parenthesised, Bool.false_and, if_neg Bool.false_ne_true,
    if_neg Bool.false_ne_true, negate_emptyTest hvalue.valued] at hnot
  exact conditionText?_of_yields hc rfl hnot

/-- No test is compiled whose list is a call that is not folded. -/
theorem conditionText?_of_isAggregateCall (hc : c.isCondition = true) (hx : x.isHole = false)
    (hfault : x.isClosed = true → x.eval d.settings.pre ≠ .fault)
    (hv : list.eval d.settings.pre = .ok v) (hcall : list.isAggregateCall = true) :
    d.conditionText? c (x.inTest [.inl list]) = none ∧
      d.conditionText? c (x.notInTest [.inl list]) = none ∧
      d.conditionText? c (x.inTest [.inl list]).notOf = none := by
  refine ⟨conditionText?_eq_none hc rfl fun t s => ?_, conditionText?_eq_none hc rfl fun t s => ?_,
    conditionText?_eq_none hc rfl fun t s hy => ?_⟩
  · exact Expr.not_yields_staticOf false hx rfl hfault hv hcall
  · exact Expr.not_yields_staticOf true hx rfl hfault hv hcall
  · obtain ⟨u, s₁, hu⟩ := Expr.exists_yields_of_notOf (Expr.folded?_notOf_staticOf hfault hv) hy
    exact Expr.not_yields_staticOf false hx rfl hfault hv hcall hu

end Draft

/-- **What the tests for membership in an empty list say.** The list depends on no row and evaluates
to a list without items, and the value compiles. A call of a method that has the name of an
aggregate function is no list. For every other list the tests compile, and the test for membership
holds for no row. The tests for absence hold for every row if the list is known to be empty, and
for none if it only turns out to be empty. -/
theorem verdict_of_empty_membership {d : Draft} {c : Clause} {x list : Expr} {v : Value} {a : Text}
    {s : Slate} (hc : c.isCondition = true)
    (hx : x.Named d.settings (.readable d.settings.quoted))
    (hs : d.slate.aliases.Within (.readable d.settings.quoted))
    (ha : Yields ((x.render d.settings).value c) d.slate a s)
    (hfault : x.isClosed = true → x.eval d.settings.pre ≠ .fault) (hlist : list.isClosed = true)
    (hv : list.eval d.settings.pre = .ok v) (hempty : v.isEmptyCollection = true) :
    if list.isAggregateCall then
      d.conditionText? c (x.inTest [.inl list]) = none ∧
        d.conditionText? c (x.notInTest [.inl list]) = none ∧
        d.conditionText? c (x.inTest [.inl list]).notOf = none
    else ∃ i n m, d.conditionText? c (x.inTest [.inl list]) = some i ∧
      d.conditionText? c (x.notInTest [.inl list]) = some n ∧
      d.conditionText? c (x.inTest [.inl list]).notOf = some m ∧
      ∀ w, Judges w →
        verdict w i = (if list.isEmptyList then some false else none) ∧
        verdict w n = (if list.isEmptyList then some true else none) ∧
        verdict w m = (if list.isEmptyList then some true else none) := by
  cases hcall : list.isAggregateCall with
  | true =>
    have hhole : x.isHole = false := by
      cases x with
      | hole =>
        have hy : Yields (Emit.unsupported .hole c) d.slate a s := ha
        exact absurd hy not_yields_unsupported
      | _ => rfl
    exact Draft.conditionText?_of_isAggregateCall hc hhole hfault hv hcall
  | false =>
    obtain ⟨-, hvalue⟩ := (Expr.lawful_render hx).value c d.slate a s hs ha
    have hvalued : Valued a := hvalue.valued
    obtain ⟨hin, hnotIn, hnot⟩ :=
      Draft.conditionText?_of_empty hc hx hs ha hfault hlist hv hempty hcall
    refine ⟨_, _, _, hin, hnotIn, hnot, fun w hw => ?_⟩
    refine ⟨verdict_emptyTest hw hvalued false _, verdict_emptyTest hw hvalued true _, ?_⟩
    cases list.isEmptyList with
    | true => exact (verdict_of_atomic (atomic_never.negate)).trans hw.differs_zero
    | false => exact verdict_emptyTest hw hvalued true false

/-! ### A list that turns out to be empty -/

/-- No numbers, chosen by a test. -/
def Sample.chosenNone : Expr := .cond (.value (.bool true)) (.arrayOf []) (.arrayOf [])

/-- The age is none of the numbers. -/
def Sample.ageNotChosen : Expr := (Expr.field customerRow "Age").notInTest [.inl chosenNone]

theorem Sample.whereText?_ageNotChosen : whereText? (.standard .sqlServer world) ageNotChosen =
    some ("c.age NOT IN (NULL)" : Text) := by
  decide +kernel

open Sample in
theorem verdict_of_empty_membership_chosenNone :
    chosenNone.isClosed = true ∧ chosenNone.eval world = .ok (.slice .any []) ∧
      (Value.slice .any []).isEmptyCollection = true ∧
      ∃ i n m, let d := Draft.new (.standard .sqlServer world)
        d.conditionText? .where_ ((Expr.field customerRow "Age").inTest [.inl chosenNone]) =
            some i ∧
          d.conditionText? .where_ ageNotChosen = some n ∧
          d.conditionText? .where_
            ((Expr.field customerRow "Age").inTest [.inl chosenNone]).notOf = some m ∧
          ∀ w, Judges w → verdict w i = none ∧ verdict w n = none ∧ verdict w m = none := by
  obtain ⟨s, ha⟩ : ∃ s, Yields (((Expr.field customerRow "Age").render
      (.standard .sqlServer world)).value .where_) .empty "c.age" s := ⟨_, rfl⟩
  exact ⟨by decide, rfl, by decide, verdict_of_empty_membership
    (d := Draft.new (.standard .sqlServer world)) (x := .field customerRow "Age")
    rfl (customerRow_readable .sqlServer) (AliasTable.within_empty _) ha nofun
    (by decide : chosenNone.isClosed = true) rfl (by decide)⟩

open Sample in
/-- **A test for absence from an empty list that holds for no row.** The list is written as a choice
between two empty arrays. -/
theorem exists_absence_unknown :
    chosenNone.isClosed = true ∧ chosenNone.eval world = .ok (.slice .any []) ∧
      ∃ d, (Draft.new (.standard .sqlServer world)).compile ageNotChosen .where_ [] =
          (d, .ok ()) ∧ d.text = "c.age NOT IN (NULL)" ∧
        ∃ w, Judges w ∧ verdict w d.text ≠ some true := by
  obtain ⟨d, hd, ht⟩ := compile_of_whereText? whereText?_ageNotChosen
  obtain ⟨w, hw⟩ := exists_judges
  have hatomic : Atomic ("c.age" ++ " NOT IN " ++ "(NULL)") :=
    ⟨"c.age", " NOT IN ", "(NULL)", by decide, valued_of_isPlain (by decide) (by decide),
      valued_nullList, rfl⟩
  have hunknown : verdict w d.text = none := by
    rw [ht]
    exact (verdict_of_atomic hatomic).trans (hw.notIn_null "c.age")
  exact ⟨by decide, rfl, d, hd, ht, w, hw, by rw [hunknown]; nofun⟩

end QueryTree
