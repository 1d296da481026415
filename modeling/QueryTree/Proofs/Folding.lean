import QueryTree.Proofs.Closed
import QueryTree.Proofs.Evaluated

/-!
# Expressions that have a value

An expression that has a value is a constant, a list or a shape, or it is folded, unless it is a
static call of a method that has the name of an aggregate function. What it has for a value follows
from what it is: a list has the items that are written, and a shape is a record, a time or a map. An
expression that is folded is written by the rules for its value. Quotes change none of this.

## Main definitions

* `Value.IsShaped`: what constructors of shapes build
* `Expr.isAggregateCall`: calls that no clause folds
* `Expr.HasValue`: what an expression with a value is

## Main results

* `Expr.hasValue_unquote`
* `Expr.yields_value_of_folded`, `Expr.yields_members_of_folded`
-/

namespace QueryTree

open Emit

/-! ### Shapes -/

namespace Value

/-- What a constructor of a shape builds: a record, a time or a map. -/
def IsShaped (v : Value) : Prop := v.isRecord = true ∨ (∃ x, v.under = time x) ∨
  ∃ k t entries, v = map k t entries

theorem under_of_setField_time {new w : Value} {x : Instant} {i : Nat} {path : List Nat} :
    (v : Value) → v.under = time x → setField new v (i :: path) = some w → w.under = time x
  | named n v, h, hset => by
    rw [setField_named] at hset
    obtain ⟨u, hu, rfl⟩ := Option.map_eq_some_iff.mp hset
    exact under_of_setField_time (w := u) v h hu
  | time x, h, hset => by
    rw [setField_time] at hset
    obtain ⟨f, -, rfl⟩ := Option.map_eq_some_iff.mp hset
    exact h

/-- Whatever is set in it, a shape is left a shape. -/
theorem isShaped_of_setMember {t : Ty} {obj v w : Value} {name : Text} (hobj : obj.IsShaped)
    (h : setMember t obj name v = .ok w) : w.IsShaped := by
  unfold setMember at h
  split at h
  · cases h
  · rename_i f path hm
    obtain ⟨i, path, rfl⟩ := List.exists_cons_of_ne_nil (member?_path_ne_nil hm)
    split at h
    · cases h
    · split at h
      · cases h
      · obtain ⟨new, -, h⟩ := bind_eq_ok.mp h
        split at h
        · rename_i obj' hset
          cases h
          rcases hobj with hobj | ⟨x, hx⟩ | ⟨k, e, entries, rfl⟩
          · exact .inl (isRecord_of_setField obj hobj hset)
          · exact .inr (.inl ⟨x, under_of_setField_time obj hx hset⟩)
          · rw [setField_of_isFlat rfl] at hset
            cases hset
        · cases h

theorem isShaped_zero {t : Option Ty} {u : Ty} (h : recordType? t = some u) : u.zero.IsShaped := by
  obtain ⟨u', -, h⟩ := Option.bind_eq_some_iff.mp h
  have hzero := under_zero u'
  split at h
  · rename_i fs hu
    cases h
    refine .inl ?_
    rw [isRecord, hzero, hu, Ty.zero]
  · rename_i hu
    cases h
    refine .inr (.inl ⟨.zero, ?_⟩)
    rw [hzero, hu]
    rfl
  · cases h

end Value

namespace Expr

variable {pre : Prelude} {e : Expr} {v : Value}

theorem isShaped_of_evalEntries {bs : List (Text × Expr)} {entries : List (MapKey × Value)}
    (h : evalEntries pre entries bs = .ok v) : v.IsShaped := by
  induction bs generalizing entries with
  | nil =>
    cases h
    exact .inr (.inr ⟨_, _, _, rfl⟩)
  | cons b bs ih =>
    obtain ⟨x, -, h⟩ := bind_eq_ok.mp h
    exact ih h

theorem isShaped_of_evalMembers {t : Ty} {bs : List (Text × Expr)} {obj : Value}
    (hobj : obj.IsShaped) (h : evalMembers pre t obj bs = .ok v) : v.IsShaped := by
  induction bs generalizing obj with
  | nil =>
    cases h
    exact hobj
  | cons b bs ih =>
    obtain ⟨x, -, h⟩ := bind_eq_ok.mp h
    obtain ⟨obj', hobj', h⟩ := bind_eq_ok.mp h
    exact ih (Value.isShaped_of_setMember hobj hobj') h

/-- A shape has no items. -/
theorem isShaped_of_eval {t : Option Ty} {bs : List (Text × Expr)}
    (he : e = new t bs ∨ e = init t bs) (h : e.eval pre = .ok v) : v.IsShaped := by
  rcases he with rfl | rfl
  all_goals
    rw [eval] at h
    split at h
    · exact isShaped_of_evalMembers (Value.isShaped_zero ‹_›) h
    · exact isShaped_of_evalEntries h

/-- A list has as many items as are written. -/
theorem length_evalAll {es : List Expr} {vs : List Value} (h : evalAll pre es = .ok vs) :
    vs.length = es.length := by
  induction es generalizing vs with
  | nil =>
    cases h
    rfl
  | cons e es ih =>
    obtain ⟨v, -, h⟩ := bind_eq_ok.mp h
    obtain ⟨ws, hws, h⟩ := bind_eq_ok.mp h
    cases h
    rw [List.length_cons, List.length_cons, ih hws]

theorem length_of_mapM {ε α β : Type} {f : α → Except ε β} {l : List α} {bs : List β}
    (h : l.mapM f = .ok bs) : bs.length = l.length := by
  induction l generalizing bs with
  | nil =>
    cases h
    rfl
  | cons a l ih =>
    rw [List.mapM_cons] at h
    obtain ⟨b, -, h⟩ := bind_eq_ok.mp h
    obtain ⟨cs, hcs, h⟩ := bind_eq_ok.mp h
    cases h
    rw [List.length_cons, List.length_cons, ih hcs]

theorem exists_under_of_sliceOf {t : Option Ty} {vs : List Value}
    (h : Value.sliceOf t vs = .ok v) :
    ∃ elem items, v.under = .slice elem items ∧ items.length = vs.length := by
  unfold Value.sliceOf at h
  split at h
  · cases h
    exact ⟨_, vs, rfl, rfl⟩
  split at h
  · cases h
    exact ⟨_, vs, rfl, rfl⟩
  · obtain ⟨items, hitems, h⟩ := bind_eq_ok.mp h
    cases h
    exact ⟨_, items, Value.under_wrapNames _ _, length_of_mapM hitems⟩
  · cases h
    exact ⟨_, vs, rfl, rfl⟩

/-- A list evaluates to a list of as many items. -/
theorem exists_under_of_eval {t : Option Ty} {es : List Expr}
    (he : e = list t es ∨ e = array t es) (h : e.eval pre = .ok v) :
    ∃ elem items, v.under = .slice elem items ∧ items.length = es.length := by
  have hitems : ∃ vs, evalAll pre es = .ok vs ∧ Value.sliceOf t vs = .ok v := by
    rcases he with rfl | rfl
    · exact bind_eq_ok.mp (by rwa [eval] at h)
    · exact bind_eq_ok.mp (by rwa [eval] at h)
  obtain ⟨vs, hvs, hslice⟩ := hitems
  obtain ⟨elem, items, hv, hlength⟩ := exists_under_of_sliceOf hslice
  exact ⟨elem, items, hv, hlength.trans (length_evalAll hvs)⟩

/-! ### Quotes -/

theorem eval_unquote (e : Expr) : e.unquote.eval pre = e.eval pre := by
  fun_induction unquote e with
  | case1 e t ih =>
    rw [ih, eval]
    exact (bind_pure (eval pre e)).symm
  | case2 => rfl

theorem isClosed_unquote (e : Expr) : e.unquote.isClosed = e.isClosed := by
  fun_induction unquote e with
  | case1 e t ih => rw [ih, isClosed_unary]
  | case2 => rfl

theorem isQuote_unquote (e : Expr) : e.unquote.isQuote = false := by
  fun_induction unquote e with
  | case1 e t ih => exact ih
  | case2 e h =>
    unfold isQuote
    split
    · exact absurd rfl (h _ _)
    · rfl

variable {st : Settings} {inlined : Expr → Rendering} {c : Clause} {s s' : Slate} {t : Text}

theorem members_unquote (e : Expr) :
    (renderWith st inlined e.unquote).members = (renderWith st inlined e).members := by
  fun_induction unquote e with
  | case1 e t ih =>
    rw [ih, renderWith]
    rfl
  | case2 => rfl

theorem value_unquote (e : Expr) :
    (renderWith st inlined e.unquote).value = (renderWith st inlined e).value := by
  fun_induction unquote e with
  | case1 e t ih =>
    rw [ih, renderWith]
    rfl
  | case2 => rfl

/-! ### What has a value -/

/-- Whether the expression, without its quotes, is a static call of a method that has the name of an
aggregate function. No such call is folded. -/
def isAggregateCall (e : Expr) : Bool :=
  match e.unquote with
  | call receiver method _ _ _ => receiver.isHole && isAggregateName method
  | _ => false

/-- What an expression with the value `v` is that is not quoted. -/
inductive HasValue (v : Value) : Expr → Prop
  | hole (h : v = .nil) : HasValue v hole
  | const (t : Option Ty) : HasValue v (const v t)
  | folded {e : Expr} (h : e.isFoldable = true) : HasValue v e
  | items {e : Expr} {t : Option Ty} {es : List Expr} {elem : Ty} {vs : List Value}
      (he : e = list t es ∨ e = array t es) (hv : v.under = .slice elem vs)
      (hlength : vs.length = es.length) : HasValue v e
  | shape {e : Expr} {t : Option Ty} {bs : List (Text × Expr)} (he : e = new t bs ∨ e = init t bs)
      (h : v.IsShaped) : HasValue v e

theorem hasValue_unquote (h : e.eval pre = .ok v) (hcall : e.isAggregateCall = false) :
    HasValue v e.unquote := by
  rw [← eval_unquote] at h
  rw [isAggregateCall] at hcall
  cases hu : e.unquote with
  | hole =>
    rw [hu] at h
    cases h
    exact .hole rfl
  | const x t =>
    rw [hu] at h
    cases h
    exact .const t
  | param | lambda | invoke =>
    rw [hu, eval] at h
    cases h
  | new t bs => exact .shape (.inl rfl) (isShaped_of_eval (.inl hu) h)
  | init t bs => exact .shape (.inr rfl) (isShaped_of_eval (.inr hu) h)
  | list t es =>
    obtain ⟨elem, items, hv, hlength⟩ := exists_under_of_eval (.inl hu) h
    exact .items (.inl rfl) hv hlength
  | array t es =>
    obtain ⟨elem, items, hv, hlength⟩ := exists_under_of_eval (.inr hu) h
    exact .items (.inr rfl) hv hlength
  | member | binary | unary | cond => exact .folded rfl
  | call receiver method args t callee =>
    simp only [hu] at hcall
    exact .folded (by rw [isFoldable, hcall]; rfl)

/-! ### What is folded -/

/-- What has no value does not fold. -/
theorem folded?_of_eval {e : Expr}
    (h : e.isClosed = true → ∃ err, e.eval pre = .error (.error err)) :
    e.folded? pre = .ok none := by
  unfold folded?
  split
  · rename_i hclosed
    obtain ⟨err, he⟩ := h (Bool.and_eq_true_iff.mp hclosed).2
    rw [he]
  · rfl

theorem folded?_unquote (hc : e.isClosed = true) (h : e.eval pre = .ok v)
    (hfold : e.unquote.isFoldable = true) : e.unquote.folded? pre = .ok (some v) := by
  simp [folded?, hfold, isClosed_unquote, hc, eval_unquote, h]

/-- What is folded is written by the rules for its value. -/
theorem yields_members_of_folded (hc : e.isClosed = true) (h : e.eval st.pre = .ok v)
    (hfold : e.unquote.isFoldable = true) :
    Yields (e.render st).members s t s' ↔ Yields (constantMembers st v) s t s' := by
  have hmembers : (e.render st).members = (renderWith st (renderTo st 9999) e).members := rfl
  obtain ⟨value, condition, isTest, addends, heq⟩ := exists_renderWith_eq_scalar st
    (renderTo st 9999) hfold (isQuote_unquote e)
  rw [hmembers, ← members_unquote, heq]
  simp [Rendering.scalar, folded?_unquote hc h hfold]

theorem yields_value_of_folded (hc : e.isClosed = true) (h : e.eval st.pre = .ok v)
    (hfold : e.unquote.isFoldable = true) :
    Yields ((e.render st).value c) s t s' ↔ Yields (constantValue st v) s t s' := by
  have hvalue : (e.render st).value = (renderWith st (renderTo st 9999) e).value := rfl
  obtain ⟨value, condition, isTest, addends, heq⟩ := exists_renderWith_eq_scalar st
    (renderTo st 9999) hfold (isQuote_unquote e)
  rw [hvalue, ← value_unquote, heq]
  simp [Rendering.scalar, folded?_unquote hc h hfold]

end Expr

end QueryTree
