import QueryTree.Proofs.Rendered
import QueryTree.Proofs.Substituted

/-!
# Simulated compilations

One compilation simulates another when both take the same steps from related states, with the
rows of one renamed in the other. An emitter looks at little of its state: at the number of bound
values when it writes a placeholder, at the aliases when it writes a column, and at the declared
type that is pending when it binds a value. The values bound and the items recorded before are only
added to. So a relation of states need only be kept by the few operations that change a state, and
every emitter keeps it.

Whether both write the same text is a part of the simulation. If they do, the related states must
number their placeholders alike and give a row and the renamed row the same alias. If they do not,
the texts may be any, for no emitter decides by a text what to do next.

## Main definitions

* `Simulation`: a relation of states that the operations on states keep
* `CompileError.Renamed`: the same error, but for the parameter it names
* `Simulation.Same`: equal if both write the same text
* `Simulation.Agree`: emitters that run alike from related states

## Main results

* `Simulation.Agree.bind`, `Simulation.agree_mapM`, `Simulation.agree_folding`: the rules
* `Simulation.agree_placeholder`, `Simulation.agree_columnOf`: where the states come in
-/

namespace QueryTree

open Emit

/-- The same error, or one whose cause names another parameter. -/
inductive CompileError.Renamed (r : Renaming) : CompileError → CompileError → Prop
  | same (e : CompileError) : Renamed r e e
  | method (name : Text) (c : Clause) {cause cause' : EvalError} (h : cause.Renamed r cause') :
    Renamed r (.method name c cause) (.method name c cause')
  | row (k : Expr.Kind) {cause cause' : EvalError} (h : cause.Renamed r cause') :
    Renamed r (.rowWithoutValue k cause) (.rowWithoutValue k cause')

/-- If no parameter gets another name, both errors are the same. -/
theorem CompileError.Renamed.eq_of_forall {r : Renaming} {e e' : CompileError} (h : e.Renamed r e')
    (hr : ∀ p, r.apply p = p) : e' = e := by
  cases h with
  | same => rfl
  | method _ _ h | row _ h => rw [h.eq_of_forall hr]

/-- The same reason to stop, but for the parameter it names. -/
inductive Stop.Renamed (r : Renaming) : Stop CompileError → Stop CompileError → Prop
  | error {e e' : CompileError} (h : e.Renamed r e') : Renamed r (.error e) (.error e')
  | fault : Renamed r .fault .fault

theorem Stop.Renamed.refl {r : Renaming} : (x : Stop CompileError) → x.Renamed r x
  | .error e => .error (.same e)
  | .fault => .fault

theorem Stop.Renamed.eq_of_forall {r : Renaming} {x x' : Stop CompileError} (h : x.Renamed r x')
    (hr : ∀ p, r.apply p = p) : x' = x := by
  cases h with
  | error h => rw [h.eq_of_forall hr]
  | fault => rfl

/-- A relation between the states of two compilations, the rows of the first renamed in the second,
that every operation on states keeps. -/
structure Simulation where
  rows : Renaming
  /-- Whether both write the same text. -/
  sameText : Prop
  States : Slate → Slate → Prop
  /-- The declared types in the first for which others may be pending in the second. -/
  Types : Text → Text → Prop
  types_refl : ∀ t, Types t t
  pendingType : ∀ {s s'}, States s s' → Types s.pendingType s'.pendingType
  params_length : ∀ {s s'}, States s s' → sameText → s.params.length = s'.params.length
  set_pending : ∀ {s s'}, States s s' → ∀ {t t'}, Types t t' →
    States { s with pendingType := t } { s' with pendingType := t' }
  bind_value : ∀ {s s'}, States s s' → ∀ p v {t t'}, Types t t' →
    States (s.bindValue p v t).2 (s'.bindValue p v t').2
  add_field : ∀ {s s'}, States s s' → ∀ t t', (sameText → t = t') →
    States { s with fields := s.fields ++ [t] } { s' with fields := s'.fields ++ [t'] }
  bind_row : ∀ {s s'}, States s s' → ∀ p table, rows.Occurs p →
    States { s with aliases := (s.aliases.bind p table).2 }
      { s' with aliases := (s'.aliases.bind (rows.apply p) table).2 }
  alias_eq : ∀ {s s'}, States s s' → ∀ p table, rows.Occurs p → sameText →
    (s.aliases.bind p table).1 = (s'.aliases.bind (rows.apply p) table).1

namespace Simulation

variable {S : Simulation}

/-- Equal, provided that both compilations write the same text. -/
def Same (S : Simulation) {α : Type} (a b : α) : Prop := S.sameText → a = b

theorem Same.rfl {α : Type} {a : α} : S.Same a a := fun _ => Eq.refl a

/-- What is made of equal texts is equal. -/
theorem Same.map {α β : Type} {a b : α} (h : S.Same a b) (f : α → β) : S.Same (f a) (f b) :=
  fun hex => congrArg f (h hex)

theorem Same.map₂ {α β γ : Type} {a a' : α} {b b' : β} (h : S.Same a a') (h' : S.Same b b')
    (f : α → β → γ) : S.Same (f a b) (f a' b') :=
  fun hex => congr (congrArg f (h hex)) (h' hex)

/-- Lists are the same if their members are. -/
theorem same_of_forall₂ {α : Type} {l l' : List α} (h : List.Forall₂ S.Same l l') : S.Same l l' :=
  fun hex => List.forall₂_eq_eq_eq ▸ h.imp fun _ _ h => h hex

/-! ### Emitters that agree

Agreement says what both runs come to: a stop for the same reason, or related results in related
states. The rules below are those of the monad. -/

section Runs

variable {α β γ δ : Type} {R : α → β → Prop} {Q : γ → δ → Prop}

/-- Both runs stop for the same reason but for a parameter's name, or both return related results in
related states. -/
inductive Runs (S : Simulation) (R : α → β → Prop) :
    Except Halt α × Slate → Except Halt β × Slate → Prop
  | stopped {h h' : Halt} {s s' : Slate} (hc : h.cause.Renamed S.rows h'.cause) :
    Runs S R (.error h, s) (.error h', s')
  | returned {a : α} {b : β} {s s' : Slate} (h : R a b) (hs : S.States s s') :
    Runs S R (.ok a, s) (.ok b, s')

/-- From related states, the emitters run alike. -/
def Agree (S : Simulation) (R : α → β → Prop) (m : Emit α) (m' : Emit β) : Prop :=
  ∀ s s', S.States s s' → S.Runs R (result m s) (result m' s')

theorem agree_pure {a : α} {b : β} (h : R a b) : S.Agree R (pure a) (pure b) :=
  fun _ _ hs => .returned h hs

/-- The text written before a stop plays no part. -/
theorem agree_throw {h h' : Halt} (hc : h.cause.Renamed S.rows h'.cause) :
    S.Agree R (throw h) (throw h') :=
  fun _ _ _ => .stopped hc

/-- An error may name another parameter in the second compilation. -/
theorem agree_failRenamed {e e' : CompileError} (h : e.Renamed S.rows e') :
    S.Agree R (fail e) (fail e') := agree_throw (.error h)

theorem agree_fail (e : CompileError) : S.Agree R (fail e) (fail e) := agree_failRenamed (.same e)

theorem agree_fault : S.Agree R fault fault := agree_throw .fault

/-- The second parts start from related states with related results. -/
theorem Agree.bind {m : Emit α} {m' : Emit β} {f : α → Emit γ} {f' : β → Emit δ}
    (h : S.Agree R m m') (hf : ∀ a b, R a b → S.Agree Q (f a) (f' b)) :
    S.Agree Q (m >>= f) (m' >>= f') := by
  intro s s' hs
  have hm := h s s' hs
  rw [result_bind, result_bind]
  generalize result m s = x, result m' s' = y at hm
  cases hm with
  | stopped hc => exact .stopped hc
  | returned hab hs => exact hf _ _ hab _ _ hs

/-- A handler that stops again for the same reason changes nothing. -/
theorem Agree.tryCatch {m : Emit α} {m' : Emit β} {f : Halt → Emit α} {f' : Halt → Emit β}
    (h : S.Agree R m m') (hf : ∀ h h' : Halt, h.cause.Renamed S.rows h'.cause → ∀ s s',
      S.Runs R (result (f h) s) (result (f' h') s')) :
    S.Agree R (tryCatch m f) (tryCatch m' f') := by
  intro s s' hs
  have hm := h s s' hs
  rw [result_tryCatch, result_tryCatch]
  generalize result m s = x, result m' s' = y at hm
  cases hm with
  | stopped hc => exact hf _ _ hc _ _
  | returned hab hs => exact .returned hab hs

/-- What is written in front may differ, since it is seen in stops alone. -/
theorem Agree.after {m : Emit α} {m' : Emit β} (h : S.Agree R m m') (t t' : Text) :
    S.Agree R (after t m) (after t' m') :=
  h.tryCatch fun _ _ hc _ _ => .stopped hc

/-- An attempt looks at no state. -/
theorem agree_ofAttempt {x : Attempt CompileError α} {y : Attempt CompileError β}
    (h : x.Relates (CompileError.Renamed S.rows) R y) :
    S.Agree R (ofAttempt x) (ofAttempt y) := by
  cases h with
  | failed h => exact agree_throw (.error h)
  | faulted => exact agree_throw .fault
  | returned h => exact agree_pure h

theorem agree_ofExcept (x : Except CompileError α) :
    S.Agree (· = ·) (ofExcept x) (ofExcept x) := by
  cases x with
  | error e => exact agree_fail e
  | ok a => exact agree_pure rfl

/-- Lists of emitters agree when their members do, whose results are then related one by one. -/
theorem agree_mapM {f : α → Emit γ} {f' : β → Emit δ} {l : List α} {l' : List β}
    (h : List.Forall₂ R l l') (hf : ∀ a b, R a b → S.Agree Q (f a) (f' b)) :
    S.Agree (List.Forall₂ Q) (l.mapM f) (l'.mapM f') := by
  induction h with
  | nil => exact agree_pure .nil
  | cons hab _ ih =>
    rw [List.mapM_cons, List.mapM_cons]
    exact (hf _ _ hab).bind fun _ _ hc => ih.bind fun _ _ hcs => agree_pure (.cons hc hcs)

/-- Both expressions have the same kind, and the error names no more than that. -/
theorem agree_unsupported {e e' : Expr} (h : e'.kind? = e.kind?) (c : Clause) :
    S.Agree R (unsupported e c) (unsupported e' c) := by
  unfold Emit.unsupported
  rw [h]
  split
  · exact agree_fail _
  · exact agree_fault

end Runs

/-! ### The state

The operations on states come in here and nowhere else. For each of them the simulation has the
field that says it keeps the relation. -/

/-- A change of the state is an emitter that agrees if it keeps the relation. -/
theorem agree_modify {f f' : Slate → Slate} (h : ∀ s s', S.States s s' → S.States (f s) (f' s')) :
    S.Agree (· = ·) (modify f : Emit PUnit) (modify f') :=
  fun s s' hs => .returned rfl (h s s' hs)

theorem agree_setPending {t t' : Text} (h : S.Types t t') :
    S.Agree (· = ·) (setPending t) (setPending t') :=
  agree_modify fun _ _ hs => S.set_pending hs h

theorem agree_addField {t t' : Text} (h : S.Same t t') :
    S.Agree (· = ·) (addField t) (addField t') :=
  agree_modify fun _ _ hs => S.add_field hs t t' h

/-- A declared type that does not depend on the state is pending in both. -/
theorem agree_settle (t : Text) : S.Agree (· = ·) (setPending t) (setPending t) :=
  agree_setPending (S.types_refl t)

/-- The pending types may differ, within what the relation allows. -/
theorem agree_pending : S.Agree S.Types pending pending :=
  fun _ _ hs => .returned (S.pendingType hs) hs

variable {st : Settings}

/-- The placeholder has the number of values bound so far, which is the same if both write the same
text. -/
theorem agree_placeholder (v : Value) {t t' : Text} (h : S.Types t t') :
    S.Agree S.Same (placeholder st v t) (placeholder st v t') := by
  intro s s' hs
  rw [placeholder, placeholder, result_modifyGet, result_modifyGet]
  refine .returned (fun hex => ?_) (S.bind_value hs st.profile v h)
  simp only [Slate.bindValue, List.length_append, S.params_length hs hex, List.length_singleton]

/-- A row and the renamed row have the same entity, for they have the same type. -/
theorem agree_row {p : Param} (hp : S.rows.Occurs p) :
    S.Agree (fun a b => a.1 = b.1 ∧ S.Same a.2 b.2) (row st p) (row st (S.rows.apply p)) := by
  intro s s' hs
  rw [row, row, result_bind, result_bind, result_modifyGet, result_modifyGet]
  simp only [Slate.bindRow, S.rows.type_apply]
  cases st.entityOf p.type with
  | error e => exact agree_fail _ s s' hs
  | ok e =>
    have hsame : S.Same (s.aliases.bind p e.table).1 (s'.aliases.bind (S.rows.apply p) e.table).1 :=
      S.alias_eq hs p e.table hp
    exact .returned ⟨rfl, hsame⟩ (S.bind_row hs p e.table hp)

/-- The alias is that of the renamed row; the column is found by its member. -/
theorem agree_column {p : Param} (hp : S.rows.Occurs p) (member : Text) :
    S.Agree (fun a b => S.Same a.1 b.1 ∧ a.2 = b.2) (column st p member)
      (column st (S.rows.apply p) member) := by
  refine (agree_row hp).bind ?_
  rintro ⟨e, name⟩ ⟨_, name'⟩ ⟨rfl, hname⟩
  dsimp only
  split
  · exact agree_fail _
  · split
    · exact agree_pure ⟨.rfl, rfl⟩
    · exact agree_pure ⟨hname.map fun a => st.ident a ++ "." ++ st.ident _, rfl⟩

/-! ### Texts put together

Emitters that put texts together agree when their parts do. The relation of the texts is all that
has to be carried along. -/

section Texts

variable {l l' r r' m m' : Emit Text}

/-- Text around what agrees may be any, as long as it is the same. -/
theorem Agree.enclose (h : S.Agree S.Same m m') (x y : Text) :
    S.Agree S.Same (Emit.enclose x m y) (Emit.enclose x m' y) :=
  (h.after x x).bind fun _ _ ht => agree_pure (ht.map fun t => x ++ t ++ y)

theorem Agree.join (hl : S.Agree S.Same l l') (hr : S.Agree S.Same r r') (t : Text) :
    S.Agree S.Same (Emit.join l t r) (Emit.join l' t r') :=
  hl.bind fun _ _ ha => (hr.after _ _).bind fun _ _ hb =>
    agree_pure (ha.map₂ hb fun a b => a ++ t ++ b)

theorem Agree.stated (h : S.Agree S.Same m m') : S.Agree S.Same (stated m) (stated m') :=
  h.bind fun _ _ ht => agree_pure (ht.map fun t => if t.isEmpty then ("1 = 1" : Text) else t)

theorem Agree.grouped (h : S.Agree S.Same m m') (parens : Bool) :
    S.Agree S.Same (grouped parens m) (grouped parens m') := by
  cases parens with
  | true => exact h.enclose _ _
  | false => exact h

theorem Agree.groupedCondition (h : S.Agree S.Same m m') (parens : Bool) :
    S.Agree S.Same (groupedCondition parens m) (groupedCondition parens m') := by
  cases parens with
  | false => exact h
  | true =>
    exact (h.after _ _).bind fun _ _ ht =>
      agree_pure (ht.map fun t => if t.isEmpty then ([] : Text) else "(" ++ t ++ ")")

/-- An empty side is empty in both, if both write the same text; otherwise the text may be any. -/
theorem Agree.joined (hl : S.Agree S.Same l l') (hr : S.Agree S.Same r r') (token : Text) :
    S.Agree S.Same (Emit.joined token l r) (Emit.joined token l' r') :=
  hl.bind fun _ _ ha => (hr.after _ _).bind fun _ _ hb => agree_pure
    (ha.map₂ hb fun a b => if a.isEmpty || b.isEmpty then a ++ b else a ++ token ++ b)

theorem Agree.negated (h : S.Agree S.Same m m') (isNegated : Bool) :
    S.Agree S.Same (negated isNegated m) (negated isNegated m') :=
  h.bind fun _ _ ht => agree_pure
    (ht.map fun t => if !isNegated then t else if t.isEmpty then "1 = 0" else Sql.negate t)

/-- A null on the right changes the token in both. -/
theorem Agree.compared (hl : S.Agree S.Same l l') (hr : S.Agree S.Same r r') (op : BinaryOp) :
    S.Agree S.Same (compared op l r) (compared op l' r') := by
  refine hl.bind fun a a' ha => (hr.after _ _).bind fun b b' hb =>
    (agree_settle []).bind fun _ _ _ => agree_pure (fun hex => ?_)
  rw [ha hex, hb hex]

theorem Agree.truthCase (h : S.Agree S.Same m m') : S.Agree S.Same (truthCase m) (truthCase m') :=
  h.stated.enclose _ _

theorem agree_concat {ms ms' : List (Emit Text)} (h : List.Forall₂ (S.Agree S.Same) ms ms') :
    S.Agree S.Same (concat ms) (concat ms') := by
  induction h with
  | nil => exact agree_pure .rfl
  | cons hm _ ih => exact hm.join ih []

/-- Texts joined by a separator from the left. -/
theorem agree_foldl_join {ms ms' : List (Emit Text)} (h : List.Forall₂ (S.Agree S.Same) ms ms')
    {first first' : Emit Text} (hfirst : S.Agree S.Same first first') (sep : Text) :
    S.Agree S.Same (ms.foldl (fun done m => Emit.join done sep m) first)
      (ms'.foldl (fun done m => Emit.join done sep m) first') := by
  induction h generalizing first first' with
  | nil => exact hfirst
  | cons hm _ ih => exact ih (hfirst.join hm sep)

/-- The separator stands between members only, so the first one is taken by itself. -/
theorem agree_separated (sep : Text) {ms ms' : List (Emit Text)}
    (h : List.Forall₂ (S.Agree S.Same) ms ms') :
    S.Agree S.Same (separated sep ms) (separated sep ms') := by
  induction h with
  | nil => exact agree_pure .rfl
  | cons hm hms ih =>
    cases hms with
    | nil => exact hm
    | cons _ _ => exact hm.join ih sep

end Texts

/-! ### Columns

A column refers to a row, which is the one thing that renaming changes. Only rows that the renaming
is meant for may occur. -/

/-- The row of a column is a parameter that may be renamed; its length is found below it. -/
theorem agree_columnOf (c : Clause) {e : Expr} (h : S.rows.Admits e) :
    S.Agree S.Same (columnOf st c e) (columnOf st c (e.rename S.rows)) := by
  fun_induction columnOf st c e with
  | case1 p name _ _ =>
    simp only [Renaming.admits_member, Renaming.admits_param] at h
    rw [Expr.rename, Expr.rename, columnOf]
    refine (agree_column h name).bind ?_
    rintro ⟨a, c⟩ ⟨b, _⟩ ⟨hab, rfl⟩
    exact (agree_settle c.dataType).bind fun _ _ _ => agree_pure hab
  | case2 e n t o name _ _ hlength column ih =>
    rw [Expr.rename, Expr.rename, columnOf, if_pos hlength]
    rw [Renaming.admits_member] at h
    exact ((ih h).enclose _ _).bind fun _ _ ht =>
      (agree_settle []).bind fun _ _ _ => agree_pure ht
  | case3 e n t o name _ _ hlength =>
    rw [Expr.rename, Expr.rename, columnOf, if_neg hlength]
    exact agree_fail _
  | case4 e hrow hlength =>
    -- the renamed expression is no column either, for it has the same shape
    have other : columnOf st c (e.rename S.rows) = unsupported (e.rename S.rows) c := by
      cases e with
      | member e name t o =>
        cases e with
        | param p => exact absurd rfl (hrow p _ _ _)
        | member => exact absurd rfl (hlength _ _ _ _ _ _ _)
        | _ => simp only [Expr.rename, columnOf]
      | _ => simp only [Expr.rename, columnOf]
    rw [other]
    exact agree_unsupported (Expr.kind?_rename e) c

/-! ### Constants

A constant is the same in both compilations. What it emits may still differ, by the numbers of its
placeholders and the declared types they take. -/

/-- Constants have no rows, so the second compilation has the same ones. -/
theorem agree_constantValue (v : Value) :
    S.Agree S.Same (constantValue st v) (constantValue st v) := by
  unfold constantValue
  split
  · exact agree_pure .rfl
  · exact agree_placeholder v (S.types_refl [])

theorem agree_constantCondition (v : Value) (c : Clause) :
    S.Agree S.Same (constantCondition v c) (constantCondition v c) := by
  unfold constantCondition
  split
  · exact agree_pure .rfl
  · exact agree_pure .rfl
  · exact agree_fail _

theorem agree_placeholders {t t' : Text} (h : S.Types t t') (vs : List Value) :
    S.Agree S.Same (placeholders st t vs) (placeholders st t' vs) :=
  (agree_mapM (R := (· = ·)) (List.forall₂_refl vs) fun _ _ hv => hv ▸ agree_placeholder _ h).bind
    fun _ _ hts => agree_pure ((same_of_forall₂ hts).map (Text.join ","))

/-- All members of a list are bound with the type that is pending at its start. -/
theorem agree_constantMembers (v : Value) :
    S.Agree S.Same (constantMembers st v) (constantMembers st v) := by
  unfold constantMembers
  split
  · exact agree_pure .rfl
  · split
    · split
      · exact agree_fault
      · exact agree_pure .rfl
      · rename_i items _ _
        refine agree_pending.bind fun t t' ht => ?_
        exact (agree_placeholders ht items).bind fun _ _ ht =>
          agree_pure (ht.map fun t => "(" ++ t ++ ")")
    · exact (agree_placeholder v (S.types_refl [])).bind fun _ _ ht =>
        agree_pure (ht.map fun t => "(" ++ t ++ ")")

theorem agree_constantArgument (v : Value) (c : Clause) :
    S.Agree S.Same (constantArgument st v c) (constantArgument st v c) := by
  unfold constantArgument
  split
  · split
    · exact agree_pure .rfl
    · exact agree_fail _
  · split
    · refine (agree_ofExcept _).bind fun items _ h => ?_
      rw [← h]
      split
      · exact agree_pure .rfl
      · exact agree_fail _
    · exact agree_constantValue _

/-- Whether an item gets its name depends on its text, which is the same if both write the same
text. -/
theorem agree_selectItem {m m' : Emit Text} (h : S.Agree S.Same m m') (name : Text) :
    S.Agree S.Same (selectItem st m name) (selectItem st m' name) := by
  refine h.bind fun t t' ht => (agree_settle []).bind fun _ _ _ => ?_
  let item (t : Text) : Text :=
    if !name.isEmpty && selectItem.bareColumn t ≠ name then t ++ " AS " ++ st.ident name else t
  have hitem : S.Same (item t) (item t') := ht.map item
  exact (agree_addField hitem).bind fun _ _ _ => agree_pure (hitem.map (· ++ itemSeparator))

/-- Items that are raw text are recorded as they are. -/
theorem agree_rawFields (items : List Text) :
    S.Agree S.Same (rawFields items) (rawFields items) := by
  have fields : S.Agree (fun _ _ => True) (items.forM addField) (items.forM addField) := by
    induction items with
    | nil => exact agree_pure trivial
    | cons t items ih =>
      rw [List.forM]
      exact (agree_addField .rfl).bind fun _ _ _ => ih
  exact fields.bind fun _ _ _ => agree_pure .rfl

theorem agree_constantProjection (v : Value) :
    S.Agree S.Same (constantProjection st v) (constantProjection st v) := by
  rw [constantProjection.eq_def]
  split
  · refine (agree_ofExcept _).bind fun items _ h => ?_
    rw [← h]
    exact agree_rawFields items
  · exact agree_selectItem (agree_constantValue _) []

/-- Lists that leave the same directions to the items still to come. -/
abbrev AgreeListings (S : Simulation) (m m' : Emit (Text × List Direction)) : Prop :=
  S.Agree (fun a b => S.Same a.1 b.1 ∧ a.2 = b.2) m m'

/-- The directions that one list leaves are those that the next one takes. -/
theorem agree_listings {ms ms' : List (List Direction → Emit (Text × List Direction))}
    (h : List.Forall₂ (fun m m' => ∀ ds, S.AgreeListings (m ds) (m' ds)) ms ms')
    (ds : List Direction) : S.AgreeListings (listings ms ds) (listings ms' ds) := by
  induction h generalizing ds with
  | nil => exact agree_pure ⟨.rfl, rfl⟩
  | cons hm _ ih =>
    rw [listings, listings]
    refine (hm ds).bind ?_
    rintro ⟨t, ds⟩ ⟨t', _⟩ ⟨ht, rfl⟩
    refine ((ih ds).after t t').bind ?_
    rintro ⟨u, ds⟩ ⟨u', _⟩ ⟨hu, rfl⟩
    exact agree_pure ⟨ht.map₂ hu (· ++ ·), rfl⟩

theorem agree_rawList (c : Clause) (t : Text) (ds : List Direction) :
    S.AgreeListings (rawList c t ds) (rawList c t ds) := by
  refine (agree_ofExcept _).bind fun items _ h => ?_
  rw [← h]
  exact agree_pure ⟨.rfl, rfl⟩

theorem agree_constantListing (v : Value) (c : Clause) (ds : List Direction) :
    S.AgreeListings (constantListing v c ds) (constantListing v c ds) := by
  rw [constantListing.eq_def]
  split
  · exact agree_rawList c _ ds
  · exact agree_pure ⟨.rfl, rfl⟩
  · refine agree_listings (List.forall₂_same.mpr ?_) ds
    intro m hm ds
    obtain ⟨v, -, rfl⟩ := List.mem_map.mp hm
    split
    · exact agree_rawList c _ ds
    · exact agree_fault
  · exact agree_fail _

/-! ### Folding and calls

An expression that is worked out when it is compiled. Its value is the same after renaming, and
where there is none, the errors tell of the same parameter under two names. -/

/-- What depends on no row is folded to the same constant, and nothing else is folded. -/
theorem agree_folding {α β : Type} {R : α → β → Prop} (e : Expr) {constant : Value → Emit α}
    {constant' : Value → Emit β} {own : Emit α} {own' : Emit β}
    (hc : ∀ v, S.Agree R (constant v) (constant' v)) (ho : S.Agree R own own') :
    S.Agree R (folding st e constant own)
      (folding st (e.rename S.rows) constant' own') := by
  unfold folding
  rw [Expr.folded?_rename]
  have hfolded : S.Agree (· = ·) (ofAttempt (e.folded? st.pre).widen) _ :=
    agree_ofAttempt (.refl .same (fun _ => rfl) _)
  refine hfolded.bind fun v? _ hv => ?_
  rw [← hv]
  cases v? with
  | some v => exact hc v
  | none => exact ho

/-- A call that is computed has the same value, or fails with an error that names the renamed
parameter. -/
theorem agree_calledValue {R : Text → Text → Prop} (e : Expr) (method : Text) (c : Clause)
    {constant constant' : Value → Emit Text} (h : ∀ v, S.Agree R (constant v) (constant' v)) :
    S.Agree R (Rendering.calledValue st e method c constant)
      (Rendering.calledValue st (e.rename S.rows) method c constant') := by
  have heval : EvaluateAlike S.rows (e.eval st.pre) ((e.rename S.rows).eval st.pre) :=
    Expr.eval_rename st.pre e
  rw [Rendering.calledValue, Rendering.calledValue]
  generalize e.eval st.pre = x, (e.rename S.rows).eval st.pre = y at heval
  cases heval with
  | failed h => exact agree_failRenamed (.method method c h)
  | faulted => exact agree_fault
  | returned hab =>
    subst hab
    exact h _

end Simulation

end QueryTree
