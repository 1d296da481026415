import QueryTree.Proofs.Rendered
import QueryTree.Proofs.Variation

/-!
# Two runs side by side

The compiler looks at what it has emitted: whether a condition has a text, whether a value reads
`NULL`. So two compilations that differ in their dialect, or in strings among the constants, take
the same decisions only as long as their texts agree on such questions. Values agree when they are
the same text, or when the dialects differ and both have a byte that `NULL` has not; conditions
agree when they are the same text, or when the dialects differ and both have one. With one dialect,
to agree is to be equal, which is why one theory serves both kinds of difference.

Two emitters agree when from agreeing states they stop for the same cause, or return agreeing
results in agreeing states. Every way of building an emitter has one rule here.

## Main definitions

* `Pairing`: what two compilations may differ in
* `Pairing.Values`, `Pairing.Conditions`, `Pairing.Slates`: texts and states that agree
* `Pairing.Agree`: emitters that agree

## Main results

* `Pairing.Agree.bind`, `Pairing.agree_mapM`, `Pairing.agree_folding`: the rules
* `Pairing.agree_placeholder`, `Pairing.agree_column`: where the dialects come in
-/

namespace QueryTree

open Emit

/-- The settings with another dialect. -/
def Settings.withDialect (st : Settings) (d : Dialect) : Settings := { st with dialect := d }

theorem Settings.entityOf_withDialect (st : Settings) (d : Dialect) (t : Option Ty) :
    (st.withDialect d).entityOf t = st.entityOf t := rfl

/-! ### Steps that may fail

The results of two steps are related, or both steps fail with the same error. -/

/-- Both fail with the same error, or both succeed with related results. -/
inductive Outcomes {ε α β : Type} (R : α → β → Prop) : Except ε α → Except ε β → Prop
  | failed (e : ε) : Outcomes R (.error e) (.error e)
  | returned {a : α} {b : β} (h : R a b) : Outcomes R (.ok a) (.ok b)

namespace Outcomes

variable {ε α β γ δ : Type} {R : α → β → Prop} {S : γ → δ → Prop}

theorem refl {R : α → α → Prop} (h : ∀ a, R a a) (x : Except ε α) : Outcomes R x x := by
  cases x with
  | error e => exact .failed e
  | ok a => exact .returned (h a)

theorem mono {R' : α → β → Prop} {x : Except ε α} {y : Except ε β} (h : Outcomes R x y)
    (hR : ∀ a b, R a b → R' a b) : Outcomes R' x y := by
  cases h with
  | failed e => exact .failed e
  | returned h => exact .returned (hR _ _ h)

theorem bind {x : Except ε α} {y : Except ε β} {f : α → Except ε γ} {g : β → Except ε δ}
    (h : Outcomes R x y) (hf : ∀ a b, R a b → Outcomes S (f a) (g b)) :
    Outcomes S (x >>= f) (y >>= g) := by
  cases h with
  | failed e => exact .failed e
  | returned h => exact hf _ _ h

theorem map {f : α → γ} {g : β → δ} {x : Except ε α} {y : Except ε β} (h : Outcomes R x y)
    (hf : ∀ a b, R a b → S (f a) (g b)) : Outcomes S (x.map f) (y.map g) := by
  cases h with
  | failed e => exact .failed e
  | returned h => exact .returned (hf _ _ h)

theorem mapM {f : α → Except ε γ} {g : β → Except ε δ} {l : List α} {l' : List β}
    (h : List.Forall₂ R l l') (hf : ∀ a b, R a b → Outcomes S (f a) (g b)) :
    Outcomes (List.Forall₂ S) (l.mapM f) (l'.mapM g) := by
  induction h with
  | nil => exact .returned .nil
  | cons hab _ ih =>
    rw [List.mapM_cons, List.mapM_cons]
    exact (hf _ _ hab).bind fun _ _ hc => ih.bind fun _ _ hcs => .returned (.cons hc hcs)

end Outcomes

/-! ### What agrees

A text that exceeds `NULL` is not `NULL`, and it is not empty. This is all that the compiler asks of
the texts that dialects write in their own ways. -/

/-- What two compilations may differ in: their dialects, and strings among the constants. -/
structure Pairing where
  left : Dialect
  right : Dialect
  /-- The strings of the first that stand for strings of the second. -/
  strings : Text → Text → Prop

/-- The settings of the first compilation. -/
abbrev Pairing.first (P : Pairing) (st : Settings) : Settings := st.withDialect P.left

/-- The settings of the second compilation. -/
abbrev Pairing.second (P : Pairing) (st : Settings) : Settings := st.withDialect P.right

/-- The text has a byte that the word `NULL` has not. -/
def Text.ExceedsNull (t : Text) : Prop := ∃ b ∈ t, b ∉ ("NULL" : Text)

theorem Text.ExceedsNull.append_left {t : Text} (h : t.ExceedsNull) (u : Text) :
    Text.ExceedsNull (u ++ t) := by
  obtain ⟨b, hb, hn⟩ := h
  exact ⟨b, List.mem_append_right u hb, hn⟩

theorem Text.ExceedsNull.append_right {t : Text} (h : t.ExceedsNull) (u : Text) :
    Text.ExceedsNull (t ++ u) := by
  obtain ⟨b, hb, hn⟩ := h
  exact ⟨b, List.mem_append_left u hb, hn⟩

theorem Text.exceedsNull_cons {b : UInt8} (h : b ∉ ("NULL" : Text)) (t : Text) :
    Text.ExceedsNull (b :: t) :=
  ⟨b, List.mem_cons_self, h⟩

theorem Text.ExceedsNull.ne_null {t : Text} (h : t.ExceedsNull) : t ≠ ("NULL" : Text) := by
  rintro rfl
  obtain ⟨b, hb, hn⟩ := h
  exact hn hb

theorem Text.ExceedsNull.ne_nil {t : Text} (h : t.ExceedsNull) : t ≠ [] := by
  rintro rfl
  obtain ⟨b, hb, -⟩ := h
  cases hb

/-- The same value but for its strings, and the same declared type. -/
structure Bound.Varies (D : Text → Text → Prop) (b b' : Bound) : Prop where
  value : b.value.Varies D b'.value
  dataType : b.dataType = b'.dataType

namespace Pairing

variable {P : Pairing}

/-- Texts of values that agree: none tells apart what the compiler asks of a value. -/
inductive Values (P : Pairing) : Text → Text → Prop
  | same (t : Text) : Values P t t
  | apart {t t' : Text} (h : P.left ≠ P.right) (ht : t.ExceedsNull) (ht' : t'.ExceedsNull) :
    Values P t t'

/-- Texts of conditions that agree. -/
inductive Conditions (P : Pairing) : Text → Text → Prop
  | same (t : Text) : Conditions P t t
  | apart {t t' : Text} (h : P.left ≠ P.right) (ht : t ≠ []) (ht' : t' ≠ []) : Conditions P t t'

/-- States that agree: they hold the same aliases, and as many fields and bound values. -/
structure Slates (P : Pairing) (s s' : Slate) : Prop where
  params : List.Forall₂ (Bound.Varies P.strings) s.params s'.params
  fields : s.fields.length = s'.fields.length
  aliases : s.aliases = s'.aliases
  pending : s.pendingType = s'.pendingType

/-- Both compilations begin with the same state. -/
theorem slates_empty : P.Slates .empty .empty := ⟨.nil, rfl, rfl, rfl⟩

namespace Values

variable {t t' u u' : Text}

theorem append (h : P.Values t t') (hu : P.Values u u') : P.Values (t ++ u) (t' ++ u') := by
  cases h with
  | same =>
    cases hu with
    | same => exact .same _
    | apart hd ht ht' => exact .apart hd (ht.append_left _) (ht'.append_left _)
  | apart hd ht ht' => exact .apart hd (ht.append_right _) (ht'.append_right _)

theorem eq_null_iff (h : P.Values t t') : t = ("NULL" : Text) ↔ t' = ("NULL" : Text) := by
  cases h with
  | same => exact Iff.rfl
  | apart _ ht ht' => exact iff_of_false ht.ne_null ht'.ne_null

theorem conditions (h : P.Values t t') : P.Conditions t t' := by
  cases h with
  | same => exact .same _
  | apart hd ht ht' => exact .apart hd ht.ne_nil ht'.ne_nil

/-- What a dialect writes in its own way agrees if it exceeds `NULL` in each. -/
theorem of_dialect {f : Dialect → Text} (h : ∀ d, (f d).ExceedsNull) :
    P.Values (f P.left) (f P.right) := by
  by_cases hd : P.left = P.right
  · rw [hd]
    exact .same _
  · exact .apart hd (h _) (h _)

end Values

namespace Conditions

variable {t t' u u' : Text}

theorem isEmpty (h : P.Conditions t t') : t.isEmpty = t'.isEmpty := by
  cases h with
  | same => rfl
  | apart _ ht ht' => rw [List.isEmpty_eq_false_iff.mpr ht, List.isEmpty_eq_false_iff.mpr ht']

theorem eq_nil_iff (h : P.Conditions t t') : t = [] ↔ t' = [] := by
  rw [← List.isEmpty_iff, ← List.isEmpty_iff, h.isEmpty]

/-- A text made from a condition agrees with its counterpart if it stays one with a text. -/
theorem map {f : Text → Text} (h : P.Conditions t t') (hf : ∀ t, t ≠ [] → f t ≠ []) :
    P.Conditions (f t) (f t') := by
  cases h with
  | same => exact .same _
  | apart hd ht ht' => exact .apart hd (hf _ ht) (hf _ ht')

theorem append (h : P.Conditions t t') (hu : P.Conditions u u') :
    P.Conditions (t ++ u) (t' ++ u') := by
  cases h with
  | same =>
    cases hu with
    | same => exact .same _
    | apart hd ht ht' => exact .apart hd (by simp [ht]) (by simp [ht'])
  | apart hd ht ht' => exact .apart hd (by simp [ht]) (by simp [ht'])

end Conditions

/-! ### Emitters that agree

The rules are those of the monad. Results are related by any relation, since emitters return rows,
columns and directions besides texts. -/

section Runs

variable {α β γ δ : Type} {R : α → β → Prop} {S : γ → δ → Prop}

/-- Both runs stop for the same cause, or both return related results in agreeing states. -/
inductive Runs (P : Pairing) (R : α → β → Prop) :
    Except Halt α × Slate → Except Halt β × Slate → Prop
  | stopped {h h' : Halt} {s s' : Slate} (hc : h.cause = h'.cause) :
    Runs P R (.error h, s) (.error h', s')
  | returned {a : α} {b : β} {s s' : Slate} (h : R a b) (hs : P.Slates s s') :
    Runs P R (.ok a, s) (.ok b, s')

/-- From agreeing states, the emitters run alike. -/
def Agree (P : Pairing) (R : α → β → Prop) (m : Emit α) (m' : Emit β) : Prop :=
  ∀ s s', P.Slates s s' → P.Runs R (result m s) (result m' s')

theorem agree_pure {a : α} {b : β} (h : R a b) : P.Agree R (pure a) (pure b) :=
  fun _ _ hs => .returned h hs

/-- Only the cause of a stop is compared, and not what had been written. -/
theorem agree_throw {h h' : Halt} (hc : h.cause = h'.cause) : P.Agree R (throw h) (throw h') :=
  fun _ _ _ => .stopped hc

theorem agree_fail (e : CompileError) : P.Agree R (fail e) (fail e) := agree_throw rfl

theorem agree_fault : P.Agree R fault fault := agree_throw rfl

theorem Runs.mono {R' : α → β → Prop} {x : Except Halt α × Slate} {y : Except Halt β × Slate}
    (h : P.Runs R x y) (hR : ∀ a b, R a b → R' a b) : P.Runs R' x y := by
  cases h with
  | stopped hc => exact .stopped hc
  | returned hab hs => exact .returned (hR _ _ hab) hs

/-- What the results are related by may be weakened. -/
theorem Agree.mono {R' : α → β → Prop} {m : Emit α} {m' : Emit β} (h : P.Agree R m m')
    (hR : ∀ a b, R a b → R' a b) : P.Agree R' m m' :=
  fun s s' hs => (h s s' hs).mono hR

/-- The second parts are run in agreeing states, with related results. -/
theorem Agree.bind {m : Emit α} {m' : Emit β} {f : α → Emit γ} {f' : β → Emit δ}
    (h : P.Agree R m m') (hf : ∀ a b, R a b → P.Agree S (f a) (f' b)) :
    P.Agree S (m >>= f) (m' >>= f') := by
  intro s s' hs
  have hm := h s s' hs
  rw [result_bind, result_bind]
  generalize result m s = x, result m' s' = y at hm
  cases hm with
  | stopped hc => exact .stopped hc
  | returned hab hs => exact hf _ _ hab _ _ hs

/-- A handler that stops again for the same cause changes nothing. -/
theorem Agree.tryCatch {m : Emit α} {m' : Emit β} {f : Halt → Emit α} {f' : Halt → Emit β}
    (h : P.Agree R m m') (hf : ∀ h h' : Halt, h.cause = h'.cause → ∀ s s',
      P.Runs R (result (f h) s) (result (f' h') s')) :
    P.Agree R (tryCatch m f) (tryCatch m' f') := by
  intro s s' hs
  have hm := h s s' hs
  rw [result_tryCatch, result_tryCatch]
  generalize result m s = x, result m' s' = y at hm
  cases hm with
  | stopped hc => exact hf _ _ hc _ _
  | returned hab hs => exact .returned hab hs

theorem Agree.after {m : Emit α} {m' : Emit β} (h : P.Agree R m m') (t t' : Text) :
    P.Agree R (after t m) (after t' m') :=
  h.tryCatch fun _ _ hc _ _ => .stopped hc

theorem agree_ofAttempt {x : Attempt CompileError α} {y : Attempt CompileError β}
    (h : Outcomes R x y) : P.Agree R (ofAttempt x) (ofAttempt y) := by
  cases h with
  | failed e => exact agree_throw rfl
  | returned h => exact agree_pure h

theorem agree_ofExcept (x : Except CompileError α) :
    P.Agree (· = ·) (ofExcept x) (ofExcept x) := by
  cases x with
  | error e => exact agree_fail e
  | ok a => exact agree_pure rfl

/-- The results are as many as the members. -/
theorem agree_mapM {f : α → Emit γ} {f' : β → Emit δ} {l : List α} {l' : List β}
    (h : List.Forall₂ R l l') (hf : ∀ a b, R a b → P.Agree S (f a) (f' b)) :
    P.Agree (fun cs ds => List.Forall₂ S cs ds ∧ cs.length = l.length) (l.mapM f)
      (l'.mapM f') := by
  induction h with
  | nil => exact agree_pure ⟨.nil, rfl⟩
  | cons hab _ ih =>
    rw [List.mapM_cons, List.mapM_cons]
    exact (hf _ _ hab).bind fun _ _ hc => ih.bind fun _ _ hcs =>
      agree_pure ⟨.cons hc hcs.1, by simp [hcs.2]⟩

/-- Both are refused for the kind of the expression, which does not depend on strings. -/
theorem agree_unsupported {e e' : Expr} (h : e.kind? = e'.kind?) (c : Clause) :
    P.Agree R (unsupported e c) (unsupported e' c) := by
  unfold Emit.unsupported
  rw [h]
  split
  · exact agree_fail _
  · exact agree_fault

end Runs

/-! ### The state

Both compilations change aliases, fields and the pending type in the same way. Only the bound values
may differ, in their strings. -/

/-- A change of the state that keeps states agreeing. -/
theorem agree_modify {f f' : Slate → Slate} (h : ∀ s s', P.Slates s s' → P.Slates (f s) (f' s')) :
    P.Agree (· = ·) (modify f : Emit PUnit) (modify f') :=
  fun s s' hs => .returned rfl (h s s' hs)

theorem agree_setPending (t : Text) : P.Agree (· = ·) (setPending t) (setPending t) :=
  agree_modify fun _ _ hs => { hs with pending := rfl }

theorem agree_addField (t t' : Text) : P.Agree (· = ·) (addField t) (addField t') :=
  agree_modify fun _ _ hs => { hs with fields := by simp [hs.fields] }

theorem agree_pending : P.Agree (· = ·) pending pending :=
  fun _ _ hs => .returned hs.pending hs

/-! ### Texts put together

To append keeps texts agreeing, and so does every test on whether a text is there. -/

section Texts

variable {l l' r r' m m' : Emit Text}

theorem Agree.enclose (h : P.Agree P.Values m m') {x x' y y' : Text} (hx : P.Values x x')
    (hy : P.Values y y') : P.Agree P.Values (Emit.enclose x m y) (Emit.enclose x' m' y') :=
  (h.after x x').bind fun _ _ ht => agree_pure ((hx.append ht).append hy)

theorem Agree.join (hl : P.Agree P.Values l l') (hr : P.Agree P.Values r r') {t t' : Text}
    (ht : P.Values t t') : P.Agree P.Values (join l t r) (join l' t' r') :=
  hl.bind fun _ _ ha => (hr.after _ _).bind fun _ _ hb =>
    agree_pure ((ha.append ht).append hb)

/-- A condition without a text is replaced by a literal in both or in neither. -/
theorem Agree.stated (h : P.Agree P.Conditions m m') :
    P.Agree P.Conditions (stated m) (stated m') :=
  h.bind fun _ _ ht => agree_pure (ht.map (f := fun t => if t.isEmpty then "1 = 1" else t)
    fun t hne => by simp [hne])

/-- Between words that exceed `NULL` a condition becomes a value. -/
theorem Agree.encloseCondition (h : P.Agree P.Conditions m m') {x y : Text}
    (hx : x.ExceedsNull) : P.Agree P.Values (Emit.enclose x m y) (Emit.enclose x m' y) := by
  refine (h.after x x).bind fun t t' ht => agree_pure ?_
  cases ht with
  | same => exact .same _
  | apart hd _ _ =>
    exact .apart hd ((hx.append_right _).append_right _) ((hx.append_right _).append_right _)

theorem Agree.joinConditions (hl : P.Agree P.Conditions l l') (hr : P.Agree P.Conditions r r')
    (t : Text) : P.Agree P.Conditions (Emit.join l t r) (Emit.join l' t r') :=
  hl.bind fun _ _ ha => (hr.after _ _).bind fun _ _ hb =>
    agree_pure ((ha.append (.same t)).append hb)

theorem Agree.grouped (h : P.Agree P.Values m m') (parens : Bool) :
    P.Agree P.Values (grouped parens m) (grouped parens m') := by
  cases parens with
  | true => exact h.enclose (.same _) (.same _)
  | false => exact h

theorem Agree.groupedCondition (h : P.Agree P.Conditions m m') (parens : Bool) :
    P.Agree P.Conditions (groupedCondition parens m) (groupedCondition parens m') := by
  cases parens with
  | false => exact h
  | true =>
    exact (h.after _ _).bind fun _ _ ht => agree_pure (ht.map
      (f := fun t => if t.isEmpty then [] else "(" ++ t ++ ")") fun t hne => by simp [hne])

/-- Both sides have a text in both compilations, or one is missing in both. -/
theorem agree_joined (token : Text) (hl : P.Agree P.Conditions l l')
    (hr : P.Agree P.Conditions r r') :
    P.Agree P.Conditions (joined token l r) (joined token l' r') := by
  refine hl.bind fun a a' ha => (hr.after _ _).bind fun b b' hb => agree_pure ?_
  rw [ha.isEmpty, hb.isEmpty]
  split
  · exact ha.append hb
  · exact (ha.append (.same token)).append hb

/-- The negated texts need not agree in more than being there. -/
theorem Agree.negated (h : P.Agree P.Conditions m m') (isNegated : Bool) :
    P.Agree P.Conditions (negated isNegated m) (negated isNegated m') := by
  refine h.bind fun t t' ht => agree_pure (ht.map
    (f := fun t => if !isNegated then t else if t.isEmpty then "1 = 0" else Sql.negate t)
    fun t hne => ?_)
  cases isNegated with
  | false => exact hne
  | true => simpa [hne] using Sql.negate_ne_nil hne

/-- Both sides test for null, or neither does. -/
theorem agree_compared (op : BinaryOp) (hl : P.Agree P.Values l l') (hr : P.Agree P.Values r r') :
    P.Agree P.Conditions (compared op l r) (compared op l' r') := by
  refine hl.bind fun a a' ha => (hr.after _ _).bind fun b b' hb =>
    (agree_setPending []).bind fun _ _ _ => agree_pure ?_
  simp only [hb.eq_null_iff]
  exact ((ha.append (.same _)).append hb).conditions

theorem Agree.truthCase (h : P.Agree P.Conditions m m') :
    P.Agree P.Values (truthCase m) (truthCase m') :=
  h.stated.encloseCondition ⟨byte ' ', by decide, by decide⟩

end Texts

/-! ### Where the dialects come in

Marks, quoted names and functions are written by the dialect. Each exceeds `NULL` in every
dialect. -/

section Dialects

variable {st : Settings}

theorem exceedsNull_placeholder (d : Dialect) (i : Int) :
    (d.profile.placeholder i).ExceedsNull := by
  cases d <;> exact Text.exceedsNull_cons (by decide) _

theorem exceedsNull_quoteIdent (d : Dialect) (name : Text) :
    (d.profile.quoteIdent name).ExceedsNull := by
  cases d <;> exact Text.exceedsNull_cons (by decide) _

theorem values_ident (name : Text) :
    P.Values ((P.first st).ident name) ((P.second st).ident name) := by
  unfold Settings.ident
  show P.Values (if st.quoted then _ else _) (if st.quoted then _ else _)
  split
  · exact .of_dialect (f := fun d => d.profile.quoteIdent name)
      fun d => exceedsNull_quoteIdent d name
  · exact .same _

/-- The marks of two dialects are different texts, which exceed `NULL`. -/
theorem agree_placeholder {v w : Value} (h : v.Varies P.strings w) (dataType : Text) :
    P.Agree P.Values (placeholder (P.first st) v dataType)
      (placeholder (P.second st) w dataType) := by
  intro s s' hs
  rw [placeholder, placeholder, result_modifyGet, result_modifyGet]
  refine .returned ?_ ?_
  · simp only [Slate.bindValue, List.length_append, List.length_singleton, hs.params.length_eq]
    exact .of_dialect (f := fun d => d.profile.placeholder (s'.params.length + 1 : Nat))
      fun d => exceedsNull_placeholder d _
  · simp only [Slate.bindValue, hs.pending]
    exact { hs with
      params := List.rel_append hs.params (.cons ⟨h, rfl⟩ .nil)
      pending := rfl }

/-- A row has the same entity and alias for both, since neither depends on the dialect. -/
theorem Slates.bindRow {s s' : Slate} (hs : P.Slates s s') (st : Settings) (p : Param) :
    (s.bindRow (P.first st) p).1 = (s'.bindRow (P.second st) p).1 ∧
      P.Slates (s.bindRow (P.first st) p).2 (s'.bindRow (P.second st) p).2 := by
  unfold Slate.bindRow
  rw [Settings.entityOf_withDialect, Settings.entityOf_withDialect, hs.aliases]
  rcases st.entityOf p.type with e | e
  · exact ⟨rfl, hs⟩
  · exact ⟨rfl, { hs with aliases := rfl }⟩

theorem agree_row (p : Param) : P.Agree (· = ·) (row (P.first st) p) (row (P.second st) p) := by
  refine Agree.bind (R := (· = ·)) (fun s s' hs => ?_) fun r _ h => ?_
  · rw [result_modifyGet, result_modifyGet]
    exact .returned (hs.bindRow st p).1 (hs.bindRow st p).2
  · rw [← h]
    exact agree_ofExcept _

/-- The same column, written as its dialect writes names. -/
theorem agree_column (p : Param) (member : Text) :
    P.Agree (fun a b => P.Values a.1 b.1 ∧ a.2 = b.2) (column (P.first st) p member)
      (column (P.second st) p member) := by
  refine (agree_row p).bind ?_
  rintro ⟨e, name⟩ _ rfl
  dsimp only
  split
  · exact agree_fail _
  · rename_i c _
    show P.Agree _ (if st.singleTable then _ else _) (if st.singleTable then _ else _)
    split
    · exact agree_pure ⟨values_ident c.name, rfl⟩
    · exact agree_pure ⟨((values_ident name).append (.same _)).append (values_ident c.name), rfl⟩

theorem values_lengthFunction : P.Values (P.left.profile.lengthFunction ++ "(")
    (P.right.profile.lengthFunction ++ "(") :=
  .of_dialect (f := fun d => d.profile.lengthFunction ++ "(") fun _ =>
    Text.ExceedsNull.append_left ⟨byte '(', by decide, by decide⟩ _

/-- The recursion is on the first of the two expressions, which have the same form. -/
theorem agree_columnOf (c : Clause) {e e' : Expr} (h : e.Varies P.strings e') :
    P.Agree P.Values (columnOf (P.first st) c e) (columnOf (P.second st) c e') := by
  fun_induction columnOf (P.first st) c e generalizing e' with
  | case1 p name _ _ =>
    cases h with
    | member h =>
      cases h
      refine (agree_column p name).bind ?_
      rintro ⟨a, c⟩ ⟨b, _⟩ ⟨hab, rfl⟩
      exact (agree_setPending c.dataType).bind fun _ _ _ => agree_pure hab
  | case2 e n t o name _ _ hlength column =>
    rename_i ih
    cases h with
    | member h =>
      cases h with
      | member h =>
        rw [columnOf, if_pos hlength]
        exact ((ih (.member h)).enclose values_lengthFunction (.same _)).bind fun _ _ ht =>
          (agree_setPending []).bind fun _ _ _ => agree_pure ht
  | case3 e n t o name _ _ hlength =>
    cases h with
    | member h =>
      cases h with
      | member h =>
        rw [columnOf, if_neg hlength]
        exact agree_fail _
  | case4 e hrow hlength =>
    -- no column on the left means none on the right, which has the same shape
    cases h with
    | member h =>
      cases h with
      | param p => exact absurd rfl (hrow p _ _ _)
      | member h => exact absurd rfl (hlength _ _ _ _ _ _ _)
      | _ => exact agree_unsupported rfl c
    | _ => exact agree_unsupported rfl c

/-! ### Constants

A constant that varies is bound in both compilations, for the only literal among values is that of a
null. -/

theorem agree_constantValue {v w : Value} (h : v.Varies P.strings w) :
    P.Agree P.Values (constantValue (P.first st) v) (constantValue (P.second st) w) := by
  unfold constantValue
  rw [h.isNil]
  split
  · exact agree_pure (.same _)
  · exact agree_placeholder h []

theorem agree_constantCondition {v w : Value} (h : v.Varies P.strings w) (c : Clause) :
    P.Agree P.Conditions (constantCondition v c) (constantCondition w c) := by
  cases h with
  | text h => exact agree_fail _
  | same =>
    unfold constantCondition
    split
    · exact agree_pure (.same _)
    · exact agree_pure (.same _)
    · exact agree_fail _

theorem values_join {sep : Text} {ts ts' : List Text} (h : List.Forall₂ P.Values ts ts') :
    P.Values (Text.join sep ts) (Text.join sep ts') := by
  induction h with
  | nil => exact .same _
  | @cons t t' ts ts' ht hts ih =>
    cases hts with
    | nil => simpa [Text.join] using ht
    | cons hu hus =>
      rw [Text.join, Text.join, List.intercalate_cons_cons, List.intercalate_cons_cons]
      exact (ht.append (.same sep)).append ih

theorem agree_placeholders {vs ws : List Value}
    (h : List.Forall₂ (Value.Varies P.strings) vs ws) (dataType : Text) :
    P.Agree P.Values (placeholders (P.first st) dataType vs)
      (placeholders (P.second st) dataType ws) :=
  (agree_mapM h fun _ _ h => agree_placeholder h dataType).bind fun _ _ hts =>
    agree_pure (values_join hts.1)

/-- Two lists that vary have the same length, so both are empty or neither is. -/
theorem agree_constantMembers {v w : Value} (h : v.Varies P.strings w) :
    P.Agree P.Values (constantMembers (P.first st) v) (constantMembers (P.second st) w) := by
  have single : P.Agree P.Values
      (do return "(" ++ (← placeholder (P.first st) v []) ++ ")" : Emit Text)
      (do return "(" ++ (← placeholder (P.second st) w []) ++ ")" : Emit Text) :=
    (agree_placeholder h []).bind fun _ _ ht =>
      agree_pure (((Values.same _).append ht).append (.same _))
  cases h with
  | text h => exact single
  | same =>
    unfold constantMembers
    split
    · exact agree_pure (.same _)
    · split
      · split
        · exact agree_fault
        · exact agree_pure (.same _)
        · rename_i items _ _
          refine agree_pending.bind fun t _ ht => ?_
          rw [← ht]
          have hitems : List.Forall₂ (Value.Varies P.strings) items items :=
            List.forall₂_same.mpr fun v _ => .same v
          exact (agree_placeholders hitems t).bind fun _ _ ht =>
            agree_pure (((Values.same _).append ht).append (.same _))
      · exact single

theorem agree_constantArgument (v : Value) (c : Clause) :
    P.Agree P.Values (constantArgument (P.first st) v c) (constantArgument (P.second st) v c) := by
  unfold constantArgument
  split
  · split
    · exact agree_pure (.same _)
    · exact agree_fail _
  · split
    · refine (agree_ofExcept _).bind fun items _ h => ?_
      rw [← h]
      split
      · exact agree_pure (.same _)
      · exact agree_fail _
    · exact agree_constantValue (.same _)

/-! ### Folding

An expression with a string that varies may be folded to different constants. So the rule asks that
the two are the same, or that they depend on a row and are not folded. -/

/-- Both are folded to the same constant, or none is folded. -/
theorem agree_folding {α β : Type} {R : α → β → Prop} {e e' : Expr} {constant : Value → Emit α}
    {constant' : Value → Emit β} {own : Emit α} {own' : Emit β} (h : e.Varies P.strings e')
    (hs : e = e' ∨ e.isClosed = false) (hc : ∀ v, P.Agree R (constant v) (constant' v))
    (ho : P.Agree R own own') :
    P.Agree R (folding (P.first st) e constant own) (folding (P.second st) e' constant' own') := by
  have heq : e.folded? st.pre = e'.folded? st.pre := by
    rcases hs with rfl | hs
    · rfl
    · rw [Expr.folded?_of_not_isClosed hs, Expr.folded?_of_not_isClosed (h.isClosed ▸ hs)]
  refine Agree.bind (R := (· = ·)) (agree_ofAttempt ?_) fun v? _ hv => ?_
  · show Outcomes _ (e.folded? st.pre).widen (e'.folded? st.pre).widen
    rw [heq]
    exact Outcomes.refl (fun _ => rfl) _
  · rw [← hv]
    cases v? with
    | some v => exact hc v
    | none => exact ho

end Dialects

end Pairing

end QueryTree
