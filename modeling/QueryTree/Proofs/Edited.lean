import QueryTree.Compile.Editing
import QueryTree.Proofs.Renamed
import QueryTree.Proofs.Yield

/-!
# Editing is appending

A compilation that edits its draft in place inserts operators, replaces texts and discards what it
has written, always at offsets that it looked up before. It does to the draft what an emitter does
that puts its text together first and appends it then: every offset lies where the text of the
construct begins that looked it up, so nothing in front of it is ever touched. The two leave the
same draft when they stop halfway as well.

So a statement about what is emitted is one about drafts that are edited, and the other way round.

## Main definitions

* `Draft.added`: a draft with a text added, in another state
* `Edit.Writes`, `Edit.Lists`, `Edit.Reads`: edits that do what an emitter does

## Main results

* `Edit.writes_joined`, `Edit.writes_negated`, `Edit.writes_compared`: edits at an offset
* `Edit.writes_separated`: texts whose last separator is cut off
* `Edit.writes_insertRows`, `Edit.writes_assignments`: the rows of an insert or an update
-/

namespace QueryTree

/-! ### Drafts with a text added

Everything that is said about edits below is said about a draft `d` with a text added, at the offset
`d.text.length`. At that offset the lookups of edits succeed, and they see what has been added and
nothing else. -/

namespace Draft

variable {d : Draft} {t u w : Text} {s s' : Slate}

/-- The draft with a text added, in the state `s`. -/
def added (d : Draft) (t : Text) (s : Slate) : Draft := { d with text := d.text ++ t, slate := s }

@[simp]
theorem slate_added : (d.added t s).slate = s := rfl

theorem text_added : (d.added t s).text = d.text ++ t := rfl

@[simp]
theorem added_added : (d.added t s).added u s' = d.added (t ++ u) s' := by
  simp [added]

@[simp]
theorem added_nil : d.added [] d.slate = d := by
  simp [added]

theorem write_eq_added (d : Draft) (t : Text) : d.write t = d.added t d.slate := rfl

/-- The offset behind what has been added. -/
theorem length_added : (d.added t s).text.length = d.text.length + t.length :=
  List.length_append

/-- What has been added since an offset can be looked at, replaced or discarded. -/
theorem span?_added : (d.added t s).span? d.text.length = some t := by
  simp [span?, added]

theorem truncate?_added : (d.added t s).truncate? d.text.length = some (d.added [] s) := by
  simp [truncate?, added]

theorem replaceFrom?_added :
    (d.added t s).replaceFrom? d.text.length u = some (d.added u s) := by
  rw [replaceFrom?, truncate?_added, Option.map_some, write_eq_added, added_added]
  rfl

/-- A text can be inserted in front of what has been added since an offset. -/
theorem insertAt?_added : (d.added t s).insertAt? d.text.length u = some (d.added (u ++ t) s) := by
  cases u with
  | nil => rfl
  | cons b u => simp [insertAt?, added]

/-- A suffix is cut off what has been added, and off nothing in front of it. -/
theorem trimSuffix_added : (d.added (t ++ u) s).trimSuffix u = d.added t s := by
  rw [trimSuffix, text_added, ← List.append_assoc, Text.trimSuffix_append]
  rfl

end Draft

/-! ### Outcomes

What the single edits do to a draft, by computation. -/

namespace Edit

open Stateful

variable {α β : Type} {d : Draft} {t u : Text}

theorem result_fail (e : CompileError) (d : Draft) :
    result (fail e : Edit α) d = (.error (.error e), d) := rfl

theorem result_fault (d : Draft) : result (fault : Edit α) d = (.error .fault, d) := rfl

theorem result_length (d : Draft) : result length d = (.ok d.text.length, d) := rfl

theorem result_write (t : Text) (d : Draft) : result (write t) d = (.ok (), d.added t d.slate) :=
  rfl

theorem result_trimSuffix (t : Text) (d : Draft) :
    result (trimSuffix t) d = (.ok (), d.trimSuffix t) := rfl

/-- An edit at an offset does not fault where the offset lies inside the draft. -/
theorem result_at? {f : Draft → Option Draft} {d' : Draft} (h : f d = some d') :
    result (at? f) d = (.ok (), d') := by
  rw [at?, result_bind, result_get]
  simp only [h]
  rfl

/-! ### Edits at the offset at which something has been added -/

variable {s : Slate}

/-- The text added since an offset is what is looked at there. -/
theorem result_span : result (span d.text.length) (d.added t s) = (.ok t, d.added t s) := by
  rw [span, result_bind, result_get]
  simp only [Draft.span?_added]
  rfl

/-- Discarding what has been added leaves the state, which is not looked up before. -/
theorem result_truncate :
    result (truncate d.text.length) (d.added t s) = (.ok (), d.added [] s) :=
  result_at? (f := (·.truncate? _)) Draft.truncate?_added

theorem result_replaceFrom :
    result (replaceFrom d.text.length u) (d.added t s) = (.ok (), d.added u s) :=
  result_at? (f := (·.replaceFrom? _ _)) Draft.replaceFrom?_added

/-- What is inserted at the offset at which a text begins stands in front of that text. -/
theorem result_insertAt :
    result (insertAt d.text.length u) (d.added t s) = (.ok (), d.added (u ++ t) s) :=
  result_at? (f := (·.insertAt? _ _)) Draft.insertAt?_added

/-- A change of the state adds no text. -/
theorem result_onSlate (f : Slate → α × Slate) (d : Draft) :
    result (onSlate f) d = (.ok (f d.slate).1, d.added [] (f d.slate).2) := by
  rw [Draft.added, List.append_nil]
  rfl

theorem result_setPending_added :
    result (setPending u) (d.added t s) = (.ok (), d.added t { s with pendingType := u }) := rfl

theorem result_addField_added :
    result (addField u) (d.added t s) = (.ok (), d.added t { s with fields := s.fields ++ [u] }) :=
  rfl

/-! ### Edits that do what an emitter does

An emitter returns its text, and the error of one that stops holds what it had emitted until then.
Both texts are what the edit adds to the draft. An edit that returns a value instead of a text is
related to an emitter of a value in the same way. -/

/-- The outcome of an emitter in a draft: `text` of its result is added and `value` is returned, or
what it had written is added where it stops. -/
def outcome (text : α → Text) (value : α → β) (d : Draft) :
    Except Halt α × Slate → Except (Stop CompileError) β × Draft
  | (.ok a, s) => (.ok (value a), d.added (text a) s)
  | (.error h, s) => (.error h.cause, d.added h.written s)

@[simp]
theorem outcome_ok (text : α → Text) (value : α → β) (d : Draft) (a : α) (s : Slate) :
    outcome text value d (.ok a, s) = (.ok (value a), d.added (text a) s) := rfl

@[simp]
theorem outcome_error (text : α → Text) (value : α → β) (d : Draft) (h : Halt) (s : Slate) :
    outcome text value d (.error h, s) = (.error h.cause, d.added h.written s) := rfl

/-- From every draft, the edit has the outcome of the emitter. -/
def Performs (text : α → Text) (value : α → β) (x : Edit β) (m : Emit α) : Prop :=
  ∀ d, result x d = outcome text value d (Emit.result m d.slate)

/-- The edit writes what the emitter emits. -/
def Writes (x : Edit Unit) (m : Emit Text) : Prop := Performs id (fun _ => ()) x m

/-- The edit writes a list that the emitter emits. -/
def Lists (x : Edit (List Direction)) (m : Emit (Text × List Direction)) : Prop :=
  Performs Prod.fst Prod.snd x m

/-- The edit reads or changes the state as the emitter does, and writes nothing. -/
def Reads (x : Edit α) (m : Emit α) : Prop := Performs (fun _ => []) id x m

variable {γ δ : Type} {text : α → Text} {value : α → β} {x : Edit β} {m : Emit α}

/-- An edit that reads goes in front of one that does what an emitter does. -/
theorem Reads.bind {x : Edit γ} {m : Emit γ} {f : γ → Edit β} {g : γ → Emit α} (hx : Reads x m)
    (hf : ∀ c, Performs text value (f c) (g c)) : Performs text value (x >>= f) (m >>= g) := by
  intro d
  rw [result_bind, hx d, Emit.result_bind]
  rcases Emit.result m d.slate with ⟨h | c, s⟩
  · rfl
  · simp only [outcome_ok, id_eq]
    rw [hf c, Draft.slate_added]
    rcases Emit.result (g c) s with ⟨h | a, s'⟩ <;> simp

/-- Stopping at once leaves the draft as it was. -/
theorem performs_fail (e : CompileError) : Performs text value (fail e) (Emit.fail e) := fun d => by
  rw [result_fail, Emit.fail, Emit.result_throw, outcome_error, Draft.added_nil]

theorem performs_fault : Performs text value fault Emit.fault := fun d => by
  rw [result_fault, Emit.fault, Emit.result_throw, outcome_error, Draft.added_nil]

/-- Both name the same kind of expression, or fault where it has none. -/
theorem performs_unsupported (e : Expr) (c : Clause) :
    Performs text value (unsupported e c) (Emit.unsupported e c) := by
  unfold unsupported Emit.unsupported
  cases e.kind? with
  | none => exact performs_fault
  | some k => exact performs_fail _

theorem reads_pure (a : α) : Reads (pure a) (pure a) := fun d => by
  rw [result_pure, Emit.result_pure, outcome_ok, Draft.added_nil]
  rfl

/-- What is worked out before anything is written stops both for the same reason. -/
theorem reads_ofAttempt (r : Attempt CompileError α) : Reads (ofAttempt r) (Emit.ofAttempt r) := by
  cases r with
  | ok a => exact reads_pure a
  | error cause =>
    intro d
    rw [ofAttempt, result_throw, Emit.ofAttempt, Emit.result_throw, outcome_error, Draft.added_nil]

theorem reads_ofExcept (r : Except CompileError α) : Reads (ofExcept r) (Emit.ofExcept r) := by
  cases r with
  | ok a => exact reads_pure a
  | error e => exact performs_fail e

theorem reads_onSlate (f : Slate → α × Slate) : Reads (onSlate f) (modifyGet f) := fun d => by
  rw [result_onSlate, Emit.result_modifyGet]
  rfl

theorem reads_setPending (t : Text) : Reads (setPending t) (Emit.setPending t) :=
  reads_onSlate _

theorem reads_pending : Reads pending Emit.pending := fun d => by
  show result pending d = outcome _ _ d (.ok d.slate.pendingType, d.slate)
  rw [outcome_ok, Draft.added_nil]
  rfl

/-- The alias of a row is fixed when it is first asked for, in the state that both share. -/
theorem reads_row (st : Settings) (p : Param) : Reads (row st p) (Emit.row st p) :=
  (reads_onSlate _).bind fun _ => reads_ofExcept _

/-- The column of a member, under its alias in statements that have one. -/
theorem reads_column (st : Settings) (p : Param) (member : Text) :
    Reads (column st p member) (Emit.column st p member) := by
  refine (reads_row st p).bind fun ⟨e, name⟩ => ?_
  dsimp only
  cases e.column? member with
  | none => exact performs_fail _
  | some c =>
    dsimp only
    split <;> exact reads_pure _

/-! ### Texts put together

An edit writes its operands one after the other. The emitter puts their texts together, and what it
has to add in front of the text of an operand that stops is what the edit has written by then. -/

variable {y : Edit Unit} {z : Edit Unit} {l r : Emit Text} {t : Text}

theorem writes_write (t : Text) : Writes (write t) (pure t) := fun d => by
  rw [result_write, Emit.result_pure, outcome_ok]
  rfl

theorem writes_nil : Writes (pure ()) (pure []) := fun d => by
  rw [result_pure, Emit.result_pure, outcome_ok, id_eq, Draft.added_nil]

/-- The text in front is written before the operand, so that it stands in the draft where the
operand stops. The emitter keeps it for that case. -/
theorem writes_enclose (before behind : Text) (h : Writes y l) :
    Writes (enclose before y behind) (Emit.enclose before l behind) := by
  intro d
  simp only [enclose, Emit.enclose, result_bind, result_write, h _, Emit.result_bind,
    Emit.result_after, Draft.slate_added]
  rcases Emit.result l d.slate with ⟨h | a, s⟩
  · simp
  · simp [Emit.result_pure]

theorem writes_prefixed (before : Text) (h : Writes y l) : Writes (do write before; y)
    (do return before ++ (← Emit.after before l)) := by
  intro d
  simp only [result_bind, result_write, h _, Emit.result_bind, Emit.result_after,
    Draft.slate_added]
  rcases Emit.result l d.slate with ⟨h | a, s⟩
  · simp
  · simp [Emit.result_pure]

/-- What the left operand has written is kept where the right one stops. -/
theorem writes_join (between : Text) (hl : Writes y l) (hr : Writes z r) :
    Writes (join y between z) (Emit.join l between r) := by
  intro d
  simp only [join, Emit.join, result_bind, hl _, Emit.result_bind]
  rcases Emit.result l d.slate with ⟨h | a, s⟩
  · rfl
  · simp only [outcome_ok, id_eq, result_write, hr _, Draft.slate_added, Emit.result_after]
    rcases Emit.result r s with ⟨h | b, s'⟩ <;> simp [Emit.result_pure]

/-- The induction is on the texts, each of which is written behind the others. -/
theorem writes_concat {xs : List (Edit Unit)} {ms : List (Emit Text)}
    (h : List.Forall₂ Writes xs ms) : Writes (concat xs) (Emit.concat ms) := by
  induction h with
  | nil => exact writes_nil
  | @cons x m xs ms hx hxs ih =>
    intro d
    simp only [concat, Emit.concat, Emit.join, result_bind, hx _, Emit.result_bind]
    rcases Emit.result m d.slate with ⟨h | a, s⟩
    · rfl
    · simp only [outcome_ok, id_eq, ih _, Draft.slate_added, Emit.result_after]
      rcases Emit.result (Emit.concat ms) s with ⟨h | b, s'⟩ <;> simp [Emit.result_pure]

/-- Nothing has been written where the text has not become longer. -/
theorem length_added_eq_iff {d : Draft} {s : Slate} :
    (d.added t s).text.length = d.text.length ↔ t = [] := by
  rw [Draft.length_added, Nat.add_eq_left, List.length_eq_zero_iff]

/-- A literal stands in for a condition without a text. Whether it has one is seen by the length of
the draft. -/
theorem writes_stated (h : Writes y l) : Writes (stated y) (Emit.stated l) := by
  intro d
  simp only [stated, Emit.stated, result_bind, result_length, h _, Emit.result_bind]
  rcases Emit.result l d.slate with ⟨h | a, s⟩
  · rfl
  · simp only [outcome_ok, id_eq, length_added_eq_iff]
    cases a with
    | nil => simp [result_write, Emit.result_pure]
    | cons b a => simp [result_pure, Emit.result_pure]

theorem writes_truthCase (h : Writes y l) : Writes (truthCase y) (Emit.truthCase l) :=
  writes_enclose _ _ (writes_stated h)

/-- A text is taken back and written anew. -/
theorem writes_rewritten (f : Text → Text) (h : Writes y l) :
    Writes (rewritten f y) (do return f (← l)) := by
  intro d
  simp only [rewritten, result_bind, result_length, h _, Emit.result_bind]
  rcases Emit.result l d.slate with ⟨h | a, s⟩
  · rfl
  · simp only [outcome_ok, id_eq, result_span, result_replaceFrom, Emit.result_pure]

/-! ### Conditions

Whether a condition has a text is known only after it has been written. So parentheses are taken
back, operators inserted and conditions negated behind the fact. -/

theorem writes_grouped (parens : Bool) (h : Writes y l) :
    Writes (grouped parens y) (Emit.grouped parens l) := by
  cases parens with
  | false => exact h
  | true => exact writes_enclose _ _ h

/-- The parenthesis is written first, and taken back if nothing stands inside. -/
theorem writes_groupedCondition (parens : Bool) (h : Writes y l) :
    Writes (groupedCondition parens y) (Emit.groupedCondition parens l) := by
  cases parens with
  | false => exact h
  | true =>
    intro d
    simp only [groupedCondition, Emit.groupedCondition, if_true, result_bind, result_length,
      result_write, h _, Emit.result_bind, Emit.result_after, Draft.slate_added]
    rcases Emit.result l d.slate with ⟨h | a, s⟩
    · simp
    -- The length is compared with that behind the parenthesis.
    · have hlength : (d.added ("(" ++ a) s).text.length = d.text.length + 1 ↔ a = [] := by
        rw [Draft.length_added, List.length_append, show ("(" : Text).length = 1 from rfl,
          ← Nat.add_assoc, Nat.add_eq_left, List.length_eq_zero_iff]
      simp only [outcome_ok, id_eq, Draft.added_added, hlength, Emit.result_pure]
      cases a with
      | nil => simp [result_truncate]
      | cons b a => simp [result_write]

/-- The operator is inserted between the operands once it is known that both have a text, at the
offset looked up between the two. -/
theorem writes_joined (token : Text) (hl : Writes y l) (hr : Writes z r) :
    Writes (joined token y z) (Emit.joined token l r) := by
  intro d
  simp only [joined, Emit.joined, result_bind, result_length, hl _, Emit.result_bind]
  rcases Emit.result l d.slate with ⟨h | a, s⟩
  · rfl
  · simp only [outcome_ok, id_eq, hr _, Draft.slate_added, Emit.result_after]
    rcases Emit.result r s with ⟨h | b, s'⟩
    · simp
    · simp only [outcome_ok, id_eq, length_added_eq_iff, Emit.result_pure]
      by_cases hempty : a = [] ∨ b = []
      · rw [if_pos (by simpa using hempty), if_pos (by simpa using hempty)]
        simp [result_pure]
      · rw [if_neg (by simpa using hempty), if_neg (by simpa using hempty), result_insertAt]
        simp

/-- A condition is negated in place: its text is replaced by the negated one. -/
theorem writes_negated (isNegated : Bool) (h : Writes y l) :
    Writes (negated isNegated y) (Emit.negated isNegated l) := by
  intro d
  simp only [negated, Emit.negated, result_bind, result_length, h _, Emit.result_bind]
  rcases Emit.result l d.slate with ⟨h | a, s⟩
  · rfl
  · simp only [outcome_ok, id_eq, Emit.result_pure]
    cases isNegated with
    | false => simp [result_pure]
    | true =>
      simp only [Bool.not_true, Bool.false_eq_true, if_false, result_bind, result_length,
        length_added_eq_iff]
      cases a with
      | nil => simp [result_write]
      | cons b a => simp [result_bind, result_span, result_replaceFrom]

/-- The operator is inserted in front of the right operand, whose text decides how a null is
compared. -/
theorem writes_compared (op : BinaryOp) (hl : Writes y l) (hr : Writes z r) :
    Writes (compared op y z) (Emit.compared op l r) := by
  intro d
  simp only [compared, Emit.compared, result_bind, result_length, hl _, Emit.result_bind]
  rcases Emit.result l d.slate with ⟨h | a, s⟩
  · rfl
  · simp only [outcome_ok, id_eq, hr _, Draft.slate_added, Emit.result_after]
    rcases Emit.result r s with ⟨h | b, s'⟩
    · simp
    · simp only [outcome_ok, id_eq, result_setPending_added, result_span, result_insertAt,
        Emit.setPending, Emit.result_modify, Emit.result_pure]
      rw [Draft.added_added, List.append_assoc]

/-! ### Columns and constants

The recursion for the column of a member follows that of the emitter. A constant is written as a
literal where the dialect has one, and bound otherwise. -/

/-- What is written before the pending type changes. -/
theorem writes_setPending (u : Text) (h : Writes y l) : Writes (do y; setPending u)
    (do let t ← l; Emit.setPending u; return t) := by
  intro d
  simp only [result_bind, h _, Emit.result_bind]
  rcases Emit.result l d.slate with ⟨h | a, s⟩
  · rfl
  · simp only [outcome_ok, result_setPending_added, Emit.setPending, Emit.result_modify,
      Emit.result_pure]

/-- The column of a member, or the length of one. -/
theorem writes_columnOf (st : Settings) (c : Clause) (e : Expr) :
    Writes (columnOf st c e) (Emit.columnOf st c e) := by
  fun_induction Emit.columnOf st c e with
  | case1 p name =>
    rw [columnOf]
    refine (reads_column st p name).bind ?_
    rintro ⟨t, c⟩
    exact writes_setPending _ (writes_write t)
  | case2 e n t o name _ _ hif column ih =>
    rw [columnOf, if_pos hif]
    exact writes_setPending [] (writes_enclose _ _ ih)
  | case3 e n t o name _ _ hif =>
    rw [columnOf, if_neg hif]
    exact performs_fail _
  | case4 e hrow hmember =>
    rw [columnOf]
    · exact performs_unsupported e c
    · exact hrow
    · exact hmember

/-- An expression without rows is computed first, in both. -/
theorem performs_folding {st : Settings} {e : Expr} {constant : Value → Edit β} {own : Edit β}
    {constant' : Value → Emit α} {own' : Emit α}
    (hconstant : ∀ v, Performs text value (constant v) (constant' v))
    (hown : Performs text value own own') :
    Performs text value (folding st e constant own) (Emit.folding st e constant' own') := by
  refine (reads_ofAttempt _).bind fun v? => ?_
  cases v? with
  | none => exact hown
  | some v => exact hconstant v

/-- A bound value leaves its mark. -/
theorem writes_placeholder (st : Settings) (v : Value) (dataType : Text) :
    Writes (placeholder st v dataType) (Emit.placeholder st v dataType) := fun d => by
  rw [placeholder, result_bind, result_onSlate]
  simp only [result_write, Draft.added_added, Draft.slate_added, List.nil_append]
  rfl

theorem writes_constantValue (st : Settings) (v : Value) :
    Writes (constantValue st v) (Emit.constantValue st v) := by
  unfold constantValue Emit.constantValue
  split
  · exact writes_write _
  · exact writes_placeholder st v []

theorem writes_constantCondition (v : Value) (c : Clause) :
    Writes (constantCondition v c) (Emit.constantCondition v c) := by
  cases v with
  | bool b =>
    cases b with
    | true => exact writes_nil
    | false => exact writes_write _
  | _ => exact performs_fail _

/-- Binding values never stops. -/
theorem exists_result_placeholders (st : Settings) (dataType : Text) (vs : List Value) (s : Slate) :
    ∃ ts s', Emit.result (vs.mapM fun v => Emit.placeholder st v dataType) s = (.ok ts, s') ∧
      ts.length = vs.length := by
  induction vs generalizing s with
  | nil => exact ⟨[], s, rfl, rfl⟩
  | cons v vs ih =>
    obtain ⟨ts, s', hts, hlen⟩ := ih (s.bindValue st.profile v dataType).2
    refine ⟨(s.bindValue st.profile v dataType).1 :: ts, s', ?_, congrArg (· + 1) hlen⟩
    rw [List.mapM_cons, Emit.result_bind, Emit.placeholder, Emit.result_modifyGet]
    simp only [Emit.result_bind, hts, Emit.result_pure]

/-- Here the edits put a comma between two marks, and the emitter joins all of them at the end. -/
theorem writes_placeholders (st : Settings) (dataType : Text) (vs : List Value) :
    Writes (placeholders st dataType vs) (Emit.placeholders st dataType vs) := by
  fun_induction placeholders st dataType vs with
  | case1 => exact writes_nil
  | case2 v =>
    intro d
    rw [writes_placeholder]
    simp [Emit.placeholders, Emit.placeholder, Emit.result_modifyGet, Text.join,
      List.intercalate]
  | case3 v vs hne ih =>
    -- The emitter binds all values before it joins the marks, which cannot fail in between.
    obtain ⟨w, vs, rfl⟩ := List.exists_cons_of_ne_nil hne
    intro d
    rw [writes_join "," (writes_placeholder st v dataType) ih d]
    obtain ⟨ts, s', hts, hlen⟩ := exists_result_placeholders st dataType (w :: vs)
      (d.slate.bindValue st.profile v dataType).2
    obtain ⟨t, ts, rfl⟩ := List.exists_cons_of_length_eq_add_one hlen
    have hrest : Emit.result (Emit.placeholders st dataType (w :: vs))
        (d.slate.bindValue st.profile v dataType).2 = (.ok (Text.join "," (t :: ts)), s') := by
      rw [Emit.placeholders, Emit.result_bind, hts]
      rfl
    have hall : Emit.result (Emit.placeholders st dataType (v :: w :: vs)) d.slate =
        (.ok (Text.join "," ((d.slate.bindValue st.profile v dataType).1 :: t :: ts)), s') := by
      rw [Emit.placeholders, List.mapM_cons, Emit.result_bind, Emit.result_bind, Emit.placeholder,
        Emit.result_modifyGet]
      simp only [Emit.result_bind, hts, Emit.result_pure]
    rw [hall, Emit.join, Emit.result_bind, Emit.placeholder, Emit.result_modifyGet]
    simp only [Emit.result_bind, Emit.result_after, hrest, Emit.result_pure, Text.join,
      List.intercalate_cons_cons]

/-- Where nothing stops, what stands in front need not be kept. -/
theorem writes_between (before behind : Text) (h : Writes y l)
    (hok : ∀ s, ∃ t s', Emit.result l s = (.ok t, s')) :
    Writes (enclose before y behind) (do return before ++ (← l) ++ behind) := by
  intro d
  obtain ⟨t, s', ht⟩ := hok d.slate
  rw [writes_enclose before behind h d, Emit.enclose, Emit.result_bind, Emit.result_after, ht,
    Emit.result_bind, ht]

theorem writes_constantMembers (st : Settings) (v : Value) :
    Writes (constantMembers st v) (Emit.constantMembers st v) := by
  unfold constantMembers Emit.constantMembers
  split
  · exact writes_write _
  · split
    · cases v.deref.items? with
      | none => exact performs_fault
      | some items =>
        cases items with
        | nil => exact writes_write _
        | cons v vs =>
          refine reads_pending.bind fun t => ?_
          refine writes_between "(" ")" (writes_placeholders st t (v :: vs)) fun s => ?_
          obtain ⟨ts, s', hts, -⟩ := exists_result_placeholders st t (v :: vs) s
          exact ⟨_, s', by rw [Emit.placeholders, Emit.result_bind, hts]; rfl⟩
    · exact writes_between "(" ")" (writes_placeholder st v []) fun s => ⟨_, _, rfl⟩

/-- The argument of an aggregate function. -/
theorem writes_constantArgument (st : Settings) (v : Value) (c : Clause) :
    Writes (constantArgument st v c) (Emit.constantArgument st v c) := by
  unfold constantArgument Emit.constantArgument
  split
  · split
    · exact writes_write _
    · exact performs_fail _
  · cases v with
    | string t =>
      refine (reads_ofExcept _).bind fun items => ?_
      match items with
      | [item] => exact writes_write item
      | [] | _ :: _ :: _ => exact performs_fail _
    | _ => exact writes_constantValue st _

/-! ### Items of lists

Items end with a separator, the last one as well, until the clause is finished. -/

/-- An item is recorded under its name, or under what was written for it. -/
theorem writes_selectItem (st : Settings) (name : Text) (h : Writes y l) :
    Writes (selectItem st y name) (Emit.selectItem st l name) := by
  intro d
  simp only [selectItem, Emit.selectItem, result_bind, result_length, h _, Emit.result_bind]
  rcases Emit.result l d.slate with ⟨h | a, s⟩
  · rfl
  · simp only [outcome_ok, id_eq, result_setPending_added, result_span, Emit.setPending,
      Emit.addField, Emit.result_modify, Emit.result_pure]
    split
    · simp only [result_bind, result_write, Draft.added_added, Draft.slate_added, result_span,
        result_addField_added, List.append_assoc]
    · simp only [result_bind, result_write, Draft.added_added, Draft.slate_added, result_span,
        result_addField_added]

/-- The emitter records items without a text. -/
theorem result_forM_addField (items : List Text) (s : Slate) :
    Emit.result (items.forM Emit.addField) s =
      (.ok (), { s with fields := s.fields ++ items }) := by
  induction items generalizing s with
  | nil => simp [Emit.result_pure]
  | cons t ts ih =>
    rw [List.forM_eq_forM] at ih ⊢
    rw [List.forM_cons, Emit.result_bind, Emit.addField, Emit.result_modify]
    simp only [ih, List.append_assoc, List.singleton_append]

/-- Items are recorded one by one as they are written, or all of them first. -/
theorem result_rawFields (items : List Text) (d : Draft) : result (rawFields items) d =
    (.ok (), d.added (items.flatMap fun t => t ++ itemSeparator)
      { d.slate with fields := d.slate.fields ++ items }) := by
  induction items generalizing d with
  | nil => rw [List.append_nil, List.flatMap_nil, Draft.added_nil]; rfl
  | cons t ts ih =>
    rw [rawFields] at ih ⊢
    simp only [List.map_cons, concat, result_bind, result_write, result_addField_added, ih,
      Draft.added_added, Draft.slate_added, List.flatMap_cons, List.append_assoc,
      List.singleton_append]

theorem writes_rawFields (items : List Text) : Writes (rawFields items) (Emit.rawFields items) := by
  intro d
  rw [result_rawFields, Emit.rawFields, Emit.result_bind, result_forM_addField]
  simp only [Emit.result_pure, outcome_ok, id_eq]

/-- A string is a list of raw items; another constant is one item. -/
theorem writes_constantProjection (st : Settings) (v : Value) :
    Writes (constantProjection st v) (Emit.constantProjection st v) := by
  unfold constantProjection Emit.constantProjection
  cases v with
  | string t => exact (reads_ofExcept _).bind fun items => writes_rawFields items
  | _ => exact writes_selectItem st [] (writes_constantValue st _)

theorem result_finishItem (c : Clause) (ds : List Direction) (t : Text) {d : Draft} {s : Slate} :
    result (finishItem c ds t) (d.added t s) = (.ok (), d.added (Emit.listItem c ds t) s) := by
  unfold finishItem Emit.listItem
  split
  · simp [result_bind, result_write]
  · simp [result_write]

theorem lists_pure (ds : List Direction) : Lists (pure ds) (pure ([], ds)) := fun d => by
  rw [result_pure, Emit.result_pure, outcome_ok, Draft.added_nil]

/-- Each item takes the direction that is first among the remaining ones. -/
theorem lists_rawListing (c : Clause) (ds : List Direction) (ts : List Text) :
    Lists (rawListing c ds ts) (pure (Emit.rawListing c ds ts)) := by
  fun_induction rawListing c ds ts with
  | case1 ds => exact lists_pure ds
  | case2 ds t ts ih =>
    intro d
    simp only [result_bind, result_write, result_finishItem, ih _, Emit.result_pure, outcome_ok,
      Draft.added_added, Draft.slate_added, Emit.rawListing]

/-- The directions that one list leaves are those that the next one takes, so they are carried
along. -/
theorem lists_listings {xs : List (List Direction → Edit (List Direction))}
    {ms : List (List Direction → Emit (Text × List Direction))}
    (h : List.Forall₂ (fun x m => ∀ ds, Lists (x ds) (m ds)) xs ms) (ds : List Direction) :
    Lists (listings xs ds) (Emit.listings ms ds) := by
  induction h generalizing ds with
  | nil => exact lists_pure ds
  | @cons x m xs ms hx _ ih =>
    intro d
    simp only [listings, Emit.listings, result_bind, hx _ _, Emit.result_bind]
    rcases Emit.result (m ds) d.slate with ⟨h | ⟨t, ds'⟩, s⟩
    · rfl
    · simp only [outcome_ok, ih _ _, Draft.slate_added, Emit.result_after]
      rcases Emit.result (Emit.listings ms ds') s with ⟨h | ⟨u, ds''⟩, s'⟩ <;>
        simp [Emit.result_pure]

theorem lists_rawList (c : Clause) (t : Text) (ds : List Direction) :
    Lists (rawList c t ds) (Emit.rawList c t ds) :=
  (reads_ofExcept _).bind fun items => lists_rawListing c ds items

/-- A string, or each string of a slice, is a list of raw items. -/
theorem lists_constantListing (v : Value) (c : Clause) (ds : List Direction) :
    Lists (constantListing v c ds) (Emit.constantListing v c ds) := by
  unfold Emit.constantListing
  split
  · exact lists_rawList c _ ds
  · exact lists_pure ds
  · next items =>
    refine lists_listings ?_ ds
    rw [List.forall₂_map_left_iff, List.forall₂_map_right_iff, List.forall₂_same]
    intro v _ ds
    cases v with
    | string t => exact lists_rawList c t ds
    | _ => exact performs_fault
  · next hstring hnil hslice =>
    rw [constantListing]
    · exact performs_fail _
    · exact hstring
    · exact hnil
    · exact hslice

/-! ### Texts with a separator

Each text of a list is followed by the separator, and what stands behind the last one is cut off. In
between, the draft has a separator more than what is emitted. -/

/-- The edit writes what the emitter emits, with a separator behind. -/
def WritesLed (separator : Text) (x : Edit Unit) (m : Emit Text) : Prop :=
  Performs (· ++ separator) (fun _ => ()) x m

variable {separator : Text}

/-- A text followed by the separator. -/
theorem Writes.led (h : Writes y l) :
    WritesLed separator (do y; write separator) l := by
  intro d
  rw [result_bind, h d]
  rcases Emit.result l d.slate with ⟨h | a, s⟩ <;> simp [result_write]

/-- Two such texts are a joined one, followed by the separator. -/
theorem WritesLed.append (hl : WritesLed separator y l) (hr : WritesLed separator z r) :
    WritesLed separator (do y; z) (Emit.join l separator r) := by
  intro d
  simp only [Emit.join, result_bind, hl _, Emit.result_bind]
  rcases Emit.result l d.slate with ⟨h | a, s⟩
  · rfl
  · simp only [outcome_ok, hr _, Draft.slate_added, Emit.result_after]
    rcases Emit.result r s with ⟨h | b, s'⟩ <;> simp [Emit.result_pure]

/-- Cutting the separator off leaves what the emitter emits. -/
theorem WritesLed.trimmed (h : WritesLed separator y l) :
    Writes (do y; trimSuffix separator) l := by
  intro d
  rw [result_bind, h d]
  rcases Emit.result l d.slate with ⟨h | a, s⟩
  · rfl
  · simp only [outcome_ok, result_trimSuffix, Draft.trimSuffix_added, id_eq]

/-- The last text is led like the others, which is why there has to be one. -/
theorem writesLed_separated {xs : List (Edit Unit)} {ms : List (Emit Text)}
    (h : List.Forall₂ Writes xs ms) (hms : ms ≠ []) :
    WritesLed separator (concat (xs.map fun x => do x; write separator))
      (Emit.separated separator ms) := by
  induction h with
  | nil => exact absurd rfl hms
  | @cons x m xs ms hx hxs ih =>
    cases hxs with
    | nil =>
      have hlast : concat ([x].map fun x => do x; write separator) = (do x; write separator) :=
        bind_pure_unit
      rw [hlast]
      exact hx.led
    | cons => exact hx.led.append (ih (List.cons_ne_nil _ _))

theorem writes_separated {xs : List (Edit Unit)} {ms : List (Emit Text)}
    (h : List.Forall₂ Writes xs ms) (hms : ms ≠ []) :
    Writes (separated separator xs) (Emit.separated separator ms) :=
  (writesLed_separated h hms).trimmed

/-! ### Texts taken out

The operands of a concatenation are written, looked at and discarded again, since the function of
the dialect decides what stands around them. -/

/-- A text that is looked at and discarded leaves the state that writing it has led to. -/
theorem reads_taken (h : Writes y l) : Reads (taken y) l := by
  intro d
  simp only [taken, result_bind, result_length, h _]
  rcases Emit.result l d.slate with ⟨h | a, s⟩
  · rfl
  · simp only [outcome_ok, id_eq, result_span, result_truncate, result_pure]

/-- Several texts taken out one after the other. -/
theorem reads_takenAll {f : γ → Edit Unit} {g : δ → Emit Text} {cs : List γ} {ds : List δ}
    (h : List.Forall₂ (fun c d => Writes (f c) (g d)) cs ds) :
    Reads (takenAll (cs.map f)) (ds.mapM g) := by
  induction h with
  | nil => exact reads_pure []
  | cons hfirst _ ih =>
    rw [List.mapM_cons]
    exact (reads_taken hfirst).bind fun t => ih.bind fun ts => reads_pure (t :: ts)

end Edit

/-! ### Rows alike

The rows to write are worked out before anything is written. They hold edits in one case and
emitters in the other, and agree in all else. -/

namespace Edit

open Stateful

/-- Attempts that stop alike, or whose results are related. -/
abbrev Alike {α β : Type} (R : α → β → Prop) (x : Attempt CompileError α)
    (y : Attempt CompileError β) : Prop := x.Relates (· = ·) R y

/-- What comes first is the same attempt in both. -/
theorem alike_bind {α β γ : Type} {R : β → γ → Prop} (x : Attempt CompileError α)
    {f : α → Attempt CompileError β} {g : α → Attempt CompileError γ}
    (h : ∀ a, Alike R (f a) (g a)) : Alike R (x >>= f) (x >>= g) := .after (fun _ => rfl) x h

/-- Contents that write the same into a column. -/
inductive WritesContent : Content (Edit Unit) → Content → Prop
  | value (v : Value) : WritesContent (.value v) (.value v)
  | computed {x : Edit Unit} {m : Emit Text} (h : Writes x m) :
    WritesContent (.computed x) (.computed m)

/-- Cells that write the same into the same column. -/
structure WritesCell (c : Cell (Edit Unit)) (c' : Cell) : Prop where
  column : c.column = c'.column
  content : WritesContent c.content c'.content

/-- Rows of one entity that write the same. -/
structure WritesRow (r : Row (Edit Unit)) (r' : Row) : Prop where
  entity : r.entity = r'.entity
  cells : List.Forall₂ WritesCell r.cells r'.cells

/-- Rows that attempts find, writing the same. -/
abbrev WritesRows : Attempt CompileError (List (Row (Edit Unit))) →
    Attempt CompileError (List Row) → Prop := Alike (List.Forall₂ WritesRow)

section Rows

variable {st : Settings} {w : Column → Bool}

/-- Cells with values write them in both. -/
theorem writesCell_cellsOf (values : List (Column × Value)) :
    List.Forall₂ WritesCell (Row.cellsOf st w values) (Row.cellsOf st w values) := by
  rw [Row.cellsOf, Row.cellsOf, List.forall₂_map_left_iff, List.forall₂_map_right_iff,
    List.forall₂_same]
  exact fun (c, v) _ => ⟨rfl, .value v⟩

theorem writesRow_cellsOf (e : Entity) (values : List (Column × Value)) :
    WritesRow ⟨e, Row.cellsOf st w values⟩ ⟨e, Row.cellsOf st w values⟩ :=
  ⟨rfl, writesCell_cellsOf values⟩

theorem writesRow_ofRecord (t : Ty) (v : Value) :
    Alike WritesRow (Row.ofRecord st w t v) (Row.ofRecord st w t v) := by
  unfold Row.ofRecord
  cases st.registry.entity (some t) with
  | error e => exact .failed rfl
  | ok e => exact .returned (writesRow_cellsOf e _)

theorem writesRow_ofShape (fields : List (Field Ty)) (values : List Value) :
    Alike WritesRow (Row.ofShape st w fields values) (Row.ofShape st w fields values) :=
  alike_bind _ fun e => alike_bind _ fun found => .returned (writesRow_cellsOf e found)

theorem writesRow_ofMap (t : Ty) (entries : List (MapKey × Value)) :
    Alike WritesRow (Row.ofMap st w t entries) (Row.ofMap st w t entries) := by
  unfold Row.ofMap
  split
  · split
    · exact .failed rfl
    · refine alike_bind _ fun e => ?_
      split
      · exact .returned (writesRow_cellsOf e _)
      · exact .failed rfl
      · exact .failed rfl
  · exact .failed rfl

/-- A value is a row of its type: of a record, a map or a shape. -/
theorem writesRow_ofValue (v : Value) :
    Alike WritesRow (Row.ofValue st w v) (Row.ofValue st w v) := by
  unfold Row.ofValue
  dsimp only
  cases v.deref.type? with
  | none => exact .failed rfl
  | some t =>
    dsimp only
    split
    · exact .failed rfl
    · exact .failed rfl
    · exact writesRow_ofMap t _
    · exact writesRow_ofMap t []
    · split
      · exact writesRow_ofShape _ _
      · exact writesRow_ofRecord t _
    · exact writesRow_ofRecord t _
    · exact .failed rfl

/-- A slice has a row for each item. -/
theorem writesRows_allOfValue (v : Value) :
    WritesRows (Row.allOfValue st w v) (Row.allOfValue st w v) := by
  unfold Row.allOfValue
  cases v.listed? with
  | none => exact (writesRow_ofValue v).bind fun _ _ hr => .returned (.cons hr .nil)
  | some items =>
    exact Attempt.Relates.mapM (List.forall₂_same.mpr fun _ _ => rfl) fun v _ h =>
      h ▸ writesRow_ofValue v

theorem writesRows_rowsOfValue (e : Expr) :
    WritesRows (Rendering.rowsOfValue st e w) (Rendering.rowsOfValue st e w) := by
  unfold Rendering.rowsOfValue
  split
  · exact writesRows_allOfValue _
  · exact .failed rfl
  · exact .faulted

theorem writesRows_noRows (e : Expr) (c : Clause) :
    WritesRows (Rendering.noRows e c w) (Rendering.noRows e c w) := by
  unfold Rendering.noRows
  cases e.kind? with
  | none => exact .faulted
  | some k => exact .failed rfl

/-- The row of a constructor, from bindings that write the same. -/
theorem writesRow_ofBindings (t : Option Ty) {bs : List (Text × Expr × Edit Unit)}
    {bs' : List (Text × Expr × Emit Text)}
    (h : List.Forall₂ (fun b b' => b.1 = b'.1 ∧ b.2.1 = b'.2.1 ∧ Writes b.2.2 b'.2.2) bs bs') :
    Alike WritesRow (Row.ofBindings st w t bs) (Row.ofBindings st w t bs') := by
  unfold Row.ofBindings
  refine alike_bind _ fun e => Attempt.Relates.bind (R := List.Forall₂ (List.Forall₂ WritesCell))
    (.mapM h ?_) fun cells cells' hcells => .returned ⟨rfl, List.rel_flatten hcells⟩
  rintro ⟨name, expr, x⟩ ⟨_, _, m⟩ ⟨rfl, rfl, hx⟩
  refine alike_bind _ fun c => ?_
  dsimp only
  split
  · refine .returned ?_
    split
    · exact .cons ⟨rfl, .computed hx⟩ .nil
    · exact .nil
  · exact alike_bind _ fun v => .returned (writesCell_cellsOf [(c, v)])

end Rows

/-! ### Rows written

The contents of rows are edits themselves, written in the order of the columns. -/

/-- A value that is computed is read with the type of its column, and the type is not pending any
more when the computation has failed. -/
theorem writes_content {st : Settings} (c : Column) {x : Content (Edit Unit)} {m : Content}
    (h : WritesContent x m) : Writes (content st c x) (m.emit st c) := by
  cases h with
  | value v => exact writes_placeholder st v c.dataType
  | @computed x m hx =>
    refine (reads_setPending c.dataType).bind fun _ => writes_setPending [] ?_
    intro d
    rw [result_tryCatch, hx d, Emit.result_tryCatch]
    rcases Emit.result m d.slate with ⟨⟨cause, t⟩ | a, s⟩
    · cases cause <;> rfl
    · rfl

/-- Of related lists the first items that pass related tests are related. -/
theorem rel_find? {R : γ → δ → Prop} {p : γ → Bool} {q : δ → Bool} {cs : List γ} {ds : List δ}
    (h : List.Forall₂ R cs ds) (hpq : ∀ c d, R c d → p c = q d) :
    Option.Rel R (cs.find? p) (ds.find? q) := by
  induction h with
  | nil => exact .none
  | @cons c d cs ds hcd _ ih =>
    rw [List.find?_cons, List.find?_cons, hpq c d hcd]
    cases q d with
    | true => exact .some hcd
    | false => exact ih

/-- Rows that write the same have a content for the same columns. -/
theorem WritesRow.content? {r : Row (Edit Unit)} {r' : Row} (h : WritesRow r r') (c : Column) :
    Option.Rel WritesContent (r.content? c) (r'.content? c) := by
  have hcell := rel_find? (p := fun cell => cell.column = c) (q := fun cell => cell.column = c)
    h.cells fun _ _ hcell => by rw [hcell.column]
  rw [Row.content?, Row.content?]
  exact match r.cells.find? _, r'.cells.find? _, hcell with
    | _, _, .none => .none
    | _, _, .some hcell => .some hcell.content

/-- A column without a content is null in its row. -/
theorem writes_rowContents (st : Settings) {cols : List Column} (hcols : cols ≠ [])
    {r : Row (Edit Unit)} {r' : Row} (h : WritesRow r r') :
    Writes (rowContents st cols r) (Emit.rowContents st cols r') := by
  refine writes_separated ?_ (by simpa using hcols)
  rw [List.forall₂_map_left_iff, List.forall₂_map_right_iff, List.forall₂_same]
  intro c _
  exact match r.content? c, r'.content? c, h.content? c with
    | _, _, .none => writes_write _
    | _, _, .some hx => writes_content c hx

/-- Rows that write the same write the same columns. -/
theorem columnsOfRows_eq {rows : List (Row (Edit Unit))} {rows' : List Row}
    (h : List.Forall₂ WritesRow rows rows') :
    Emit.columnsOfRows rows = Emit.columnsOfRows rows' := by
  have hcolumns : rows.flatMap (fun r => r.cells.map (·.column)) =
      rows'.flatMap (fun r => r.cells.map (·.column)) := by
    induction h with
    | nil => rfl
    | cons hr _ ih =>
      rw [List.flatMap_cons, List.flatMap_cons, ih]
      congr 1
      rw [← List.forall₂_eq_eq_eq, List.forall₂_map_left_iff, List.forall₂_map_right_iff]
      exact hr.cells.imp fun _ _ hcell => hcell.column
  rw [Emit.columnsOfRows, Emit.columnsOfRows, hcolumns]

/-- A text inserted in front of what has been written since. -/
theorem writes_inserted (u : Text) (h : Writes y l) :
    Writes (do let start ← length; y; insertAt start u) (do let t ← l; return u ++ t) := by
  intro d
  simp only [result_bind, result_length, h _, Emit.result_bind]
  rcases Emit.result l d.slate with ⟨h | a, s⟩
  · rfl
  · simp only [outcome_ok, id_eq, result_insertAt, Emit.result_pure]

/-- The columns are inserted in front of the rows once all rows have been written. -/
theorem writes_insertRows (st : Settings) {rows : List (Row (Edit Unit))} {rows' : List Row}
    (h : List.Forall₂ WritesRow rows rows') :
    Writes (insertRows st rows) (Emit.insertRows st rows') := by
  have hcols := columnsOfRows_eq h
  have hcontents : ∀ cols ≠ [], ∀ before behind,
      List.Forall₂ Writes (rows.map fun r => enclose before (rowContents st cols r) behind)
        (rows'.map fun r => Emit.enclose before (Emit.rowContents st cols r) behind) := by
    intro cols hcols before behind
    rw [List.forall₂_map_left_iff, List.forall₂_map_right_iff]
    exact h.imp fun _ _ hr => writes_enclose _ _ (writes_rowContents st hcols hr)
  unfold insertRows Emit.insertRows
  cases h with
  | nil => exact performs_fail _
  | @cons first first' rest rest' hfirst hrest =>
    have hmixed := rel_find? (p := fun r => r.entity.type ≠ first.entity.type)
      (q := fun r => r.entity.type ≠ first'.entity.type) (.cons hfirst hrest)
      fun _ _ hr => by rw [hr.entity, hfirst.entity]
    dsimp only
    rw [hcols]
    match (first :: rest).find? _, (first' :: rest').find? _, hmixed with
    | _, _, .some hr =>
      dsimp only
      rw [hr.entity, hfirst.entity]
      exact performs_fail _
    | _, _, .none =>
      dsimp only
      split
      · exact performs_fail _
      · next hempty =>
        have hcontents := hcontents _ (by simpa using hempty)
        cases st.profile.insert with
        | values => exact writes_inserted _ (writes_separated (hcontents "(" ")") (by simp))
        | selectDual =>
          exact writes_inserted _ (writes_separated (hcontents "SELECT " " FROM DUAL") (by simp))

/-- An update has a single row, whose cells are assigned one after the other. -/
theorem writes_assignments (st : Settings) {rows : List (Row (Edit Unit))} {rows' : List Row}
    (h : List.Forall₂ WritesRow rows rows') :
    Writes (assignments st rows) (Emit.assignments st rows') := by
  cases h with
  | nil => exact performs_fail _
  | @cons r r' rest rest' hr hrest =>
    cases hrest with
    | nil =>
      refine writes_concat ?_
      rw [List.forall₂_map_left_iff, List.forall₂_map_right_iff]
      refine hr.cells.imp fun cell cell' hcell => ?_
      rw [hcell.column]
      exact writes_enclose _ _ (writes_content _ hcell.content)
    | cons _ hrest =>
      rw [assignments, Emit.assignments, List.length_cons, List.length_cons, List.length_cons,
        List.length_cons, hrest.length_eq]
      · exact performs_fail _
      · rintro _ ⟨⟩
      · rintro _ ⟨⟩

/-- Rows that are worked out alike go in front of what is done alike with them. -/
theorem performs_ofAttempt {R : γ → δ → Prop} {rows : Attempt CompileError γ}
    {rows' : Attempt CompileError δ} {f : γ → Edit β} {g : δ → Emit α} (h : Alike R rows rows')
    (hf : ∀ c d, R c d → Performs text value (f c) (g d)) :
    Performs text value (ofAttempt rows >>= f) (Emit.ofAttempt rows' >>= g) := by
  have hstop : ∀ cause, Performs text value (throw cause >>= f) (throw ⟨cause, []⟩ >>= g) :=
    fun cause d => by
      rw [result_bind, result_throw, Emit.result_bind, Emit.result_throw, outcome_error,
        Draft.added_nil]
  cases h with
  | returned h => exact hf _ _ h
  | failed h => exact h ▸ hstop _
  | faulted => exact hstop _

end Edit

end QueryTree
