import QueryTree.Proofs.Edited

/-!
# Compiling in place

An expression compiled into a draft in place leaves the draft that appending what it emits leaves,
whatever the draft holds, in every clause, and also where the compilation stops. There is one lemma
for every construct of the language: if the operands write what they emit, so does the construct.
The induction is on the tree, and on the number of nested inlinings.

## Main definitions

* `Editing.Performs`: an editing that writes in every position what a rendering emits there

## Main results

* `Editing.performs_binary`, `Editing.performs_call`, `Editing.performs_shape`: constructs
* `Expr.performs_editing`: the editing of an expression writes what its rendering emits
* `Draft.edit_eq_compile`: compiling in place is appending what is emitted
-/

namespace QueryTree

open Edit

/-- The editing writes in every position what the rendering emits there. -/
structure Editing.Performs (x : Editing) (r : Rendering) : Prop where
  expr : x.expr = r.expr
  value : ∀ c, Writes (x.value c) (r.value c)
  condition : ∀ c, Writes (x.condition c) (r.condition c)
  members : Writes x.members r.members
  argument : ∀ c, Writes (x.argument c) (r.argument c)
  projection : Writes x.projection r.projection
  listing : ∀ c ds, Lists (x.listing c ds) (r.listing c ds)
  row : ∀ c w, WritesRows (x.row c w) (r.row c w)
  rows : ∀ c w, WritesRows (x.rows c w) (r.rows c w)
  addends : List.Forall₂ (fun a b => ∀ c, Writes (a c) (b c)) x.addends r.addends

namespace Editing

variable {st : Settings} {x y z : Editing} {l r q : Rendering}

theorem performs_unsupported (st : Settings) (e : Expr) :
    Performs (unsupported st e) (.unsupported st e) where
  expr := rfl
  value := Edit.performs_unsupported e
  condition := Edit.performs_unsupported e
  members := Edit.performs_unsupported e .in_
  argument := Edit.performs_unsupported e
  projection := Edit.performs_unsupported e .select
  listing c _ := Edit.performs_unsupported e c
  row _ _ := writesRows_rowsOfValue e
  rows c w := writesRows_noRows (w := w) e c
  addends := .cons (Edit.performs_unsupported e) .nil

/-- A constant is written in a way of its own in every position. -/
theorem performs_constant (st : Settings) (v : Value) (t : Option Ty) :
    Performs (constant st v t) (.constant st v t) where
  expr := rfl
  value _ := writes_constantValue st v
  condition c := writes_constantCondition v c
  members := writes_constantMembers st v
  argument c := writes_constantArgument st v c
  projection := writes_constantProjection st v
  listing c ds := lists_constantListing v c ds
  row _ _ := writesRows_allOfValue v
  rows _ _ := writesRows_allOfValue v
  addends := .cons (fun _ => writes_constantValue st v) .nil

/-! ### Columns and operators

Which token stands between operands, and which of them are put into parentheses, is read off the
tree. So both take the same branch, and the lemmas on joined texts apply to it. -/

/-- An item of a group or order list. -/
theorem lists_value (c : Clause) (ds : List Direction) {a : Edit Unit} {m : Emit Text}
    (h : Edit.Writes a m) : Lists
      (do
        let start ← Edit.length
        a
        Edit.setPending []
        Edit.finishItem c ds (← Edit.span start)
        return ds.tail)
      (do
        let t ← m
        Emit.setPending []
        return (Emit.listItem c ds t, ds.tail)) := by
  intro d
  simp only [Stateful.result_bind, Edit.result_length, h d, Emit.result_bind]
  rcases Emit.result m d.slate with ⟨h | a, s⟩
  · rfl
  · simp only [outcome_ok, id_eq, result_setPending_added, result_span, result_finishItem,
      Stateful.result_pure, Emit.setPending, Emit.result_modify, Emit.result_pure]

/-- Constructs with a value and a condition share the rest: they are folded first, and a list, an
item or a row is made of the value. -/
theorem performs_scalar {e : Expr} {value condition : Clause → Edit Unit}
    {value' condition' : Clause → Emit Text} {isTest : Bool}
    {addends : Option (List (Clause → Edit Unit))} {addends' : Option (List (Clause → Emit Text))}
    (hvalue : ∀ c, Writes (value c) (value' c))
    (hcondition : ∀ c, Writes (condition c) (condition' c))
    (haddends : Option.Rel (List.Forall₂ fun a b => ∀ c, Writes (a c) (b c)) addends addends') :
    Performs (scalar st e value condition isTest addends)
      (.scalar st e value' condition' isTest addends') := by
  have folded : ∀ c, Writes (folding st e (constantValue st) (value c))
      (Emit.folding st e (Emit.constantValue st) (value' c)) :=
    fun c => performs_folding (writes_constantValue st) (hvalue c)
  have test : ∀ c, Writes (folding st e (constantCondition · c) (condition c))
      (Emit.folding st e (Emit.constantCondition · c) (condition' c)) :=
    fun c => performs_folding (writes_constantCondition · c) (hcondition c)
  refine
    { expr := rfl
      value := folded
      condition := test
      members := performs_folding (writes_constantMembers st) (Edit.performs_unsupported e .in_)
      argument := fun c => ?_
      projection := writes_selectItem st [] (folded .select)
      listing := fun c ds => lists_value c ds (folded c)
      row := fun _ _ => writesRows_rowsOfValue e
      rows := fun c w => ?_
      addends := ?_ }
  · simp only [scalar, Rendering.scalar]
    split
    · exact writes_enclose _ _ (writes_stated (test c))
    · exact folded c
  · refine alike_bind _ fun v? => ?_
    cases v? with
    | none => exact writesRows_noRows e c
    | some v => exact writesRows_allOfValue v
  · cases haddends with
    | none => exact .cons folded .nil
    | some h => exact h

/-- A member as a condition is compared with a true literal. -/
theorem performs_member (st : Settings) (e : Expr) (name : Text) (t o : Option Ty) :
    Performs (member st e name t o) (.member st e name t o) := by
  refine performs_scalar (fun c => writes_columnOf st c _) (fun c => ?_) .none
  split
  · exact performs_fail _
  · intro d
    simp only [Stateful.result_bind, writes_columnOf st c _ d, Emit.result_bind]
    rcases Emit.result (Emit.columnOf st c (.member e name t o)) d.slate with ⟨h | a, s⟩
    · rfl
    · simp [result_setPending_added, result_write, Emit.setPending, Emit.result_modify,
        Emit.result_pure]

/-- The operands are grouped by their kind, which both know from the tree. -/
theorem writes_logical (op : BinaryOp) (hl : Performs x l) (hr : Performs y r) (c : Clause) :
    Writes (logical op x y c) (Rendering.logical op l r c) := by
  simp only [logical, Rendering.logical, hl.expr, hr.expr]
  split
  · exact writes_nil
  · split
    · exact hr.condition c
    · exact writes_joined _ (writes_groupedCondition _ (hl.condition c))
        (writes_groupedCondition _ (hr.condition c))

theorem writes_negatable (isNegated : Bool) (h : Performs x r) (c : Clause) :
    Writes (negatable x isNegated c) (r.negatable isNegated c) := by
  rw [negatable, Rendering.negatable, h.expr]
  exact writes_negated _ (writes_groupedCondition _ (h.condition c))

/-- A condition compared with a truth literal is found in both alike. -/
theorem rel_truthComparison? (hl : Performs x l) (hr : Performs y r) :
    Option.Rel (fun a b => Performs a.1 b.1 ∧ a.2 = b.2) (Rendering.truthComparison? x y)
      (Rendering.truthComparison? l r) := by
  unfold Rendering.truthComparison?
  rw [hl.expr, hr.expr]
  cases r.expr.literalTruth? with
  | none =>
    cases l.expr.literalTruth? with
    | none => exact .none
    | some w =>
      dsimp only
      split
      · exact .some ⟨hr, rfl⟩
      · exact .none
  | some v =>
    cases l.expr.literalTruth? with
    | none =>
      dsimp only
      split
      · exact .some ⟨hl, rfl⟩
      · exact .none
    | some w =>
      dsimp only
      split
      · exact .some ⟨hl, rfl⟩
      · split
        · exact .some ⟨hr, rfl⟩
        · exact .none

/-- A null on the left changes sides with an operand that is none, in both. -/
theorem writes_comparison (op : BinaryOp) (hl : Performs x l) (hr : Performs y r) (c : Clause) :
    Writes (comparison op x y c) (Rendering.comparison op l r c) := by
  have plain : ∀ {x y l r}, Performs x l → Performs y r →
      Writes (compared op (grouped x.expr.needsParens (x.value c))
        (grouped y.expr.needsParens (y.value c)))
      (Emit.compared op (Emit.grouped l.expr.needsParens (l.value c))
        (Emit.grouped r.expr.needsParens (r.value c))) := by
    intro x y l r hl hr
    rw [hl.expr, hr.expr]
    exact writes_compared op (writes_grouped _ (hl.value c)) (writes_grouped _ (hr.value c))
  have sides : ∀ swap : Bool,
      Performs (if swap then (y, x) else (x, y)).1 (if swap then (r, l) else (l, r)).1 ∧
        Performs (if swap then (y, x) else (x, y)).2 (if swap then (r, l) else (l, r)).2 := by
    intro swap
    cases swap with
    | false => exact ⟨hl, hr⟩
    | true => exact ⟨hr, hl⟩
  obtain ⟨hfirst, hsecond⟩ := sides (l.expr.isNullConstant && !r.expr.isNullConstant)
  unfold comparison Rendering.comparison
  dsimp only
  rw [hl.expr, hr.expr]
  -- Both tests on the operands are made in one match, so that the cases stay those that agree.
  split
  · exact match Rendering.truthComparison? x y, Rendering.truthComparison? l r,
      rel_truthComparison? hl hr with
    | _, _, .none => plain hfirst hsecond
    | some (_, literal), some (_, literal'), .some ⟨hcond, hliteral⟩ => by
      obtain rfl : literal = literal' := hliteral
      exact writes_negatable _ hcond c
  · exact plain hfirst hsecond

theorem writes_binaryCondition (op : BinaryOp) (hl : Performs x l) (hr : Performs y r)
    (c : Clause) : Writes (binaryCondition op x y c) (Rendering.binaryCondition op l r c) := by
  unfold binaryCondition Rendering.binaryCondition
  split
  · exact writes_logical op hl hr c
  · split
    · exact writes_comparison op hl hr c
    · split <;> exact performs_fail _

/-- An addition of texts takes the texts of its addends out of the draft; other operators are
inserted between their operands. -/
theorem writes_binaryValue (op : BinaryOp) (hl : Performs x l) (hr : Performs y r) (c : Clause) :
    Writes (binaryValue st op x y c) (Rendering.binaryValue st op l r c) := by
  unfold binaryValue Rendering.binaryValue
  dsimp only
  rw [hl.expr, hr.expr]
  split
  · exact writes_truthCase (writes_binaryCondition op hl hr c)
  · split
    · refine (reads_takenAll ?_).bind fun parts => writes_write _
      exact (List.rel_append hl.addends hr.addends).imp fun _ _ h => h c
    · cases op.token? with
      | none => exact performs_fail _
      | some token =>
        exact writes_join token (writes_grouped _ (hl.value c)) (writes_grouped _ (hr.value c))

/-- The addends of a nested addition are joined with those of the outer one. -/
theorem performs_binary (op : BinaryOp) (hl : Performs x l) (hr : Performs y r) :
    Performs (binary st op x y) (.binary st op l r) := by
  rw [binary, Rendering.binary, hl.expr, hr.expr]
  refine performs_scalar (writes_binaryValue op hl hr) (writes_binaryCondition op hl hr) ?_
  split
  · exact .some (List.rel_append hl.addends hr.addends)
  · exact .none

/-- A quotation is the quoted expression, except where it is read as a row. -/
theorem performs_quoted (h : Performs x r) (t : Option Ty) :
    Performs (Rendering.quoted st x t) (Rendering.quoted st r t) where
  __ := h
  expr := by simp only [Rendering.quoted, h.expr]
  row c w := by
    simp only [Rendering.quoted, h.expr]
    cases r.expr.unquote with
    | new | init | const =>
      rw [if_pos rfl, if_pos rfl]
      exact h.row c w
    | _ => exact writesRows_rowsOfValue _
  addends := .cons h.value .nil

theorem performs_unary (op : UnaryOp) (h : Performs x r) (t : Option Ty) :
    Performs (unary st op x t) (.unary st op r t) := by
  unfold unary Rendering.unary
  dsimp only
  rw [h.expr]
  refine performs_scalar (fun c => ?_) (fun c => ?_) .none
  · cases op with
    | not => exact writes_truthCase (writes_negatable true h c)
    | convert => exact h.value c
    | negate => exact writes_prefixed "-" (writes_grouped _ (h.value c))
    | _ => exact performs_fail _
  · cases op with
    | not => exact writes_negatable true h c
    | convert => exact h.condition c
    | _ => exact performs_fail _

/-- A choice whose condition is known is the chosen branch. -/
theorem performs_cond (hc : Performs x l) (ha : Performs y r) (hb : Performs z q) :
    Performs (cond st x y z) (.cond st l r q) := by
  unfold cond Rendering.cond
  dsimp only
  rw [hc.expr, ha.expr, hb.expr]
  refine performs_scalar (fun c => ?_) (fun c => ?_) .none
  · refine (reads_ofAttempt _).bind fun truth? => ?_
    match truth? with
    | some true => exact ha.value c
    | some false => exact hb.value c
    | none =>
      exact writes_enclose _ _ (writes_join _ (writes_stated (hc.condition c))
        (writes_join _ (ha.value c) (hb.value c)))
  · refine (reads_ofAttempt _).bind fun truth? => ?_
    match truth? with
    | some true => exact ha.condition c
    | some false => exact hb.condition c
    | none => exact performs_fail _

/-! ### Method calls

Calls are looked up in the same table. What is not found there is computed before anything is
written. -/

/-- The pattern is written as a value, and the wildcards are put around it afterwards. -/
theorem writes_likeTest (isNegated : Bool) (pattern : Pattern) (ht : Performs x l)
    (ha : Performs y r) (c : Clause) : Writes (likeTest st isNegated pattern x y c)
      (Rendering.likeTest st isNegated pattern l r c) :=
  writes_join _ (ht.value c) (writes_rewritten _ (ha.value c))

/-- Membership in a list without members is known without writing it. -/
theorem writes_membership (hx : Performs x l) (hlist : Performs y r) (isNegated : Bool)
    (c : Clause) : Writes (membership x y isNegated c) (Rendering.membership l r isNegated c) := by
  unfold membership Rendering.membership
  rw [hlist.expr]
  split
  · exact writes_write _
  · refine writes_join _ (hx.value c) ?_
    split
    · exact performs_fail _
    · exact hlist.members

/-- An aggregate function without an operand counts rows, or is refused. -/
theorem writes_aggregate (c : Clause) (h : Performs x r) :
    Writes (aggregate c x) (Rendering.aggregate c r) := by
  unfold aggregate Rendering.aggregate
  rw [h.expr]
  refine writes_enclose _ _ ?_
  split
  · split
    · exact writes_write _
    · exact performs_fail _
  · exact h.argument c

/-- One case per method of the language. A method without the argument that it looks at faults in
both. -/
theorem writes_intrinsic {args : List Editing} {args' : List Rendering} (ht : Performs x r)
    (ha : List.Forall₂ Performs args args') (c : Clause) (i : Intrinsic) :
    Writes (intrinsic st x args c i) (Rendering.intrinsic st r args' c i) := by
  cases i with
  | like isNegated pattern =>
    cases ha with
    | nil => exact performs_fault
    | cons ha => exact writes_likeTest isNegated pattern ht ha c
  | membership isNegated =>
    cases ha with
    | nil => exact performs_fault
    | cons ha => exact writes_membership ht ha isNegated c
  | contains =>
    cases ha with
    | nil => exact performs_fault
    | cons ha =>
      simp only [intrinsic, Rendering.intrinsic, ht.expr]
      split
      · exact writes_membership ha ht false c
      · exact writes_likeTest false .anywhere ht ha c
  | isNullOrEmpty => exact writes_enclose _ _ (writes_join _ (ht.value c) (ht.value c))
  | equals =>
    cases ha with
    | nil => exact performs_fault
    | cons ha => exact (performs_binary .equal ht ha).condition c
  | function name => exact writes_enclose _ _ (ht.value c)
  | trim => exact writes_rewritten _ (ht.value c)
  | aggregate clause => exact writes_aggregate clause ht

/-- Other methods are computed, and what they return is a constant. -/
theorem writes_calledValue (e : Expr) (method : Text) (c : Clause) {constant : Value → Edit Unit}
    {constant' : Value → Emit Text} (h : ∀ v, Writes (constant v) (constant' v)) :
    Writes (calledValue st e method c constant)
      (Rendering.calledValue st e method c constant') := by
  unfold calledValue Rendering.calledValue
  rcases e.eval st.pre with (cause | _) | v
  · exact performs_fail _
  · exact performs_fault
  · exact h v

/-- A method without a receiver takes its first argument as one. -/
theorem performs_operands {args : List Editing} {args' : List Rendering} (hr : Performs x r)
    (ha : List.Forall₂ Performs args args') :
    Performs (Rendering.operands x args).1 (Rendering.operands r args').1 ∧
      List.Forall₂ Performs (Rendering.operands x args).2 (Rendering.operands r args').2 := by
  unfold Rendering.operands
  rw [hr.expr]
  cases r.expr.isHole with
  | false => exact ⟨hr, ha⟩
  | true =>
    cases ha with
    | nil => exact ⟨hr, .nil⟩
    | cons ha has => exact ⟨ha, has⟩

theorem exprs_eq {xs : List Editing} {rs : List Rendering} (h : List.Forall₂ Performs xs rs) :
    xs.map (·.expr) = rs.map (·.expr) := by
  rw [← List.forall₂_eq_eq_eq, List.forall₂_map_left_iff, List.forall₂_map_right_iff]
  exact h.imp fun _ _ hx => hx.expr

/-- A method is looked up by its name and the kind of its receiver, which are the same in both. -/
theorem writes_writeCall {args : List Editing} {args' : List Rendering} (hr : Performs x r)
    (ha : List.Forall₂ Performs args args') (method : Text) (t : Option Ty) (callee : Option Text)
    (c : Clause) (asCondition : Bool) {constant : Value → Edit Unit} {constant' : Value → Emit Text}
    (h : ∀ v, Writes (constant v) (constant' v)) :
    Writes (writeCall st x method args t callee c asCondition constant)
      (Rendering.emitCall st r method args' t callee c asCondition constant') := by
  obtain ⟨ht, hrest⟩ := performs_operands hr ha
  have hrule : Rendering.rule? x method = Rendering.rule? r method := by
    rw [Rendering.rule?, Rendering.rule?, hr.expr]
  unfold writeCall Rendering.emitCall
  dsimp only
  rw [hrule, hr.expr, exprs_eq ha, ht.expr, hrest.length_eq]
  cases Rendering.rule? r method with
  | none => exact writes_calledValue _ method c h
  | some i =>
    dsimp only
    split
    · exact performs_fail _
    · split
      · exact writes_intrinsic ht hrest c i
      · split
        · exact writes_truthCase (writes_intrinsic ht hrest c i)
        · exact performs_fail _

theorem performs_call {args : List Editing} {args' : List Rendering} (hr : Performs x r)
    (ha : List.Forall₂ Performs args args') (method : Text) (t : Option Ty)
    (callee : Option Text) :
    Performs (call st x method args t callee) (.call st r method args' t callee) := by
  unfold call Rendering.call
  dsimp only
  rw [hr.expr, exprs_eq ha]
  exact performs_scalar
    (fun c => writes_writeCall hr ha method t callee c false (writes_constantValue st))
    (fun c => writes_writeCall hr ha method t callee c true (writes_constantCondition · c)) .none

/-! ### Rows, shapes, lists and functions

Members are written one after the other, so these constructs follow from the lemmas on lists of
edits. -/

theorem writes_allColumns (st : Settings) (p : Param) :
    Writes (allColumns st p) (Rendering.allColumns st p) := by
  refine (reads_row st p).bind fun (e, name) => ?_
  intro d
  simp only [Stateful.result_bind, result_write, result_addField_added, Emit.result_bind,
    Emit.addField, Emit.result_modify, Emit.result_pure]
  simp

/-- A row on its own is selected with all its columns, and has no value. -/
theorem performs_param (st : Settings) (p : Param) : Performs (param st p) (.param st p) where
  __ := performs_unsupported st (.param p)
  argument c := by
    simp only [param, Rendering.param]
    split
    · exact writes_write _
    · exact performs_fail _
  projection := writes_allColumns st p

/-- Bindings of the same names, whose expressions write what they emit. -/
abbrev PerformsBinding (b : Text × Editing) (b' : Text × Rendering) : Prop :=
  b.1 = b'.1 ∧ Performs b.2 b'.2

variable {bs : List (Text × Editing)} {bs' : List (Text × Rendering)}

/-- A bound row stands for all its columns; another binding is an item under its name. -/
theorem writes_memberItems (h : List.Forall₂ PerformsBinding bs bs') :
    Writes (memberItems st bs) (Rendering.memberItems st bs') := by
  refine writes_concat ?_
  rw [List.forall₂_map_left_iff, List.forall₂_map_right_iff]
  refine h.imp ?_
  rintro ⟨name, x⟩ ⟨_, r⟩ ⟨rfl, hx⟩
  dsimp only
  rw [hx.expr]
  cases r.expr.unquote with
  | param p => exact writes_allColumns st p
  | _ => exact writes_selectItem st name (hx.value .select)

theorem writesRows_shapeRow (t : Option Ty) (h : List.Forall₂ PerformsBinding bs bs') (c : Clause)
    (w : Column → Bool) :
    WritesRows (Rendering.shapeRow st t bs c w) (Rendering.shapeRow st t bs' c w) := by
  refine (writesRow_ofBindings t ?_).bind fun _ _ hr => .returned (.cons hr .nil)
  rw [List.forall₂_map_left_iff, List.forall₂_map_right_iff]
  exact h.imp fun _ _ ⟨hname, hx⟩ => ⟨hname, hx.expr, hx.value c⟩

theorem performs_shape (whole : Expr) (t : Option Ty) (h : List.Forall₂ PerformsBinding bs bs') :
    Performs (shape st whole t bs) (.shape st whole t bs') where
  __ := performs_unsupported st whole
  projection := writes_memberItems h
  listing c ds := by
    refine lists_listings ?_ ds
    rw [List.forall₂_map_left_iff, List.forall₂_map_right_iff]
    exact h.imp fun _ _ ⟨_, hx⟩ => hx.listing c
  row := writesRows_shapeRow t h
  rows := writesRows_shapeRow t h

variable {xs : List Editing} {rs : List Rendering}

/-- The items of a list, with a comma behind each. -/
theorem writesLed_items (t : Text) {a : Edit Unit} {m : Emit Text} (hfirst : WritesLed "," a m)
    (h : List.Forall₂ Performs xs rs) :
    WritesLed ","
      (do
        a
        Edit.concat (xs.map fun x => do
          Edit.setPending t
          x.value .in_
          Edit.write ","))
      ((rs.map fun r => do
        Emit.setPending t
        r.value .in_).foldl (fun done m => Emit.join done "," m) m) := by
  induction h generalizing a m with
  -- What has been written so far is general, since the emitter joins the items from the left.
  | nil =>
    have hend : (do a; Edit.concat []) = a := bind_pure_unit
    simp only [List.map_nil, List.foldl_nil, hend]
    exact hfirst
  | @cons x r xs rs hx _ ih =>
    have hitem : Writes (do Edit.setPending t; x.value .in_)
        (do Emit.setPending t; r.value .in_) := (reads_setPending t).bind fun _ => hx.value .in_
    rw [List.map_cons, List.map_cons, List.foldl_cons]
    simpa only [Edit.concat, bind_assoc] using ih (hfirst.append hitem.led)

/-- The parentheses around a list, whose last comma is cut off. -/
theorem writes_listed {a : Edit Unit} {m : Emit Text} (h : WritesLed "," a m) :
    Writes
      (do
        Edit.write "("
        a
        Edit.setPending []
        Edit.trimSuffix ","
        Edit.write ")")
      (do
        let t ← Emit.after "(" m
        Emit.setPending []
        return "(" ++ t ++ ")") := by
  intro d
  simp only [Stateful.result_bind, result_write, h _, Emit.result_bind, Emit.result_after,
    Draft.slate_added]
  rcases Emit.result m d.slate with ⟨h | t, s⟩
  · simp
  · simp only [outcome_ok, result_setPending_added, result_trimSuffix, Draft.trimSuffix_added]
    simp [Emit.setPending, Emit.result_modify, Emit.result_pure]

/-- The type that is pending in front of the list is that of all its members. -/
theorem writes_memberList (h : List.Forall₂ Performs xs rs) :
    Writes (memberList xs) (Rendering.memberList rs) := by
  unfold memberList Rendering.memberList
  cases h with
  | nil => exact writes_write _
  | @cons x r xs rs hx hxs =>
    refine reads_pending.bind fun t => writes_listed ?_
    have hfirst : Writes (do Edit.setPending t; x.value .in_)
        (do Emit.setPending t; r.value .in_) := (reads_setPending t).bind fun _ => hx.value .in_
    simpa only [List.map_cons, Edit.concat, bind_assoc] using writesLed_items t hfirst.led hxs

theorem performs_items (whole : Expr) (h : List.Forall₂ Performs xs rs) :
    Performs (items st whole xs) (.items st whole rs) where
  __ := performs_unsupported st whole
  members := writes_memberList h
  projection := by
    refine writes_concat ?_
    rw [List.forall₂_map_left_iff, List.forall₂_map_right_iff]
    exact h.imp fun _ _ hx => hx.projection
  listing c ds := by
    refine lists_listings ?_ ds
    rw [List.forall₂_map_left_iff, List.forall₂_map_right_iff]
    exact h.imp fun _ _ hx => hx.listing c
  rows c w := by
    simp only [items, Rendering.items]
    split
    · exact (Attempt.Relates.mapM h fun _ _ hx => hx.row c w).bind
        fun _ _ hrows => .returned (List.rel_flatten hrows)
    · exact writesRows_noRows whole c

theorem performs_lambda (h : Performs x r) (ps : List Param) :
    Performs (Rendering.lambda st x ps) (Rendering.lambda st r ps) where
  __ := h
  expr := by simp only [Rendering.lambda, h.expr]
  row c w := by
    simp only [Rendering.lambda, h.expr]
    exact writesRows_rowsOfValue _
  addends := .cons h.value .nil

/-- An invocation, whose inlined body may be missing. -/
theorem performs_invocation (whole : Expr) {body : Except Expr.InlineError Expr}
    {edit : Expr → Editing} {render : Expr → Rendering} (h : ∀ e, Performs (edit e) (render e)) :
    Performs (invocation st whole fun _ => body.map edit)
      (.invocation st whole fun _ => body.map render) := by
  cases body with
  | error e =>
    exact
      { expr := rfl
        value := fun _ => performs_fail _
        condition := fun _ => performs_fail _
        members := performs_fail _
        argument := fun _ => performs_fail _
        projection := performs_fail _
        listing := fun _ _ => performs_fail _
        row := fun _ _ => writesRows_rowsOfValue whole
        rows := fun _ _ => .failed rfl
        addends := .cons (fun _ => performs_fail _) .nil }
  | ok e =>
    exact
      { h e with
        expr := rfl
        row := fun _ _ => writesRows_rowsOfValue whole
        addends := .cons (h e).value .nil }

end Editing

/-! ### Trees

The two compilations are two readings of one tree, by the same recursion. One case per construct is
left, and each is a lemma above. -/

namespace Expr

open Editing

variable {st : Settings} {edit : Expr → Editing} {render : Expr → Rendering}

mutual

/-- One case per construct: the editing of an expression writes what its rendering emits if those
of inlined bodies do. -/
theorem performs_editingWith (hin : ∀ e, Performs (edit e) (render e)) :
    (e : Expr) → Performs (editingWith st edit e) (renderWith st render e)
  | hole => by
    rw [editingWith, renderWith]
    exact performs_unsupported st hole
  | const v t => by
    rw [editingWith, renderWith]
    exact performs_constant st v t
  | param p => by
    rw [editingWith, renderWith]
    exact performs_param st p
  | member e name t o => by
    rw [editingWith, renderWith]
    exact performs_member st e name t o
  | binary op l r => by
    rw [editingWith, renderWith]
    exact performs_binary op (performs_editingWith hin l) (performs_editingWith hin r)
  | unary op e t => by
    cases op with
    | quote =>
      rw [editingWith, renderWith]
      exact performs_quoted (performs_editingWith hin e) t
    | _ =>
      rw [editingWith, renderWith]
      · exact performs_unary _ (performs_editingWith hin e) t
      · nofun
      · nofun
  | call e method args t f => by
    rw [editingWith, renderWith]
    exact performs_call (performs_editingWith hin e) (performs_editingAll hin args) method t f
  | new t bs => by
    rw [editingWith, renderWith]
    exact performs_shape _ t (performs_editingBindings hin bs)
  | init t bs => by
    rw [editingWith, renderWith]
    exact performs_shape _ t (performs_editingBindings hin bs)
  | list t es => by
    rw [editingWith, renderWith]
    exact performs_items _ (performs_editingAll hin es)
  | array t es => by
    rw [editingWith, renderWith]
    exact performs_items _ (performs_editingAll hin es)
  | lambda body ps => by
    rw [editingWith, renderWith]
    exact performs_lambda (performs_editingWith hin body) ps
  | invoke target args => by
    rw [editingWith, renderWith]
    exact performs_invocation _ hin
  | cond c a b => by
    rw [editingWith, renderWith]
    exact performs_cond (performs_editingWith hin c) (performs_editingWith hin a)
      (performs_editingWith hin b)

theorem performs_editingAll (hin : ∀ e, Performs (edit e) (render e)) : (es : List Expr) →
    List.Forall₂ Performs (editingAll st edit es) (renderAll st render es)
  | [] => .nil
  | e :: es => .cons (performs_editingWith hin e) (performs_editingAll hin es)

theorem performs_editingBindings (hin : ∀ e, Performs (edit e) (render e)) :
    (bs : List (Text × Expr)) →
    List.Forall₂ PerformsBinding (editingBindings st edit bs) (renderBindings st render bs)
  | [] => .nil
  | (_, e) :: bs =>
    .cons ⟨rfl, performs_editingWith hin e⟩ (performs_editingBindings hin bs)

end

/-- The induction is on the number of nested inlinings, with the whole induction over trees
inside. -/
theorem performs_editingTo (st : Settings) (depth : Nat) (e : Expr) :
    Performs (e.editingTo st depth) (e.renderTo st depth) := by
  induction depth generalizing e with
  | zero => exact performs_unsupported st hole
  | succ depth ih => exact performs_editingWith ih e

/-- What an expression writes into a draft is what it emits, in every position. -/
theorem performs_editing (st : Settings) (e : Expr) : Performs (e.editing st) (e.render st) :=
  performs_editingTo st inlineDepth e

end Expr

/-! ### Drafts

A clause asks the expression for one position. What comes before and behind is the same in both,
whatever has been written. -/

namespace Draft

variable {d : Draft} {e : Expr} {c : Clause} {ds : List Direction}

/-- Running an emitter has the outcome of an edit that writes what it emits. -/
theorem run_eq_result {x : Edit Unit} {m : Emit Text} (h : Writes x m) :
    d.run m = (Stateful.result x d).swap := by
  rw [h d, run]
  show (match Emit.result m d.slate with
    | (.ok t, s) => _
    | (.error h, s) => _) = _
  rcases Emit.result m d.slate with ⟨h | t, s⟩ <;> rfl

/-- A group or order list, whose directions to come are not needed any more. -/
theorem writes_listing {x : Edit (List Direction)} {m : Emit (Text × List Direction)}
    (h : Lists x m) : Writes (do let _ ← x) (do return (← m).1) := by
  intro d
  rw [Stateful.result_bind, h d, Emit.result_bind]
  rcases Emit.result m d.slate with ⟨h | a, s⟩ <;> rfl

/-- Each clause asks for one position, or for the rows, which are written after they have been
worked out. -/
theorem writes_clause (st : Settings) (e : Expr) (c : Clause) (ds : List Direction) :
    Writes (Edit.clause st e c ds) (emitted st e c ds) := by
  have h := Expr.performs_editing st e
  cases c with
  | select => exact h.projection
  | insert => exact performs_ofAttempt (h.rows _ _) fun _ _ hrows => writes_insertRows st hrows
  | update => exact performs_ofAttempt (h.rows _ _) fun _ _ hrows => writes_assignments st hrows
  | where_ => exact h.condition .where_
  | join => exact h.condition .join
  | having => exact h.condition .having
  | in_ => exact h.members
  | groupBy => exact writes_listing (h.listing .groupBy ds)
  | orderBy => exact writes_listing (h.listing .orderBy ds)
  | max => exact Editing.writes_aggregate .max h
  | min => exact Editing.writes_aggregate .min h
  | avg => exact Editing.writes_aggregate .avg h
  | sum => exact Editing.writes_aggregate .sum h
  | count => exact Editing.writes_aggregate .count h
  | unknown n => exact performs_fail _

/-- A missing expression is refused, with the name of the function where the clause is one. -/
theorem result_missing (d : Draft) (c : Clause) :
    Stateful.result (Edit.missing d.settings c) d = (d.compileHole c).swap := by
  have aggregate : ∀ c, Stateful.result (Editing.aggregate c (.unsupported d.settings .hole)) d =
      (d.run (Rendering.aggregate c (.unsupported d.settings .hole))).swap := fun c => by
    rw [run_eq_result (Editing.writes_aggregate c (Editing.performs_unsupported _ _)),
      Prod.swap_swap]
  cases c with
  | max => exact aggregate .max
  | min => exact aggregate .min
  | avg => exact aggregate .avg
  | sum => exact aggregate .sum
  | count => exact aggregate .count
  | _ => rfl

/-- Items end with a separator, which is cut off behind the last one. -/
theorem result_finish (d : Draft) (c : Clause) (start : Nat) :
    Stateful.result (Edit.finish c start) d = (d.finish c start).swap := by
  have trimmed : ∀ f : Edit Unit, Stateful.result (do Edit.trimSuffix itemSeparator; f) d =
      Stateful.result f (d.trimSuffix itemSeparator) := fun f => by
    rw [Stateful.result_bind, Edit.result_trimSuffix]
  cases c with
  | select =>
    rw [Edit.finish, trimmed, Stateful.result_bind, Edit.result_length, finish]
    dsimp only
    split <;> rfl
  | update =>
    rw [Edit.finish, trimmed, Stateful.result_bind, Edit.result_length, finish]
    dsimp only
    split <;> rfl
  | _ => rfl

/-- **Compiling into a draft in place leaves the draft, and stops for the reason, that appending
what is emitted does.** -/
theorem edit_eq_compile (d : Draft) (e : Expr) (c : Clause) (ds : List Direction) :
    d.edit e c ds = d.compile e c ds := by
  show (Stateful.result (Edit.compile d.settings e c ds) d).swap = _
  rw [Edit.compile, Stateful.result_bind, Edit.result_length, compile]
  dsimp only
  split
  · rw [result_missing, Prod.swap_swap]
  · rw [run_eq_result (writes_clause d.settings e c ds), Stateful.result_bind]
    rcases Stateful.result (Edit.clause d.settings e c ds) d with ⟨h | ⟨⟩, d'⟩
    · rfl
    · exact (congrArg Prod.swap (result_finish d' c d.text.length)).trans (Prod.swap_swap _)

end Draft

end QueryTree
