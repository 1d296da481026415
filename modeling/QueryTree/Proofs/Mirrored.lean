import QueryTree.Compile.Draft
import QueryTree.Proofs.Simulated

/-!
# Renamed expressions in simulated compilations

The rendering of a renamed expression mirrors the rendering of the expression: in every position
what the two emit agrees. Each construct of the language is one function on renderings and has one
lemma here, the tree follows by recursion, and inlined bodies by induction on how deeply they nest.
So what a clause emits for an expression, it emits for the renamed one from every related state.

## Main definitions

* `Simulation.Contents`, `Simulation.Rows`: rows that agree
* `Simulation.Mirrors`: renderings that agree in every position

## Main results

* `Simulation.mirrors_scalar`, `Simulation.mirrors_call`, … : one lemma per construct
* `Expr.mirrors_renderTo`: renamed expressions have renderings that mirror theirs
* `Simulation.agree_emitted`: what a clause emits
-/

namespace QueryTree

open Emit

namespace Simulation

variable {S : Simulation} {st : Settings}

/-! ### Rows that agree

A cell to be written holds a value or an emitter. Values are the same in both compilations, and
emitters agree. -/

/-- The same bound value, or emitters that agree. -/
inductive Contents (S : Simulation) : Content → Content → Prop
  | value (v : Value) : Contents S (.value v) (.value v)
  | computed {m m' : Emit Text} (h : S.Agree S.Same m m') : Contents S (.computed m) (.computed m')

/-- Cells of the same column with contents that agree. -/
structure Cells (S : Simulation) (c c' : Cell) : Prop where
  column : c.column = c'.column
  content : S.Contents c.content c'.content

/-- Rows of the same entity with cells that agree. -/
structure Rows (S : Simulation) (r r' : Row) : Prop where
  entity : r.entity = r'.entity
  cells : List.Forall₂ S.Cells r.cells r'.cells

/-- The same reason to have no rows, but for a parameter's name, or rows that agree. -/
abbrev RowResults (S : Simulation) (x y : Attempt CompileError (List Row)) : Prop :=
  x.Relates (CompileError.Renamed S.rows) (List.Forall₂ S.Rows) y

/-- The cells of a record hold values, which are the same. -/
theorem cells_cellsOf (w : Column → Bool) (values : List (Column × Value)) :
    List.Forall₂ S.Cells (Row.cellsOf st w values) (Row.cellsOf st w values) := by
  refine List.forall₂_same.mpr fun cell hcell => ?_
  obtain ⟨⟨c, v⟩, -, rfl⟩ := List.mem_map.mp hcell
  exact ⟨rfl, .value v⟩

/-- The rows that a value holds do not depend on a row parameter. -/
theorem rowResults_allOfValue (w : Column → Bool) (v : Value) :
    S.RowResults (Row.allOfValue st w v) (Row.allOfValue st w v) := by
  match h : Row.allOfValue st w v with
  | .error (.error e) => exact .failed (.same e)
  | .error .fault => exact .faulted
  | .ok rows =>
    refine .returned (List.forall₂_same.mpr ?_)
    exact Row.of_allOfValue (Q := fun r => S.Rows r r) (fun _ values _ _ =>
      ⟨rfl, cells_cellsOf w values⟩) h

/-- Rows are read off the value of an expression, which both have, or neither has. -/
theorem rowResults_rowsOfValue (e : Expr) (w : Column → Bool) :
    S.RowResults (Rendering.rowsOfValue st e w) (Rendering.rowsOfValue st (e.rename S.rows) w) := by
  have heval : EvaluateAlike S.rows (e.eval st.pre) ((e.rename S.rows).eval st.pre) :=
    Expr.eval_rename st.pre e
  rw [Rendering.rowsOfValue, Rendering.rowsOfValue, Expr.kind?_rename]
  generalize e.eval st.pre = x, (e.rename S.rows).eval st.pre = y at heval
  cases heval with
  | failed h =>
    cases e.kind? with
    | some k => exact .failed (.row k h)
    | none => exact .faulted
  | faulted => exact .faulted
  | returned h =>
    subst h
    exact rowResults_allOfValue w _

theorem rowResults_noRows (e : Expr) (c : Clause) (w : Column → Bool) :
    S.RowResults (Rendering.noRows e c w) (Rendering.noRows (e.rename S.rows) c w) := by
  rw [Rendering.noRows, Rendering.noRows, Expr.kind?_rename]
  split
  · exact .failed (.same _)
  · exact .faulted

/-- Rows are read off the folded value, which is the same; without one there are no rows. -/
theorem rowResults_foldedRows (e : Expr) (c : Clause) (w : Column → Bool) :
    S.RowResults (Rendering.foldedRows st e (Rendering.noRows e) c w)
      (Rendering.foldedRows st (e.rename S.rows) (Rendering.noRows (e.rename S.rows)) c w) := by
  rw [Rendering.foldedRows, Rendering.foldedRows, Expr.folded?_rename]
  refine Attempt.Relates.bind (R := (· = ·)) (.refl .same (fun _ => rfl) _) fun v? _ h => ?_
  rw [← h]
  cases v? with
  | some v => exact rowResults_allOfValue w v
  | none => exact rowResults_noRows e c w

/-! ### Renderings that mirror others

A rendering says what an expression emits in each position. Two of them mirror each other when this
agrees position by position, so that a construct can be treated without saying which position it is
used in. -/

/-- The second is the rendering of the renamed expression, and both agree in every position. -/
structure Mirrors (S : Simulation) (r r' : Rendering) : Prop where
  expr : r'.expr = r.expr.rename S.rows
  admits : S.rows.Admits r.expr
  value : ∀ c, S.Agree S.Same (r.value c) (r'.value c)
  condition : ∀ c, S.Agree S.Same (r.condition c) (r'.condition c)
  members : S.Agree S.Same r.members r'.members
  argument : ∀ c, S.Agree S.Same (r.argument c) (r'.argument c)
  projection : S.Agree S.Same r.projection r'.projection
  listing : ∀ c ds, S.AgreeListings (r.listing c ds) (r'.listing c ds)
  row : ∀ c w, S.RowResults (r.row c w) (r'.row c w)
  rows : ∀ c w, S.RowResults (r.rows c w) (r'.rows c w)
  addends : List.Forall₂ (fun m m' => ∀ c, S.Agree S.Same (m c) (m' c)) r.addends r'.addends

variable {e : Expr}

/-- All positions stop for the same reason, except that rows are looked for in the value. -/
theorem mirrors_unsupported (h : S.rows.Admits e) :
    S.Mirrors (.unsupported st e) (.unsupported st (e.rename S.rows)) where
  expr := rfl
  admits := h
  value := agree_unsupported (Expr.kind?_rename e)
  condition := agree_unsupported (Expr.kind?_rename e)
  members := agree_unsupported (Expr.kind?_rename e) .in_
  argument := agree_unsupported (Expr.kind?_rename e)
  projection := agree_unsupported (Expr.kind?_rename e) .select
  listing c _ := agree_unsupported (Expr.kind?_rename e) c
  row _ w := rowResults_rowsOfValue e w
  rows c w := rowResults_noRows e c w
  addends := .cons (agree_unsupported (Expr.kind?_rename e)) .nil

/-- A constant is not changed by renaming. -/
theorem mirrors_constant (v : Value) (t : Option Ty) :
    S.Mirrors (.constant st v t) (.constant st v t) where
  expr := by simp only [Rendering.constant, Expr.rename]
  admits := Renaming.admits_const
  value _ := agree_constantValue v
  condition := agree_constantCondition v
  members := agree_constantMembers v
  argument := agree_constantArgument v
  projection := agree_constantProjection v
  listing := agree_constantListing v
  row _ w := rowResults_allOfValue w v
  rows _ w := rowResults_allOfValue w v
  addends := .cons (fun _ => agree_constantValue v) .nil

/-! ### Single values

Most constructs are single values. They fold where they can and share the positions of lists, rows
and aggregates. -/

/-- A single value mirrors another one as soon as their values, their conditions and their operands
agree; all other positions are made of these. -/
theorem mirrors_scalar {value value' condition condition' : Clause → Emit Text} {isTest : Bool}
    {addends addends' : Option (List (Clause → Emit Text))} (he : S.rows.Admits e)
    (hv : ∀ c, S.Agree S.Same (value c) (value' c))
    (hc : ∀ c, S.Agree S.Same (condition c) (condition' c))
    (ha : Option.Rel (List.Forall₂ fun m m' => ∀ c, S.Agree S.Same (m c) (m' c)) addends addends') :
    S.Mirrors (.scalar st e value condition isTest addends)
      (.scalar st (e.rename S.rows) value' condition' isTest addends') := by
  have folded : ∀ c, S.Agree S.Same (folding st e (constantValue st) (value c))
      (folding st (e.rename S.rows) (constantValue st) (value' c)) :=
    fun c => agree_folding e agree_constantValue (hv c)
  have test : ∀ c, S.Agree S.Same (folding st e (constantCondition · c) (condition c))
      (folding st (e.rename S.rows) (constantCondition · c) (condition' c)) :=
    fun c => agree_folding e (agree_constantCondition · c) (hc c)
  refine ⟨rfl, he, folded, test, ?_, ?_, ?_, ?_, ?_, ?_, ?_⟩
  · exact agree_folding e agree_constantMembers (agree_unsupported (Expr.kind?_rename e) .in_)
  · intro c
    show S.Agree S.Same (if c = .count && isTest then _ else _)
      (if c = .count && isTest then _ else _)
    split
    · exact (test c).stated.enclose _ _
    · exact folded c
  · exact agree_selectItem (folded .select) []
  · intro c ds
    exact (folded c).bind fun _ _ ht => (agree_settle []).bind fun _ _ _ =>
      agree_pure ⟨ht.map (listItem c ds), rfl⟩
  · exact fun _ w => rowResults_rowsOfValue e w
  · exact rowResults_foldedRows e
  · cases ha with
    | none => exact .cons folded .nil
    | some h => exact h

/-- The column is that of the renamed row. -/
theorem mirrors_member {name : Text} {type owner : Option Ty} (he : S.rows.Admits e) :
    S.Mirrors (.member st e name type owner) (.member st (e.rename S.rows) name type owner) := by
  have hmember : S.rows.Admits (.member e name type owner) := Renaming.admits_member.mpr he
  have hcolumn : ∀ c, S.Agree S.Same (columnOf st c (.member e name type owner))
      (columnOf st c (.member (e.rename S.rows) name type owner)) := by
    intro c
    have h : S.Agree S.Same (columnOf st c _) _ := agree_columnOf c hmember
    rwa [Expr.rename] at h
  have heq : Expr.member (e.rename S.rows) name type owner =
      (Expr.member e name type owner).rename S.rows := by rw [Expr.rename]
  rw [Rendering.member, Rendering.member, heq]
  refine mirrors_scalar hmember (fun c => heq ▸ hcolumn c) (fun c => ?_) .none
  rw [Expr.isBool_rename]
  split
  · exact agree_fail _
  · exact (heq ▸ hcolumn c).bind fun _ _ ht => (agree_settle []).bind fun _ _ _ =>
      agree_pure (ht.map (· ++ st.profile.truthTest))

/-! ### Operators

Each lemma says that the emitters of an operator agree if those of its sides do. How an operator is
emitted depends on the shape of its sides, and both have the same one. -/

section Operators

variable {l l' r r' : Rendering}

/-- A truth literal is one on both sides, so the same operand is left out. -/
theorem agree_logical (op : BinaryOp) (hl : S.Mirrors l l') (hr : S.Mirrors r r') (c : Clause) :
    S.Agree S.Same (l.logical op r c) (l'.logical op r' c) := by
  rw [Rendering.logical, Rendering.logical, hl.expr, hr.expr, Expr.literalTruth?_rename,
    Expr.literalTruth?_rename, Expr.needsParens_rename, Expr.needsParens_rename]
  split
  · exact agree_pure .rfl
  · split
    · exact hr.condition c
    · exact ((hl.condition c).groupedCondition _).joined ((hr.condition c).groupedCondition _) _

theorem agree_negatable (h : S.Mirrors l l') (isNegated : Bool) (c : Clause) :
    S.Agree S.Same (l.negatable isNegated c) (l'.negatable isNegated c) := by
  rw [Rendering.negatable, Rendering.negatable, h.expr, Expr.isLogical_rename]
  exact ((h.condition c).groupedCondition _).negated isNegated

/-- Both compare the same side with the same truth literal, or neither compares one. -/
theorem truthComparison?_rel (hl : S.Mirrors l l') (hr : S.Mirrors r r') :
    Option.Rel (fun a b => S.Mirrors a.1 b.1 ∧ a.2 = b.2) (l.truthComparison? r)
      (l'.truthComparison? r') := by
  let Alike (a b : Rendering × Bool) : Prop := S.Mirrors a.1 b.1 ∧ a.2 = b.2
  have left : ∀ v, Option.Rel Alike (some (l, v)) (some (l', v)) := fun v => .some ⟨hl, rfl⟩
  have right : ∀ v, Option.Rel Alike (some (r, v)) (some (r', v)) := fun v => .some ⟨hr, rfl⟩
  rw [Rendering.truthComparison?.eq_def, Rendering.truthComparison?.eq_def, hl.expr, hr.expr,
    Expr.literalTruth?_rename, Expr.literalTruth?_rename, Expr.isCondition_rename,
    Expr.isCondition_rename]
  split
  · split
    · exact left _
    · split
      · exact right _
      · exact .none
  · split
    · exact left _
    · exact .none
  · split
    · exact right _
    · exact .none
  · exact .none

/-- Whether a side is null, and whether it is a truth literal, is not changed by renaming. -/
theorem agree_comparison (op : BinaryOp) (hl : S.Mirrors l l') (hr : S.Mirrors r r') (c : Clause) :
    S.Agree S.Same (l.comparison op r c) (l'.comparison op r' c) := by
  have plain : ∀ {l l' r r' : Rendering}, S.Mirrors l l' → S.Mirrors r r' → S.Agree S.Same
      (compared op (grouped l.expr.needsParens (l.value c))
        (grouped r.expr.needsParens (r.value c)))
      (compared op (grouped l'.expr.needsParens (l'.value c))
        (grouped r'.expr.needsParens (r'.value c))) := by
    intro l l' r r' hl hr
    rw [hl.expr, hr.expr, Expr.needsParens_rename, Expr.needsParens_rename]
    exact ((hl.value c).grouped _).compared ((hr.value c).grouped _) op
  have ordered : ∀ x y, x = (if l.expr.isNullConstant && !r.expr.isNullConstant then (r, l)
      else (l, r)) → y = (if l'.expr.isNullConstant && !r'.expr.isNullConstant then (r', l')
      else (l', r')) → S.Mirrors x.1 y.1 ∧ S.Mirrors x.2 y.2 := by
    rintro _ _ rfl rfl
    rw [hl.expr, hr.expr, Expr.isNullConstant_rename, Expr.isNullConstant_rename]
    split
    · exact ⟨hr, hl⟩
    · exact ⟨hl, hr⟩
  have sides := plain (ordered _ _ rfl rfl).1 (ordered _ _ rfl rfl).2
  rw [Rendering.comparison, Rendering.comparison]
  by_cases hop : (decide (op = .equal) || decide (op = .notEqual)) = true
  · rw [if_pos hop, if_pos hop]
    have htruth := truthComparison?_rel hl hr
    generalize l.truthComparison? r = x, l'.truthComparison? r' = y at htruth
    cases htruth with
    | none => exact sides
    | @some a b hab =>
      obtain ⟨hab, hv⟩ := hab
      show S.Agree S.Same (a.1.negatable ((op = .equal) != a.2) c)
        (b.1.negatable ((op = .equal) != b.2) c)
      rw [← hv]
      exact agree_negatable hab _ c
  · rw [if_neg hop, if_neg hop]
    exact sides

theorem agree_binaryCondition (op : BinaryOp) (hl : S.Mirrors l l') (hr : S.Mirrors r r')
    (c : Clause) : S.Agree S.Same (l.binaryCondition op r c) (l'.binaryCondition op r' c) := by
  rw [Rendering.binaryCondition, Rendering.binaryCondition]
  split
  · exact agree_logical op hl hr c
  · split
    · exact agree_comparison op hl hr c
    · split
      · exact agree_fail _
      · exact agree_fail _

/-- The types of both sides decide whether texts are concatenated, and types are kept. -/
theorem agree_binaryValue (op : BinaryOp) (hl : S.Mirrors l l') (hr : S.Mirrors r r') (c : Clause) :
    S.Agree S.Same (l.binaryValue st op r c) (l'.binaryValue st op r' c) := by
  rw [Rendering.binaryValue, Rendering.binaryValue]
  beta_reduce
  rw [hl.expr, hr.expr, Expr.type?_rename, Expr.type?_rename, Expr.arithmeticParens_rename,
    Expr.arithmeticParens_rename]
  split
  · exact (agree_binaryCondition op hl hr c).truthCase
  · split
    · refine (agree_mapM (List.rel_append hl.addends hr.addends) fun _ _ h => h c).bind ?_
      exact fun _ _ hts => agree_pure ((same_of_forall₂ hts).map st.profile.concatAll)
    · split
      · exact agree_fail _
      · exact ((hl.value c).grouped _).join ((hr.value c).grouped _) _

/-- What an operator emits is put together from what its sides emit. -/
theorem mirrors_binary {op : BinaryOp} (hl : S.Mirrors l l') (hr : S.Mirrors r r') :
    S.Mirrors (.binary st op l r) (.binary st op l' r') := by
  have heq : Expr.binary op l'.expr r'.expr = (Expr.binary op l.expr r.expr).rename S.rows := by
    rw [Expr.rename, hl.expr, hr.expr]
  rw [Rendering.binary, Rendering.binary, heq]
  refine mirrors_scalar (Renaming.admits_binary.mpr ⟨hl.admits, hr.admits⟩)
    (agree_binaryValue op hl hr) (agree_binaryCondition op hl hr) ?_
  split
  · exact .some (List.rel_append hl.addends hr.addends)
  · exact .none

/-- A quote hides nothing of an expression where text is emitted. -/
theorem mirrors_quoted (h : S.Mirrors l l') (type : Option Ty) :
    S.Mirrors (.quoted st l type) (.quoted st l' type) := by
  have heq : Expr.unary .quote l'.expr type = (Expr.unary .quote l.expr type).rename S.rows := by
    rw [Expr.rename, h.expr]
  refine { h with
    expr := heq
    admits := Renaming.admits_unary.mpr h.admits
    row := fun c w => ?_
    addends := .cons h.value .nil }
  have whole : S.RowResults (Rendering.rowsOfValue st (.unary .quote l.expr type) w)
      (Rendering.rowsOfValue st (.unary .quote l'.expr type) w) := by
    rw [heq]
    exact rowResults_rowsOfValue _ w
  rw [Rendering.quoted, Rendering.quoted]
  simp only
  rw [h.expr, Expr.unquote_rename]
  cases l.expr.unquote with
  | new | init | const =>
    simp only [Expr.rename]
    exact h.row c w
  | _ =>
    simp only [Expr.rename]
    rw [← h.expr]
    exact whole

theorem mirrors_unary {op : UnaryOp} (h : S.Mirrors l l') (type : Option Ty) :
    S.Mirrors (.unary st op l type) (.unary st op l' type) := by
  have heq : Expr.unary op l'.expr type = (Expr.unary op l.expr type).rename S.rows := by
    rw [Expr.rename, h.expr]
  rw [Rendering.unary, Rendering.unary, heq]
  refine mirrors_scalar (Renaming.admits_unary.mpr h.admits) (fun c => ?_) (fun c => ?_) .none
  · split
    · exact h.value c
    · rw [h.expr, Expr.isBinary_rename]
      exact (((h.value c).grouped _).after _ _).bind fun _ _ ht =>
        agree_pure (ht.map fun t => "-" ++ t)
    · exact (agree_negatable h true c).truthCase
    · exact agree_fail _
  · split
    · exact agree_negatable h true c
    · exact h.condition c
    · exact agree_fail _

/-- The test is decided in both, with the same result, or in neither. -/
theorem mirrors_cond {c c' a a' b b' : Rendering} (hc : S.Mirrors c c') (ha : S.Mirrors a a')
    (hb : S.Mirrors b b') : S.Mirrors (.cond st c a b) (.cond st c' a' b') := by
  have heq : Expr.cond c'.expr a'.expr b'.expr =
      (Expr.cond c.expr a.expr b.expr).rename S.rows := by
    rw [Expr.rename, hc.expr, ha.expr, hb.expr]
  have decided : S.Agree (· = ·) (ofAttempt (c.expr.closedTruth? st.pre).widen)
      (ofAttempt (c'.expr.closedTruth? st.pre).widen) := by
    rw [hc.expr, Expr.closedTruth?_rename]
    exact agree_ofAttempt (.refl .same (fun _ => rfl) _)
  rw [Rendering.cond, Rendering.cond, heq]
  refine mirrors_scalar (Renaming.admits_cond.mpr ⟨hc.admits, ha.admits, hb.admits⟩)
    (fun cl => ?_) (fun cl => ?_) .none
  · refine decided.bind fun d _ hd => ?_
    rw [← hd]
    rcases d with _ | _ | _
    · exact ((hc.condition cl).stated.join ((ha.value cl).join (hb.value cl) _) _).enclose _ _
    · exact hb.value cl
    · exact ha.value cl
  · refine decided.bind fun d _ hd => ?_
    rw [← hd]
    rcases d with _ | _ | _
    · exact agree_fail _
    · exact hb.condition cl
    · exact ha.condition cl

end Operators

/-! ### Calls

Functions of SQL emit their operands; all other calls are computed. -/

section Calls

open Rendering

variable {x x' list list' target target' arg arg' receiver receiver' : Rendering}
  {args args' : List Rendering}

theorem agree_likeTest (isNegated : Bool) (pattern : Pattern) (ht : S.Mirrors target target')
    (ha : S.Mirrors arg arg') (c : Clause) :
    S.Agree S.Same (likeTest st isNegated pattern target arg c)
      (likeTest st isNegated pattern target' arg' c) :=
  (ht.value c).join ((ha.value c).bind fun _ _ h =>
    agree_pure (h.map (pattern.emit st.profile))) _

/-- An empty list is empty after renaming. -/
theorem agree_membership (hx : S.Mirrors x x') (hl : S.Mirrors list list') (isNegated : Bool)
    (c : Clause) :
    S.Agree S.Same (membership x list isNegated c) (membership x' list' isNegated c) := by
  rw [membership, membership, hl.expr, Expr.isEmptyList_rename, Expr.isHole_rename]
  split
  · exact agree_pure .rfl
  · refine (hx.value c).join ?_ _
    split
    · exact agree_fail _
    · exact hl.members

/-- The argument of an aggregate has a position of its own. -/
theorem agree_aggregate (c : Clause) (h : S.Mirrors x x') :
    S.Agree S.Same (aggregate c x) (aggregate c x') := by
  rw [aggregate, aggregate, h.expr, Expr.isHole_rename]
  refine Agree.enclose ?_ _ _
  split
  · split
    · exact agree_pure .rfl
    · exact agree_fail _
  · exact h.argument c

/-- One case per function that SQL knows. -/
theorem agree_intrinsic (ht : S.Mirrors target target') (ha : List.Forall₂ S.Mirrors args args')
    (c : Clause) (i : Intrinsic) :
    S.Agree S.Same (intrinsic st target args c i) (intrinsic st target' args' c i) := by
  cases i with
  | like isNegated pattern =>
    cases ha with
    | nil => exact agree_fault
    | cons ha _ => exact agree_likeTest isNegated pattern ht ha c
  | membership isNegated =>
    cases ha with
    | nil => exact agree_fault
    | cons ha _ => exact agree_membership ht ha isNegated c
  | contains =>
    cases ha with
    | nil => exact agree_fault
    | cons ha _ =>
      rw [intrinsic, intrinsic, ht.expr, Expr.type?_rename]
      split
      · exact agree_membership ha ht false c
      · exact agree_likeTest false .anywhere ht ha c
  | isNullOrEmpty => exact ((ht.value c).join (ht.value c) _).enclose _ _
  | equals =>
    cases ha with
    | nil => exact agree_fault
    | cons ha _ => exact (mirrors_binary ht ha).condition c
  | function name => exact (ht.value c).enclose _ _
  | trim => exact (ht.value c).bind fun _ _ h => agree_pure (h.map st.profile.trim)
  | aggregate clause => exact agree_aggregate clause ht

/-- The receiver is missing in both, so the same arguments are looked at. -/
theorem mirrors_operands (hr : S.Mirrors receiver receiver')
    (ha : List.Forall₂ S.Mirrors args args') :
    S.Mirrors (operands receiver args).1 (operands receiver' args').1 ∧
      List.Forall₂ S.Mirrors (operands receiver args).2 (operands receiver' args').2 := by
  rw [operands.eq_def, operands.eq_def, hr.expr, Expr.isHole_rename]
  cases receiver.expr.isHole with
  | false => exact ⟨hr, ha⟩
  | true =>
    cases ha with
    | nil => exact ⟨hr, .nil⟩
    | cons h hs => exact ⟨h, hs⟩

/-- The expressions of the arguments are those of the first compilation, renamed. -/
theorem map_expr_eq (ha : List.Forall₂ S.Mirrors args args') :
    args'.map (·.expr) = Expr.renameAll S.rows (args.map (·.expr)) := by
  induction ha with
  | nil => rfl
  | cons h _ ih => rw [List.map_cons, List.map_cons, Expr.renameAll, h.expr, ih]

theorem admitsAll_map_expr (ha : List.Forall₂ S.Mirrors args args') :
    S.rows.AdmitsAll (args.map (·.expr)) := by
  induction ha with
  | nil => exact Renaming.admitsAll_nil
  | cons h _ ih =>
    rw [List.map_cons]
    exact Renaming.admitsAll_cons.mpr ⟨h.admits, ih⟩

/-- The rule of a call is chosen by its method and by whether it has a receiver. -/
theorem agree_emitCall (hr : S.Mirrors receiver receiver') (ha : List.Forall₂ S.Mirrors args args')
    (method : Text) (type : Option Ty) (callee : Option Text) (c : Clause) (asCondition : Bool)
    {constant : Value → Emit Text} (h : ∀ v, S.Agree S.Same (constant v) (constant v)) :
    S.Agree S.Same (emitCall st receiver method args type callee c asCondition constant)
      (emitCall st receiver' method args' type callee c asCondition constant) := by
  obtain ⟨ht, hrest⟩ := mirrors_operands hr ha
  have heq : Expr.call receiver'.expr method (args'.map (·.expr)) type callee =
      (Expr.call receiver.expr method (args.map (·.expr)) type callee).rename S.rows := by
    rw [Expr.rename, hr.expr, map_expr_eq ha]
  have hrule : rule? receiver' method = rule? receiver method := by
    rw [rule?, rule?, hr.expr, Expr.isHole_rename]
  rw [emitCall, emitCall, hrule, heq]
  simp only
  rw [ht.expr, Expr.isHole_rename, ← hrest.length_eq]
  split
  · exact agree_calledValue _ method c h
  · split
    · exact agree_fail _
    · have hintrinsic : ∀ i, S.Agree S.Same (intrinsic st _ _ c i) (intrinsic st _ _ c i) :=
        agree_intrinsic ht hrest c
      split
      · exact hintrinsic _
      · split
        · exact (hintrinsic _).truthCase
        · exact agree_fail _

/-- A call emits its operands or a value that is computed. -/
theorem mirrors_call (hr : S.Mirrors receiver receiver') (ha : List.Forall₂ S.Mirrors args args')
    (method : Text) (type : Option Ty) (callee : Option Text) :
    S.Mirrors (.call st receiver method args type callee)
      (.call st receiver' method args' type callee) := by
  have heq : Expr.call receiver'.expr method (args'.map (·.expr)) type callee =
      (Expr.call receiver.expr method (args.map (·.expr)) type callee).rename S.rows := by
    rw [Expr.rename, hr.expr, map_expr_eq ha]
  rw [call, call, heq, Expr.isBool_rename]
  exact mirrors_scalar (Renaming.admits_call.mpr ⟨hr.admits, admitsAll_map_expr ha⟩)
    (fun c => agree_emitCall hr ha method type callee c false agree_constantValue)
    (fun c => agree_emitCall hr ha method type callee c true (agree_constantCondition · c)) .none

end Calls

/-! ### Rows, shapes and lists

The constructs with several columns, where a row parameter can stand by itself. -/

section Shapes

open Rendering

/-- The star stands behind the alias of the renamed row. -/
theorem agree_allColumns {p : Param} (hp : S.rows.Occurs p) :
    S.Agree S.Same (allColumns st p) (allColumns st (S.rows.apply p)) := by
  refine (agree_row hp).bind ?_
  rintro ⟨e, name⟩ ⟨_, name'⟩ ⟨rfl, hname⟩
  let columns (name : Text) : Text := if st.singleTable then "*" else st.ident name ++ ".*"
  have hcolumns : S.Same (columns name) (columns name') := hname.map columns
  exact (agree_addField hcolumns).bind fun _ _ _ => agree_pure (hcolumns.map (· ++ itemSeparator))

/-- The one construct that renaming changes by itself. -/
theorem mirrors_param {p : Param} (hp : S.rows.Occurs p) :
    S.Mirrors (.param st p) (.param st (S.rows.apply p)) := by
  have h : S.Mirrors (.unsupported st (.param p)) (.unsupported st (.param (S.rows.apply p))) := by
    have h : S.Mirrors (.unsupported st _) _ :=
      mirrors_unsupported (Renaming.admits_param.mpr hp)
    rwa [Expr.rename] at h
  refine { h with argument := fun c => ?_, projection := agree_allColumns hp }
  show S.Agree S.Same (if c = .count then _ else _) (if c = .count then _ else _)
  split
  · exact agree_pure .rfl
  · exact agree_fail _

/-- Bindings of the same names to renderings that mirror each other. -/
abbrev Bindings (S : Simulation) (bs bs' : List (Text × Rendering)) : Prop :=
  List.Forall₂ (fun b b' => b.1 = b'.1 ∧ S.Mirrors b.2 b'.2) bs bs'

variable {bs bs' : List (Text × Rendering)}

/-- A row among the members is all its columns; everything else is an item. -/
theorem agree_memberItems (h : S.Bindings bs bs') :
    S.Agree S.Same (memberItems st bs) (memberItems st bs') := by
  refine agree_concat (List.forall₂_map_left_iff.mpr (List.forall₂_map_right_iff.mpr ?_))
  refine h.imp ?_
  rintro ⟨name, e⟩ ⟨_, e'⟩ ⟨rfl, he⟩
  have hadmits := he.admits.unquote
  dsimp only
  rw [he.expr, Expr.unquote_rename]
  cases hx : e.expr.unquote with
  | param p =>
    simp only [Expr.rename]
    rw [hx, Renaming.admits_param] at hadmits
    exact agree_allColumns hadmits
  | _ =>
    simp only [Expr.rename]
    exact agree_selectItem (he.value .select) name

/-- A binding that depends on a row is emitted by both, and every other one is the same value. -/
theorem rows_ofBindings (type : Option Ty) (w : Column → Bool)
    {ms ms' : List (Text × Expr × Emit Text)}
    (h : List.Forall₂ (fun b b' => b.1 = b'.1 ∧ b'.2.1 = b.2.1.rename S.rows ∧
      S.Agree S.Same b.2.2 b'.2.2) ms ms') :
    (Row.ofBindings st w type ms).Relates (CompileError.Renamed S.rows) S.Rows
      (Row.ofBindings st w type ms') := by
  have same : ∀ {α : Type} (x : Attempt CompileError α),
      x.Relates (CompileError.Renamed S.rows) (· = ·) x := fun x => .refl .same (fun _ => rfl) x
  refine (same (Row.target st type)).bind fun e _ he => ?_
  rw [← he]
  refine Attempt.Relates.bind (R := List.Forall₂ (List.Forall₂ S.Cells))
    (Attempt.Relates.mapM h ?_) fun cells cells' hcells =>
      .returned ⟨rfl, List.rel_flatten hcells⟩
  rintro ⟨name, expr, m⟩ ⟨_, _, m'⟩ ⟨rfl, rfl, hm⟩
  refine (same (Row.columnOf e name)).bind fun c _ hc => ?_
  rw [← hc]
  simp only [Expr.isClosed_rename]
  cases hclosed : expr.isClosed with
  | false =>
    simp only [Bool.not_false, if_true]
    split
    · exact .returned (.cons ⟨rfl, .computed hm⟩ .nil)
    · exact .returned .nil
  | true =>
    simp only [Bool.not_true, Bool.false_eq_true, if_false, Expr.rename_of_isClosed hclosed]
    refine (same _).bind fun v _ hv => ?_
    rw [← hv]
    exact .returned (cells_cellsOf w _)

theorem rowResults_shapeRow (h : S.Bindings bs bs') (type : Option Ty) (c : Clause)
    (w : Column → Bool) :
    S.RowResults (shapeRow st type bs c w) (shapeRow st type bs' c w) := by
  refine Attempt.Relates.bind (rows_ofBindings type w ?_) fun _ _ hr => .returned (.cons hr .nil)
  refine List.forall₂_map_left_iff.mpr (List.forall₂_map_right_iff.mpr (h.imp ?_))
  rintro ⟨name, e⟩ ⟨_, e'⟩ ⟨rfl, he⟩
  exact ⟨rfl, he.expr, he.value c⟩

theorem mirrors_shape (he : S.rows.Admits e) (type : Option Ty) (h : S.Bindings bs bs') :
    S.Mirrors (.shape st e type bs) (.shape st (e.rename S.rows) type bs') :=
  { (mirrors_unsupported he : S.Mirrors (.unsupported st e) _) with
    projection := agree_memberItems h
    listing := fun c ds => by
      refine agree_listings (List.forall₂_map_left_iff.mpr (List.forall₂_map_right_iff.mpr ?_)) ds
      exact h.imp fun _ _ hb ds => hb.2.listing c ds
    row := fun c w => rowResults_shapeRow h type c w
    rows := fun c w => rowResults_shapeRow h type c w }

variable {es es' : List Rendering}

/-- Each member starts with the type that was pending at the start of the list. -/
theorem agree_memberList (h : List.Forall₂ S.Mirrors es es') :
    S.Agree S.Same (memberList es) (memberList es') := by
  refine agree_pending.bind fun t t' ht => ?_
  have item : ∀ {e e' : Rendering}, S.Mirrors e e' → S.Agree S.Same
      (do setPending t; e.value .in_) (do setPending t'; e'.value .in_) := fun he =>
    (agree_setPending ht).bind fun _ _ _ => he.value .in_
  cases h with
  | nil => exact agree_pure .rfl
  | cons hfirst hrest =>
    refine ((agree_foldl_join ?_ (item hfirst) ",").after _ _).bind fun _ _ ht =>
      (agree_settle []).bind fun _ _ _ => agree_pure (ht.map fun t => "(" ++ t ++ ")")
    exact List.forall₂_map_left_iff.mpr (List.forall₂_map_right_iff.mpr (hrest.imp fun _ _ => item))

theorem mirrors_items (he : S.rows.Admits e) (h : List.Forall₂ S.Mirrors es es') :
    S.Mirrors (.items st e es) (.items st (e.rename S.rows) es') :=
  { (mirrors_unsupported he : S.Mirrors (.unsupported st e) _) with
    members := agree_memberList h
    projection := agree_concat (List.forall₂_map_left_iff.mpr
      (List.forall₂_map_right_iff.mpr (h.imp fun _ _ he => he.projection)))
    listing := fun c ds => by
      refine agree_listings (List.forall₂_map_left_iff.mpr (List.forall₂_map_right_iff.mpr ?_)) ds
      exact h.imp fun _ _ he ds => he.listing c ds
    rows := fun c w => by
      show S.RowResults (if c = .insert then _ else _) (if c = .insert then _ else _)
      split
      · exact (Attempt.Relates.mapM h fun _ _ he => he.row c w).bind fun _ _ hrows =>
          .returned (List.rel_flatten hrows)
      · exact rowResults_noRows e c w }

/-! ### Functions

Lambdas and their invocations. The bodies that are compared here are those that inlining has made.
-/

/-- The parameters of a lambda are not renamed, and its text is that of its body. -/
theorem mirrors_lambda {l l' : Rendering} (h : S.Mirrors l l') {ps : List Param}
    (hps : S.rows.Admits (.lambda l.expr ps)) :
    S.Mirrors (.lambda st l ps) (.lambda st l' ps) := by
  have heq : Expr.lambda l'.expr ps = (Expr.lambda l.expr ps).rename S.rows := by
    rw [Expr.rename, h.expr]
  refine { h with
    expr := heq
    admits := hps
    row := fun _ w => ?_
    addends := .cons h.value .nil }
  show S.RowResults (rowsOfValue st (.lambda l.expr ps) w) (rowsOfValue st (.lambda l'.expr ps) w)
  rw [heq]
  exact rowResults_rowsOfValue _ w

/-- Neither body is inlined, for the same reason, or both are. -/
inductive Bodies (S : Simulation) :
    Except Expr.InlineError Rendering → Except Expr.InlineError Rendering → Prop
  | failed (e : Expr.InlineError) : Bodies S (.error e) (.error e)
  | inlined {r r' : Rendering} (h : S.Mirrors r r') : Bodies S (.ok r) (.ok r')

/-- Both go on with the inlined bodies, or both are refused. -/
theorem agree_emitInlined {α β : Type} {R : α → β → Prop}
    {body body' : Unit → Except Expr.InlineError Rendering} {f : Rendering → Emit α}
    {f' : Rendering → Emit β} (h : S.Bodies (body ()) (body' ()))
    (hf : ∀ r r', S.Mirrors r r' → S.Agree R (f r) (f' r')) :
    S.Agree R (emitInlined body f) (emitInlined body' f') := by
  rw [emitInlined, emitInlined]
  generalize body () = x, body' () = y at h
  cases h with
  | failed e => exact agree_fail _
  | inlined h => exact hf _ _ h

/-- An invocation is its inlined body in every position. -/
theorem mirrors_invocation {body body' : Unit → Except Expr.InlineError Rendering}
    (he : S.rows.Admits e) (h : S.Bodies (body ()) (body' ())) :
    S.Mirrors (.invocation st e body) (.invocation st (e.rename S.rows) body') where
  expr := rfl
  admits := he
  value c := agree_emitInlined h fun _ _ h => h.value c
  condition c := agree_emitInlined h fun _ _ h => h.condition c
  members := agree_emitInlined h fun _ _ h => h.members
  argument c := agree_emitInlined h fun _ _ h => h.argument c
  projection := agree_emitInlined h fun _ _ h => h.projection
  listing c ds := agree_emitInlined h fun _ _ h => h.listing c ds
  row _ w := rowResults_rowsOfValue e w
  rows c w := by
    simp only [Rendering.invocation]
    generalize body () = x, body' () = y at h
    cases h with
    | failed e => exact .failed (.same _)
    | inlined h => exact h.rows c w
  addends := .cons (fun c => agree_emitInlined h fun _ _ h => h.value c) .nil

end Shapes

end Simulation

/-! ### Trees

All constructs together, by recursion over the tree. The depth of inlining is what decreases when an
invocation is replaced by its body. -/

namespace Expr

variable {S : Simulation} {st : Settings} {inlined inlined' : Expr → Rendering}

mutual

/-- One case per construct: the renderings mirror each other when those of inlined bodies do. -/
theorem mirrors_renderWith
    (hin : ∀ b, S.rows.Admits b → S.Mirrors (inlined b) (inlined' (b.rename S.rows))) :
    (e : Expr) → S.rows.Admits e →
      S.Mirrors (renderWith st inlined e) (renderWith st inlined' (e.rename S.rows))
  | hole, h => by
    rw [rename, renderWith, renderWith]
    have hhole : S.Mirrors (.unsupported st _) _ := Simulation.mirrors_unsupported h
    rwa [rename] at hhole
  | const v t, _ => by
    rw [rename, renderWith, renderWith]
    exact Simulation.mirrors_constant v t
  | param p, h => by
    rw [rename, renderWith, renderWith]
    exact Simulation.mirrors_param (Renaming.admits_param.mp h)
  | member e name t owner, h => by
    rw [rename, renderWith, renderWith]
    exact Simulation.mirrors_member (Renaming.admits_member.mp h)
  | binary op l r, h => by
    obtain ⟨hl, hr⟩ := Renaming.admits_binary.mp h
    rw [rename, renderWith, renderWith]
    exact Simulation.mirrors_binary (mirrors_renderWith hin l hl) (mirrors_renderWith hin r hr)
  | unary op e t, h => by
    have ih := mirrors_renderWith hin e (Renaming.admits_unary.mp h)
    rw [rename]
    by_cases hq : op = .quote
    · subst hq
      rw [renderWith, renderWith]
      exact Simulation.mirrors_quoted ih t
    · have hquote : ∀ e : Expr, (unary op e t).isQuote = false := by
        intro e
        cases op with
        | quote => exact absurd rfl hq
        | _ => rfl
      rw [renderWith_unary (hquote _), renderWith_unary (hquote _)]
      exact Simulation.mirrors_unary ih t
  | call e method args t callee, h => by
    obtain ⟨he, hargs⟩ := Renaming.admits_call.mp h
    rw [rename, renderWith, renderWith]
    exact Simulation.mirrors_call (mirrors_renderWith hin e he) (mirrors_renderAll hin args hargs)
      method t callee
  | new t bs, h => by
    have hbs := mirrors_renderBindings hin bs (Renaming.admits_new.mp h)
    have hnew : S.Mirrors (.shape st _ t _) _ := Simulation.mirrors_shape h t hbs
    rw [rename] at hnew
    rwa [rename, renderWith, renderWith]
  | init t bs, h => by
    have hbs := mirrors_renderBindings hin bs (Renaming.admits_init.mp h)
    have hinit : S.Mirrors (.shape st _ t _) _ := Simulation.mirrors_shape h t hbs
    rw [rename] at hinit
    rwa [rename, renderWith, renderWith]
  | list t es, h => by
    have hes := mirrors_renderAll hin es (Renaming.admits_list.mp h)
    have hlist : S.Mirrors (.items st _ _) _ := Simulation.mirrors_items h hes
    rw [rename] at hlist
    rwa [rename, renderWith, renderWith]
  | array t es, h => by
    have hes := mirrors_renderAll hin es (Renaming.admits_array.mp h)
    have harray : S.Mirrors (.items st _ _) _ := Simulation.mirrors_items h hes
    rw [rename] at harray
    rwa [rename, renderWith, renderWith]
  | lambda body ps, h => by
    have hbody := mirrors_renderWith hin body (Renaming.admits_lambda.mp h).2.2
    rw [rename, renderWith, renderWith]
    refine Simulation.mirrors_lambda hbody ?_
    rwa [renderWith_expr]
  | invoke target args, h => by
    obtain ⟨ht, hargs⟩ := Renaming.admits_invoke.mp h
    have hbody : S.Bodies ((inline target args).map inlined)
        ((inline (target.rename S.rows) (renameAll S.rows args)).map inlined') := by
      rw [inline_rename ht]
      cases hb : inline target args with
      | error e => exact .failed e
      | ok b => exact .inlined (hin b (admits_inline ht hargs hb))
    have hinvoke : S.Mirrors (.invocation st _ fun _ => (inline target args).map inlined)
        (.invocation st _ fun _ =>
          (inline (target.rename S.rows) (renameAll S.rows args)).map inlined') :=
      Simulation.mirrors_invocation h hbody
    rw [rename] at hinvoke
    rwa [rename, renderWith, renderWith]
  | cond c a b, h => by
    obtain ⟨hc, ha, hb⟩ := Renaming.admits_cond.mp h
    rw [rename, renderWith, renderWith]
    exact Simulation.mirrors_cond (mirrors_renderWith hin c hc) (mirrors_renderWith hin a ha)
      (mirrors_renderWith hin b hb)

theorem mirrors_renderAll
    (hin : ∀ b, S.rows.Admits b → S.Mirrors (inlined b) (inlined' (b.rename S.rows))) :
    (es : List Expr) → S.rows.AdmitsAll es →
      List.Forall₂ S.Mirrors (renderAll st inlined es) (renderAll st inlined' (renameAll S.rows es))
  | [], _ => .nil
  | e :: es, h => by
    obtain ⟨he, hes⟩ := Renaming.admitsAll_cons.mp h
    rw [renameAll, renderAll, renderAll]
    exact .cons (mirrors_renderWith hin e he) (mirrors_renderAll hin es hes)

theorem mirrors_renderBindings
    (hin : ∀ b, S.rows.Admits b → S.Mirrors (inlined b) (inlined' (b.rename S.rows))) :
    (bs : List (Text × Expr)) → S.rows.AdmitsBindings bs →
      S.Bindings (renderBindings st inlined bs)
        (renderBindings st inlined' (renameBindings S.rows bs))
  | [], _ => .nil
  | (name, e) :: bs, h => by
    obtain ⟨he, hbs⟩ := Renaming.admitsBindings_cons.mp h
    rw [renameBindings, renderBindings, renderBindings]
    exact .cons ⟨rfl, mirrors_renderWith hin e he⟩ (mirrors_renderBindings hin bs hbs)

end

/-- **The rendering of a renamed expression mirrors that of the expression**, by induction on how
deeply inlined bodies nest. -/
theorem mirrors_renderTo (depth : Nat) {e : Expr} (h : S.rows.Admits e) :
    S.Mirrors (e.renderTo st depth) ((e.rename S.rows).renderTo st depth) := by
  induction depth generalizing e with
  | zero =>
    have hhole : S.Mirrors (.unsupported st hole) (.unsupported st (hole.rename S.rows)) :=
      Simulation.mirrors_unsupported Renaming.admits_hole
    rwa [rename] at hhole
  | succ depth ih =>
    rw [renderTo, renderTo]
    exact mirrors_renderWith (fun b hb => ih hb) e h

end Expr

/-! ### What a clause emits

A clause looks at one position of the rendering, or collects rows to be written. -/

/-- What a rendering emits in a clause. -/
def Rendering.emittedIn (st : Settings) (r : Rendering) (clause : Clause)
    (directions : List Direction) : Emit Text :=
  match clause with
  | .select => r.projection
  | .insert => do Emit.insertRows st (← Emit.ofAttempt (r.rows .insert (·.insertable)))
  | .update => do Emit.assignments st (← Emit.ofAttempt (r.rows .update (·.updatable)))
  | .where_ | .join | .having => r.condition clause
  | .in_ => r.members
  | .groupBy | .orderBy => do return (← r.listing clause directions).1
  | .max | .min | .avg | .sum | .count => Rendering.aggregate clause r
  | .unknown _ => Emit.fail (.unknownClause clause)

/-- A draft emits what the rendering has in the position that the clause looks at. -/
theorem Draft.emitted_eq (st : Settings) (e : Expr) (c : Clause) (ds : List Direction) :
    emitted st e c ds = (e.render st).emittedIn st c ds := rfl

theorem Draft.run_eq (d : Draft) (m : Emit Text) : d.run m = match result m d.slate with
    | (.ok t, s) => ({ d with text := d.text ++ t, slate := s }, .ok ())
    | (.error h, s) => ({ d with text := d.text ++ h.written, slate := s }, .error h.cause) := rfl

namespace Simulation

variable {S : Simulation} {st : Settings}

theorem agree_emit (c : Column) {x y : Content} (h : S.Contents x y) :
    S.Agree S.Same (x.emit st c) (y.emit st c) := by
  cases h with
  | value v => exact agree_placeholder v (S.types_refl c.dataType)
  | computed h =>
    refine (agree_settle _).bind fun _ _ _ => ?_
    refine (h.tryCatch ?_).bind fun _ _ ht => (agree_settle []).bind fun _ _ _ => agree_pure ht
    rintro ⟨cause, t⟩ ⟨cause', t'⟩ hc s s'
    cases hc with
    | error h => exact .stopped (.error h)
    | fault => exact .stopped .fault

theorem Rows.content? {r r' : Row} (h : S.Rows r r') (c : Column) :
    Option.Rel S.Contents (r.content? c) (r'.content? c) := by
  have find : ∀ {l l' : List Cell}, List.Forall₂ S.Cells l l' →
      Option.Rel S.Contents ((l.find? fun cell => cell.column = c).map (·.content))
        ((l'.find? fun cell => cell.column = c).map (·.content)) := by
    intro l l' hl
    induction hl with
    | nil => exact .none
    | @cons cell cell' _ _ hc _ ih =>
      rw [List.find?_cons, List.find?_cons, ← hc.column]
      by_cases heq : cell.column = c
      · simpa [heq] using hc.content
      · simpa [heq] using ih
  exact find h.cells

/-- The same columns are missing from both rows. -/
theorem agree_rowContents (cols : List Column) {r r' : Row} (h : S.Rows r r') :
    S.Agree S.Same (rowContents st cols r) (rowContents st cols r') := by
  refine agree_separated "," ?_
  rw [List.forall₂_map_left_iff, List.forall₂_map_right_iff]
  refine List.forall₂_same.mpr fun c _ => ?_
  have hc := h.content? c
  generalize r.content? c = x, r'.content? c = y at hc
  cases hc with
  | none => exact agree_pure .rfl
  | some hc => exact agree_emit c hc

/-- The columns of an insertion are collected from the cells, whose columns are the same. -/
theorem columnsOfRows_eq {rows rows' : List Row} (h : List.Forall₂ S.Rows rows rows') :
    columnsOfRows rows = columnsOfRows rows' := by
  have cells : ∀ {l l' : List Cell}, List.Forall₂ S.Cells l l' →
      l.map (·.column) = l'.map (·.column) := by
    intro l l' hl
    induction hl with
    | nil => rfl
    | cons hc _ ih => rw [List.map_cons, List.map_cons, hc.column, ih]
  have columns : (rows.flatMap fun r => r.cells.map (·.column)) =
      rows'.flatMap fun r => r.cells.map (·.column) := by
    induction h with
    | nil => rfl
    | cons hr _ ih => rw [List.flatMap_cons, List.flatMap_cons, cells hr.cells, ih]
  rw [columnsOfRows, columnsOfRows, columns]

theorem find?_entity {t : Ty} {rows rows' : List Row} (h : List.Forall₂ S.Rows rows rows') :
    Option.Rel S.Rows (rows.find? fun r => r.entity.type ≠ t)
      (rows'.find? fun r => r.entity.type ≠ t) := by
  induction h with
  | nil => exact .none
  | @cons r r' _ _ hr _ ih =>
    rw [List.find?_cons, List.find?_cons, ← hr.entity]
    by_cases heq : r.entity.type = t
    · simpa [heq] using ih
    · simpa [heq] using hr

/-- Rows of another entity are refused in both. -/
theorem agree_insertRows {rows rows' : List Row} (h : List.Forall₂ S.Rows rows rows') :
    S.Agree S.Same (insertRows st rows) (insertRows st rows') := by
  cases h with
  | nil => exact agree_fail _
  | @cons r r' rest rest' hr hrest =>
    have hall : List.Forall₂ S.Rows (r :: rest) (r' :: rest') := .cons hr hrest
    have hfind := find?_entity (t := r.entity.type) hall
    have written : ∀ (sep a b : Text) (cols : List Column), S.Agree S.Same
        (separated sep ((r :: rest).map fun x => enclose a (rowContents st cols x) b))
        (separated sep ((r' :: rest').map fun x => enclose a (rowContents st cols x) b)) := by
      intro sep a b cols
      refine agree_separated sep ?_
      rw [List.forall₂_map_left_iff, List.forall₂_map_right_iff]
      exact hall.imp fun _ _ h => (agree_rowContents cols h).enclose a b
    unfold insertRows
    dsimp only
    rw [← columnsOfRows_eq hall, ← hr.entity]
    generalize (r :: rest).find? (fun x => x.entity.type ≠ r.entity.type) = x,
      (r' :: rest').find? (fun x => x.entity.type ≠ r.entity.type) = y at hfind
    cases hfind with
    | some hxy =>
      dsimp only
      rw [← hxy.entity]
      exact agree_fail _
    | none =>
      dsimp only
      split
      · exact agree_fail _
      · split
        · exact (written _ _ _ _).bind fun _ _ ht => agree_pure (ht.map fun t => _ ++ t)
        · exact (written _ _ _ _).bind fun _ _ ht => agree_pure (ht.map fun t => _ ++ t)

theorem agree_assignments {rows rows' : List Row} (h : List.Forall₂ S.Rows rows rows') :
    S.Agree S.Same (assignments st rows) (assignments st rows') := by
  rcases h with _ | ⟨hr, _ | ⟨_, hrest⟩⟩
  · exact agree_fail _
  · refine agree_concat ?_
    rw [List.forall₂_map_left_iff, List.forall₂_map_right_iff]
    refine hr.cells.imp fun cell cell' hc => ?_
    rw [← hc.column]
    exact (agree_emit cell.column hc.content).enclose _ _
  · rw [assignments, assignments, List.length_cons, List.length_cons, List.length_cons,
      List.length_cons, hrest.length_eq]
    · exact agree_fail _
    · exact nofun
    · exact nofun

/-- **What a clause emits for an expression, it emits for the renamed one**, up to what the relation
of the states lets differ. -/
theorem agree_emittedIn {r r' : Rendering} (h : S.Mirrors r r') (c : Clause)
    (ds : List Direction) : S.Agree S.Same (r.emittedIn st c ds) (r'.emittedIn st c ds) := by
  have listing : ∀ c, S.Agree S.Same (do return (← r.listing c ds).1)
      (do return (← r'.listing c ds).1) := fun c =>
    (h.listing c ds).bind fun _ _ ht => agree_pure ht.1
  cases c with
  | select => exact h.projection
  | insert => exact (agree_ofAttempt (h.rows _ _)).bind fun _ _ hrows => agree_insertRows hrows
  | update => exact (agree_ofAttempt (h.rows _ _)).bind fun _ _ hrows => agree_assignments hrows
  | where_ => exact h.condition .where_
  | join => exact h.condition .join
  | having => exact h.condition .having
  | in_ => exact h.members
  | groupBy => exact listing .groupBy
  | orderBy => exact listing .orderBy
  | max => exact agree_aggregate .max h
  | min => exact agree_aggregate .min h
  | avg => exact agree_aggregate .avg h
  | sum => exact agree_aggregate .sum h
  | count => exact agree_aggregate .count h
  | unknown n => exact agree_fail _

end Simulation

end QueryTree
