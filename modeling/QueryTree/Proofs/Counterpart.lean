import QueryTree.Proofs.Paired

/-!
# Renderings side by side

The renderings of two expressions that vary are counterparts: in every position that takes a value
or a condition, what they emit agrees. As the argument of an aggregate function a string constant is
no bound value but the name of a column, so agreement there needs a condition, `raw`. The positions
that take lists or rows read string constants as names too; they agree when no string varies at all,
which is the case of two compilations that differ in the dialect alone.

Each construct of the language is one function on renderings, and each has one lemma here. Only two
of them need more than counterparts: what is folded must be the same expression or depend on a row,
and the test of a conditional must be decided alike.

## Main definitions

* `Pairing.IsExact`: no string stands for another one
* `Pairing.Lists`, `Pairing.Rows`: lists and rows that agree
* `Pairing.Counterpart`: renderings that agree in every position

## Main results

* `Pairing.counterpart_scalar`, `Pairing.counterpart_call`, … : one lemma per construct
-/

namespace QueryTree

open Emit

namespace Pairing

variable {P : Pairing} {st : Settings}

/-- No string stands for another one. -/
def IsExact (P : Pairing) : Prop := ∀ a b, P.strings a b → a = b

/-! ### Lists and rows

Whether a list is empty once its last separator is cut off decides about the keyword in front of it.
So lists agree when this is the same for both, and rows agree when they go into the same columns. -/

/-- Lists of items that agree, each item followed by its separator: both are empty, or without the
last separator both have a text or neither. -/
inductive Lists : Text → Text → Prop
  | nil : Lists [] []
  | items {u u' : Text} (h : u = [] ↔ u' = []) : Lists (u ++ itemSeparator) (u' ++ itemSeparator)

theorem append_itemSeparator_ne_nil (u v : Text) : u ++ itemSeparator ++ v ≠ [] := by
  have h : itemSeparator ≠ [] := by decide
  simp [h]

theorem Lists.append {t t' u u' : Text} (h : Lists t t') (hu : Lists u u') :
    Lists (t ++ u) (t' ++ u') := by
  cases hu with
  | nil => simpa using h
  | items hu =>
    cases h with
    | nil => exact .items hu
    | items h =>
      rw [← List.append_assoc, ← List.append_assoc]
      exact .items
        (iff_of_false (append_itemSeparator_ne_nil _ _) (append_itemSeparator_ne_nil _ _))

theorem Lists.refl_flatMap (items : List Text) :
    Lists (items.flatMap fun t => t ++ itemSeparator)
      (items.flatMap fun t => t ++ itemSeparator) := by
  induction items with
  | nil => exact .nil
  | cons t items ih =>
    rw [List.flatMap_cons]
    exact (Lists.items Iff.rfl).append ih

theorem agree_concatLists {ms ms' : List (Emit Text)} (h : List.Forall₂ (P.Agree Lists) ms ms') :
    P.Agree Lists (concat ms) (concat ms') := by
  induction h with
  | nil => exact agree_pure .nil
  | cons hm _ ih =>
    exact hm.bind fun _ _ ha => (ih.after _ _).bind fun _ _ hb =>
      agree_pure (by simpa using ha.append hb)

/-- The same bound value, or emitters that agree. -/
inductive Contents (P : Pairing) : Content → Content → Prop
  | value (v : Value) : Contents P (.value v) (.value v)
  | computed {m m' : Emit Text} (h : P.Agree P.Values m m') :
    Contents P (.computed m) (.computed m')

/-- Cells of the same column with contents that agree. -/
structure Cells (P : Pairing) (c c' : Cell) : Prop where
  column : c.column = c'.column
  content : P.Contents c.content c'.content

/-- Rows of the same entity with cells that agree. -/
structure Rows (P : Pairing) (r r' : Row) : Prop where
  entity : r.entity = r'.entity
  cells : List.Forall₂ P.Cells r.cells r'.cells

/-- What a rendering gives as rows agrees with what its counterpart gives. -/
abbrev RowResults (P : Pairing) (x y : Attempt CompileError (List Row)) : Prop :=
  Outcomes (List.Forall₂ P.Rows) x y

theorem cells_cellsOf (w : Column → Bool) (values : List (Column × Value)) :
    List.Forall₂ P.Cells (Row.cellsOf st w values) (Row.cellsOf st w values) := by
  refine List.forall₂_same.mpr fun cell hcell => ?_
  obtain ⟨⟨c, v⟩, -, rfl⟩ := List.mem_map.mp hcell
  exact ⟨rfl, .value v⟩

/-- The rows that a value holds do not depend on the dialect. -/
theorem rowResults_allOfValue (w : Column → Bool) (v : Value) :
    P.RowResults (Row.allOfValue (P.first st) w v) (Row.allOfValue (P.second st) w v) := by
  show P.RowResults (Row.allOfValue st w v) (Row.allOfValue st w v)
  rcases h : Row.allOfValue st w v with e | rows
  · exact .failed e
  · refine .returned (List.forall₂_same.mpr ?_)
    exact Row.of_allOfValue (Q := fun r => P.Rows r r) (fun _ values _ _ =>
      ⟨rfl, cells_cellsOf w values⟩) h

theorem rowResults_rowsOfValue (e : Expr) (w : Column → Bool) :
    P.RowResults (Rendering.rowsOfValue (P.first st) e w)
      (Rendering.rowsOfValue (P.second st) e w) := by
  rw [Rendering.rowsOfValue, Rendering.rowsOfValue, show (P.first st).pre = st.pre from rfl,
    show (P.second st).pre = st.pre from rfl]
  split
  · exact rowResults_allOfValue w _
  · exact .failed _
  · exact .failed _

theorem rowResults_noRows (e : Expr) (c : Clause) (w : Column → Bool) :
    P.RowResults (Rendering.noRows e c w) (Rendering.noRows e c w) := by
  rw [Rendering.noRows]
  split
  · exact .failed _
  · exact .failed _

theorem rowResults_foldedRows (e : Expr) (c : Clause) (w : Column → Bool) :
    P.RowResults (Rendering.foldedRows (P.first st) e (Rendering.noRows e) c w)
      (Rendering.foldedRows (P.second st) e (Rendering.noRows e) c w) := by
  refine Outcomes.bind (R := (· = ·)) (Outcomes.refl (fun _ => rfl) _) fun v? _ h => ?_
  rw [← h]
  cases v? with
  | some v => exact rowResults_allOfValue w v
  | none => exact rowResults_noRows e c w

/-! ### Counterparts

A counterpart is compared in all positions at once, since a construct may be asked for any of
them. -/

/-- The renderings agree in every position: as the argument of an aggregate function provided that
`raw` holds, and in the positions of lists and rows if no string varies. -/
structure Counterpart (P : Pairing) (raw : Prop) (r r' : Rendering) : Prop where
  expr : r.expr.Varies P.strings r'.expr
  value : ∀ c, P.Agree P.Values (r.value c) (r'.value c)
  condition : ∀ c, P.Agree P.Conditions (r.condition c) (r'.condition c)
  members : P.Agree P.Values r.members r'.members
  argument : raw → ∀ c, P.Agree P.Values (r.argument c) (r'.argument c)
  projection : P.IsExact → P.Agree Lists r.projection r'.projection
  listing : P.IsExact → ∀ c ds, P.Agree (fun a b => a.2 = b.2) (r.listing c ds) (r'.listing c ds)
  row : P.IsExact → ∀ c w, P.RowResults (r.row c w) (r'.row c w)
  rows : P.IsExact → ∀ c w, P.RowResults (r.rows c w) (r'.rows c w)
  addends : List.Forall₂ (fun m m' => ∀ c, P.Agree P.Values (m c) (m' c)) r.addends r'.addends
  addends_ne : r.addends ≠ []

theorem Counterpart.mono {raw raw' : Prop} {r r' : Rendering} (h : P.Counterpart raw r r')
    (hraw : raw' → raw) : P.Counterpart raw' r r' :=
  { h with argument := fun hr => h.argument (hraw hr) }

variable {raw : Prop} {e e' : Expr}

theorem counterpart_unsupported (h : e.Varies P.strings e') :
    P.Counterpart raw (.unsupported (P.first st) e) (.unsupported (P.second st) e') where
  expr := h
  value := agree_unsupported h.kind?
  condition := agree_unsupported h.kind?
  members := agree_unsupported h.kind? .in_
  argument _ := agree_unsupported h.kind?
  projection _ := agree_unsupported h.kind? .select
  listing _ c _ := agree_unsupported h.kind? c
  row hex _ w := by
    obtain rfl := h.eq hex
    exact rowResults_rowsOfValue e w
  rows hex c w := by
    obtain rfl := h.eq hex
    exact rowResults_noRows e c w
  addends := .cons (agree_unsupported h.kind?) .nil
  addends_ne := nofun

/-! ### Constants

In most positions a string is bound, and strings that vary are bound values that vary. In positions
that read a string as names no string may vary. -/

theorem agree_selectItem {m m' : Emit Text} (h : P.Agree P.Values m m') (name : Text) :
    P.Agree Lists (selectItem (P.first st) m name) (selectItem (P.second st) m' name) := by
  have named_ne : ∀ t u : Text, t ++ (" AS " : Text) ++ u ≠ [] := by
    intro t u
    have has : (" AS " : Text) ≠ [] := by decide
    simp [has]
  refine h.bind fun t t' ht => (agree_setPending []).bind fun _ _ _ =>
    (agree_addField _ _).bind fun _ _ _ => agree_pure (.items ?_)
  cases ht with
  | same =>
    -- the same value has a name of its own in both dialects or in neither
    split
    · exact iff_of_false (named_ne _ _) (named_ne _ _)
    · exact Iff.rfl
  | apart _ hne hne' =>
    refine iff_of_false ?_ ?_
    · split
      · exact named_ne _ _
      · exact hne.ne_nil
    · split
      · exact named_ne _ _
      · exact hne'.ne_nil

theorem agree_rawFields (items : List Text) :
    P.Agree Lists (rawFields items) (rawFields items) := by
  have fields : P.Agree (fun _ _ => True) (items.forM addField) (items.forM addField) := by
    induction items with
    | nil => exact agree_pure trivial
    | cons t items ih =>
      rw [List.forM]
      exact (agree_addField t t).bind fun _ _ _ => ih
  exact fields.bind fun _ _ _ => agree_pure (Lists.refl_flatMap items)

theorem agree_constantProjection (v : Value) :
    P.Agree Lists (constantProjection (P.first st) v) (constantProjection (P.second st) v) := by
  rw [constantProjection.eq_def, constantProjection.eq_def]
  split
  · refine (agree_ofExcept _).bind fun items _ h => ?_
    rw [← h]
    exact agree_rawFields items
  · exact agree_selectItem (agree_constantValue (.same _)) []

/-- Lists that leave the same directions to the items still to come. -/
abbrev AgreeListings (P : Pairing) (m m' : Emit (Text × List Direction)) : Prop :=
  P.Agree (fun a b => a.2 = b.2) m m'

theorem agree_listings {ms ms' : List (List Direction → Emit (Text × List Direction))}
    (h : List.Forall₂ (fun m m' => ∀ ds, P.AgreeListings (m ds) (m' ds)) ms ms')
    (ds : List Direction) : P.AgreeListings (listings ms ds) (listings ms' ds) := by
  induction h generalizing ds with
  | nil => exact agree_pure rfl
  | cons hm _ ih =>
    rw [listings, listings]
    refine (hm ds).bind ?_
    rintro ⟨t, ds⟩ ⟨t', _⟩ rfl
    refine ((ih ds).after t t').bind ?_
    rintro ⟨u, ds⟩ ⟨u', _⟩ rfl
    exact agree_pure rfl

theorem agree_rawList (c : Clause) (t : Text) (ds : List Direction) :
    P.AgreeListings (rawList c t ds) (rawList c t ds) := by
  refine (agree_ofExcept _).bind fun items _ h => ?_
  rw [← h]
  exact agree_pure rfl

theorem agree_constantListing (v : Value) (c : Clause) (ds : List Direction) :
    P.AgreeListings (constantListing v c ds) (constantListing v c ds) := by
  rw [constantListing.eq_def]
  split
  · exact agree_rawList c _ ds
  · exact agree_pure rfl
  · refine agree_listings (List.forall₂_same.mpr ?_) ds
    intro m hm ds
    obtain ⟨v, -, rfl⟩ := List.mem_map.mp hm
    split
    · exact agree_rawList c _ ds
    · exact agree_fault
  · exact agree_fail _

/-- A string constant is a bound value everywhere but where it is read as names. -/
theorem counterpart_constant {v w : Value} (h : v.Varies P.strings w) (t : Option Ty) :
    P.Counterpart (v = w) (.constant (P.first st) v t) (.constant (P.second st) w t) where
  expr := .const h
  value _ := agree_constantValue h
  condition := agree_constantCondition h
  members := agree_constantMembers h
  argument hraw c := by
    subst hraw
    exact agree_constantArgument v c
  projection hex := by
    obtain rfl := h.eq hex
    exact agree_constantProjection v
  listing hex c ds := by
    obtain rfl := h.eq hex
    exact agree_constantListing v c ds
  row hex _ w := by
    obtain rfl := h.eq hex
    exact rowResults_allOfValue w v
  rows hex _ w := by
    obtain rfl := h.eq hex
    exact rowResults_allOfValue w v
  addends := .cons (fun _ => agree_constantValue h) .nil
  addends_ne := nofun

/-! ### Single values

The positions of an operator, a call or a conditional are derived from its value and its
condition. -/

/-- What is folded is the same expression, or depends on a row and is not folded. -/
theorem counterpart_scalar {value value' condition condition' : Clause → Emit Text} {isTest : Bool}
    {addends addends' : Option (List (Clause → Emit Text))} (he : e.Varies P.strings e')
    (hs : e = e' ∨ e.isClosed = false) (hv : ∀ c, P.Agree P.Values (value c) (value' c))
    (hc : ∀ c, P.Agree P.Conditions (condition c) (condition' c))
    (ha : addends = none ∧ addends' = none ∨ ∃ l l', addends = some l ∧ addends' = some l' ∧
      l ≠ [] ∧ List.Forall₂ (fun m m' => ∀ c, P.Agree P.Values (m c) (m' c)) l l') :
    P.Counterpart raw (.scalar (P.first st) e value condition isTest addends)
      (.scalar (P.second st) e' value' condition' isTest addends') := by
  have folded : ∀ c, P.Agree P.Values
      (folding (P.first st) e (constantValue (P.first st)) (value c))
      (folding (P.second st) e' (constantValue (P.second st)) (value' c)) := fun c =>
    agree_folding he hs (fun v => agree_constantValue (.same v)) (hv c)
  have test : ∀ c, P.Agree P.Conditions
      (folding (P.first st) e (constantCondition · c) (condition c))
      (folding (P.second st) e' (constantCondition · c) (condition' c)) := fun c =>
    agree_folding he hs (fun v => agree_constantCondition (.same v) c) (hc c)
  have hadds : List.Forall₂ (fun m m' => ∀ c, P.Agree P.Values (m c) (m' c))
      (addends.getD [fun c => folding (P.first st) e (constantValue (P.first st)) (value c)])
      (addends'.getD [fun c => folding (P.second st) e' (constantValue (P.second st)) (value' c)]) ∧
      addends.getD [fun c => folding (P.first st) e (constantValue (P.first st)) (value c)] ≠
        [] := by
    rcases ha with ⟨rfl, rfl⟩ | ⟨l, l', rfl, rfl, hne, hl⟩
    · exact ⟨.cons folded .nil, nofun⟩
    · exact ⟨hl, hne⟩
  refine ⟨he, folded, test, ?_, ?_, ?_, ?_, ?_, ?_, hadds.1, hadds.2⟩
  · exact agree_folding he hs (fun v => agree_constantMembers (.same v))
      (agree_unsupported he.kind? .in_)
  · intro _ c
    show P.Agree P.Values (if c = .count && isTest then _ else _)
      (if c = .count && isTest then _ else _)
    split
    · exact (test c).stated.encloseCondition ⟨byte ' ', by decide, by decide⟩
    · exact folded c
  · intro _
    exact agree_selectItem (folded .select) []
  · intro _ c ds
    exact (folded c).bind fun _ _ _ => (agree_setPending []).bind fun _ _ _ => agree_pure rfl
  · intro hex _ w
    obtain rfl := he.eq hex
    exact rowResults_rowsOfValue e w
  · intro hex c w
    obtain rfl := he.eq hex
    exact rowResults_foldedRows e c w

/-! ### Columns

A column is written in the way of the dialect, and a member of anything else is refused. -/

theorem counterpart_member {name : Text} {type owner : Option Ty} (he : e.Varies P.strings e')
    (hs : Expr.member e name type owner = .member e' name type owner ∨
      (Expr.member e name type owner).isClosed = false) :
    P.Counterpart raw (.member (P.first st) e name type owner)
      (.member (P.second st) e' name type owner) := by
  have hcolumn : ∀ c, P.Agree P.Values (columnOf (P.first st) c (.member e name type owner))
      (columnOf (P.second st) c (.member e' name type owner)) := fun c =>
    agree_columnOf c (.member he)
  refine counterpart_scalar (.member he) hs hcolumn (fun c => ?_) (.inl ⟨rfl, rfl⟩)
  show P.Agree P.Conditions (if !type.any Ty.isBool then _ else _)
    (if !type.any Ty.isBool then _ else _)
  split
  · exact agree_fail _
  · refine (hcolumn c).bind fun t t' ht => (agree_setPending []).bind fun _ _ _ => agree_pure ?_
    have htest : P.Values P.left.profile.truthTest P.right.profile.truthTest :=
      .of_dialect (f := fun d => d.profile.truthTest) fun d => by
        cases d <;> exact Text.exceedsNull_cons (by decide) _
    exact (ht.append htest).conditions

/-! ### Operators

What is asked of the operands is whether they are null, hold, or are truth literals, and none of
this depends on a string or the dialect. -/

section Operators

variable {l l' r r' : Rendering}

theorem agree_logical (op : BinaryOp) (hl : P.Counterpart False l l')
    (hr : P.Counterpart False r r') (c : Clause) :
    P.Agree P.Conditions (l.logical op r c) (l'.logical op r' c) := by
  rw [Rendering.logical, Rendering.logical, ← hl.expr.literalTruth?, ← hr.expr.literalTruth?,
    ← hl.expr.needsParens, ← hr.expr.needsParens]
  split
  · exact agree_pure (.same _)
  · split
    · exact hr.condition c
    · exact agree_joined _ ((hl.condition c).groupedCondition _)
        ((hr.condition c).groupedCondition _)

theorem agree_negatable (h : P.Counterpart False l l') (isNegated : Bool) (c : Clause) :
    P.Agree P.Conditions (l.negatable isNegated c) (l'.negatable isNegated c) := by
  rw [Rendering.negatable, Rendering.negatable, ← h.expr.isLogical]
  exact ((h.condition c).groupedCondition _).negated isNegated

/-- Both compare the same side with the same truth literal, or neither compares one. -/
theorem truthComparison?_rel (hl : P.Counterpart False l l') (hr : P.Counterpart False r r') :
    Option.Rel (fun a b => P.Counterpart False a.1 b.1 ∧ a.2 = b.2) (l.truthComparison? r)
      (l'.truthComparison? r') := by
  let Same (a b : Rendering × Bool) : Prop := P.Counterpart False a.1 b.1 ∧ a.2 = b.2
  have left : ∀ v, Option.Rel Same (some (l, v)) (some (l', v)) := fun v => .some ⟨hl, rfl⟩
  have right : ∀ v, Option.Rel Same (some (r, v)) (some (r', v)) := fun v => .some ⟨hr, rfl⟩
  rw [Rendering.truthComparison?.eq_def, Rendering.truthComparison?.eq_def,
    ← hl.expr.literalTruth?, ← hr.expr.literalTruth?, ← hl.expr.isCondition,
    ← hr.expr.isCondition]
  split
  · split
    · exact left _
    · split
      · exact right _
      · exact .none
  · split
    · exact left _
    · exact .none
  · split
    · exact right _
    · exact .none
  · exact .none

theorem agree_comparison (op : BinaryOp) (hl : P.Counterpart False l l')
    (hr : P.Counterpart False r r') (c : Clause) :
    P.Agree P.Conditions (l.comparison op r c) (l'.comparison op r' c) := by
  have plain : ∀ {l l' r r' : Rendering}, P.Counterpart False l l' → P.Counterpart False r r' →
      P.Agree P.Conditions
        (compared op (grouped l.expr.needsParens (l.value c))
          (grouped r.expr.needsParens (r.value c)))
        (compared op (grouped l'.expr.needsParens (l'.value c))
          (grouped r'.expr.needsParens (r'.value c))) := by
    intro l l' r r' hl hr
    rw [← hl.expr.needsParens, ← hr.expr.needsParens]
    exact agree_compared op ((hl.value c).grouped _) ((hr.value c).grouped _)
  have ordered : ∀ x y, x = (if l.expr.isNullConstant && !r.expr.isNullConstant then (r, l)
      else (l, r)) → y = (if l'.expr.isNullConstant && !r'.expr.isNullConstant then (r', l')
      else (l', r')) → P.Counterpart False x.1 y.1 ∧ P.Counterpart False x.2 y.2 := by
    rintro _ _ rfl rfl
    rw [← hl.expr.isNullConstant, ← hr.expr.isNullConstant]
    split
    · exact ⟨hr, hl⟩
    · exact ⟨hl, hr⟩
  have sides := plain (ordered _ _ rfl rfl).1 (ordered _ _ rfl rfl).2
  rw [Rendering.comparison, Rendering.comparison]
  by_cases hop : (decide (op = .equal) || decide (op = .notEqual)) = true
  · rw [if_pos hop, if_pos hop]
    have htruth := truthComparison?_rel hl hr
    generalize l.truthComparison? r = x, l'.truthComparison? r' = y at htruth
    cases htruth with
    | none => exact sides
    | @some a b hab =>
      obtain ⟨hab, hv⟩ := hab
      show P.Agree P.Conditions (a.1.negatable ((op = .equal) != a.2) c)
        (b.1.negatable ((op = .equal) != b.2) c)
      rw [← hv]
      exact agree_negatable hab _ c
  · rw [if_neg hop, if_neg hop]
    exact sides

theorem agree_binaryCondition (op : BinaryOp) (hl : P.Counterpart False l l')
    (hr : P.Counterpart False r r') (c : Clause) :
    P.Agree P.Conditions (l.binaryCondition op r c) (l'.binaryCondition op r' c) := by
  rw [Rendering.binaryCondition, Rendering.binaryCondition]
  split
  · exact agree_logical op hl hr c
  · split
    · exact agree_comparison op hl hr c
    · split
      · exact agree_fail _
      · exact agree_fail _

theorem exceedsNull_join {sep : Text} (h : sep.ExceedsNull) (t u : Text) (ts : List Text) :
    (Text.join sep (t :: u :: ts)).ExceedsNull := by
  rw [Text.join, List.intercalate_cons_cons]
  exact (h.append_left t).append_right _

/-- Two or more operands are joined by something that exceeds `NULL` in every dialect. -/
theorem exceedsNull_concatAll (d : Dialect) (t u : Text) (ts : List Text) :
    (d.profile.concatAll (t :: u :: ts)).ExceedsNull := by
  rw [Profile.concatAll]
  split
  · exact Text.ExceedsNull.append_right
      (Text.ExceedsNull.append_right ⟨byte '(', by decide, by decide⟩ _) _
  · exact exceedsNull_join ⟨byte ' ', by decide, by decide⟩ t u ts
  · exact exceedsNull_join ⟨byte ' ', by decide, by decide⟩ t u ts

theorem values_concatAll {t t' u u' : Text} {ts ts' : List Text} (ht : P.Values t t')
    (hu : P.Values u u') (hts : List.Forall₂ P.Values ts ts') :
    P.Values (P.left.profile.concatAll (t :: u :: ts))
      (P.right.profile.concatAll (t' :: u' :: ts')) := by
  by_cases hd : P.left = P.right
  · rw [hd, Profile.concatAll, Profile.concatAll]
    have hjoin : ∀ sep, P.Values (Text.join sep (t :: u :: ts)) (Text.join sep (t' :: u' :: ts')) :=
      fun sep => values_join (.cons ht (.cons hu hts))
    split
    · exact ((Values.same _).append (hjoin _)).append (.same _)
    · exact hjoin _
    · exact hjoin _
  · exact .apart hd (exceedsNull_concatAll _ _ _ _) (exceedsNull_concatAll _ _ _ _)

/-- The operands of an addition are concatenated, and there are at least two. -/
theorem agree_addends (hl : P.Counterpart False l l') (hr : P.Counterpart False r r') (c : Clause) :
    P.Agree P.Values
      (do return P.left.profile.concatAll (← (l.addends ++ r.addends).mapM fun m => m c))
      (do return P.right.profile.concatAll (← (l'.addends ++ r'.addends).mapM fun m => m c)) := by
  have htwo : 2 ≤ (l.addends ++ r.addends).length := by
    have hl := List.length_pos_of_ne_nil hl.addends_ne
    have hr := List.length_pos_of_ne_nil hr.addends_ne
    rw [List.length_append]
    omega
  refine (agree_mapM (List.rel_append hl.addends hr.addends) fun _ _ h => h c).bind ?_
  rintro ts ts' ⟨hts, hlen⟩
  cases hts with
  | nil => simp [← hlen] at htwo
  | cons ht hts =>
    cases hts with
    | nil => simp [← hlen] at htwo
    | cons hu hts => exact agree_pure (values_concatAll ht hu hts)

theorem agree_binaryValue (op : BinaryOp) (hl : P.Counterpart False l l')
    (hr : P.Counterpart False r r') (c : Clause) :
    P.Agree P.Values (l.binaryValue (P.first st) op r c)
      (l'.binaryValue (P.second st) op r' c) := by
  rw [Rendering.binaryValue, Rendering.binaryValue]
  beta_reduce
  rw [← hl.expr.type?, ← hr.expr.type?, ← hl.expr.arithmeticParens, ← hr.expr.arithmeticParens]
  split
  · exact (agree_binaryCondition op hl hr c).truthCase
  · split
    · exact agree_addends hl hr c
    · split
      · exact agree_fail _
      · exact ((hl.value c).grouped _).join ((hr.value c).grouped _) (.same _)

theorem counterpart_binary {op : BinaryOp} (hl : P.Counterpart False l l')
    (hr : P.Counterpart False r r')
    (hs : Expr.binary op l.expr r.expr = .binary op l'.expr r'.expr ∨
      (Expr.binary op l.expr r.expr).isClosed = false) :
    P.Counterpart raw (.binary (P.first st) op l r) (.binary (P.second st) op l' r') := by
  refine counterpart_scalar (.binary hl.expr hr.expr) hs (agree_binaryValue op hl hr)
    (agree_binaryCondition op hl hr) ?_
  by_cases hop : op = .add
  · rw [if_pos hop, if_pos hop]
    exact .inr ⟨_, _, rfl, rfl, by simp [hl.addends_ne], List.rel_append hl.addends hr.addends⟩
  · rw [if_neg hop, if_neg hop]
    exact .inl ⟨rfl, rfl⟩

theorem counterpart_quoted (h : P.Counterpart raw l l') (type : Option Ty) :
    P.Counterpart raw (.quoted (P.first st) l type) (.quoted (P.second st) l' type) :=
  { h with
    expr := .unary h.expr
    row := fun hex c w => by
      have heq : l.expr = l'.expr := h.expr.eq hex
      rw [Rendering.quoted, Rendering.quoted, ← heq]
      simp only
      split
      · exact h.row hex c w
      · exact h.row hex c w
      · exact h.row hex c w
      · exact rowResults_rowsOfValue _ w
    addends := .cons h.value .nil
    addends_ne := nofun }

theorem counterpart_unary {op : UnaryOp} (h : P.Counterpart False l l') (type : Option Ty)
    (hs : Expr.unary op l.expr type = .unary op l'.expr type ∨
      (Expr.unary op l.expr type).isClosed = false) :
    P.Counterpart raw (.unary (P.first st) op l type) (.unary (P.second st) op l' type) := by
  refine counterpart_scalar (.unary h.expr) hs (fun c => ?_) (fun c => ?_) (.inl ⟨rfl, rfl⟩)
  · split
    · exact h.value c
    · rw [← h.expr.isBinary]
      exact (((h.value c).grouped _).after _ _).bind fun _ _ ht =>
        agree_pure ((Values.same _).append ht)
    · exact (agree_negatable h true c).truthCase
    · exact agree_fail _
  · split
    · exact agree_negatable h true c
    · exact h.condition c
    · exact agree_fail _

/-- The test is decided at once for both or for neither. -/
theorem counterpart_cond {c c' a a' b b' : Rendering} (hc : P.Counterpart False c c')
    (ha : P.Counterpart False a a') (hb : P.Counterpart False b b')
    (ht : c.expr.closedTruth? st.pre = c'.expr.closedTruth? st.pre)
    (hs : Expr.cond c.expr a.expr b.expr = .cond c'.expr a'.expr b'.expr ∨
      (Expr.cond c.expr a.expr b.expr).isClosed = false) :
    P.Counterpart raw (.cond (P.first st) c a b) (.cond (P.second st) c' a' b') := by
  have decided : P.Agree (· = ·)
      (ofAttempt (c.expr.closedTruth? (P.first st).pre).widen)
      (ofAttempt (c'.expr.closedTruth? (P.second st).pre).widen) := by
    show P.Agree _ (ofAttempt (c.expr.closedTruth? st.pre).widen)
      (ofAttempt (c'.expr.closedTruth? st.pre).widen)
    rw [ht]
    exact agree_ofAttempt (Outcomes.refl (fun _ => rfl) _)
  refine counterpart_scalar (.cond hc.expr ha.expr hb.expr) hs (fun cl => ?_) (fun cl => ?_)
    (.inl ⟨rfl, rfl⟩)
  · refine decided.bind fun d _ hd => ?_
    rw [← hd]
    rcases d with _ | _ | _
    · -- the texts of the test may differ, but stand behind words that exceed `NULL`
      have branches := ((ha.value cl).join (hb.value cl) (.same " ELSE ")).mono
        fun _ _ => Values.conditions
      exact ((hc.condition cl).stated.joinConditions branches " THEN ").encloseCondition
        ⟨byte ' ', by decide, by decide⟩
    · exact hb.value cl
    · exact ha.value cl
  · refine decided.bind fun d _ hd => ?_
    rw [← hd]
    rcases d with _ | _ | _
    · exact agree_fail _
    · exact hb.condition cl
    · exact ha.condition cl

end Operators

/-! ### Calls

The rule of a call is found by its name. What it looks at besides is whether the receiver is there
and whether a list is empty. -/

section Calls

open Rendering

variable {x x' list list' target target' arg arg' : Rendering} {args args' : List Rendering}

theorem values_pattern {t t' : Text} (h : P.Values t t') (pattern : Pattern) :
    P.Values (pattern.emit P.left.profile t) (pattern.emit P.right.profile t') := by
  cases pattern with
  | anywhere => exact values_concatAll (.same _) h (.cons (.same _) .nil)
  | start => exact values_concatAll h (.same _) .nil
  | finish => exact values_concatAll (.same _) h .nil

theorem values_trim {t t' : Text} (h : P.Values t t') :
    P.Values (P.left.profile.trim t) (P.right.profile.trim t') := by
  by_cases hd : P.left = P.right
  · rw [hd, Profile.trim, Profile.trim]
    split
    · exact ((Values.same _).append h).append (.same _)
    · exact ((Values.same _).append h).append (.same _)
  · have htrim : ∀ (d : Dialect) (t : Text), (d.profile.trim t).ExceedsNull := by
      intro d t
      rw [Profile.trim]
      split
      · exact Text.ExceedsNull.append_left ⟨byte ')', by decide, by decide⟩ _
      · exact Text.ExceedsNull.append_left ⟨byte ')', by decide, by decide⟩ _
    exact .apart hd (htrim _ _) (htrim _ _)

theorem agree_likeTest (isNegated : Bool) (pattern : Pattern)
    (ht : P.Counterpart False target target')
    (ha : P.Counterpart False arg arg') (c : Clause) :
    P.Agree P.Conditions (likeTest (P.first st) isNegated pattern target arg c)
      (likeTest (P.second st) isNegated pattern target' arg' c) :=
  ((ht.value c).join ((ha.value c).bind fun _ _ h => agree_pure (values_pattern h pattern))
    (.same _)).mono fun _ _ => Values.conditions

theorem agree_membership (hx : P.Counterpart False x x') (hl : P.Counterpart False list list')
    (isNegated : Bool) (c : Clause) :
    P.Agree P.Conditions (membership x list isNegated c) (membership x' list' isNegated c) := by
  rw [membership, membership, ← hl.expr.isEmptyList, ← hl.expr.isHole]
  split
  · exact agree_pure (.same _)
  · have hmembers : P.Agree P.Values
        (if list.expr.isHole then fail (.missingArgument .in_) else list.members)
        (if list.expr.isHole then fail (.missingArgument .in_) else list'.members) := by
      split
      · exact agree_fail _
      · exact hl.members
    exact ((hx.value c).join hmembers (.same _)).mono fun _ _ => Values.conditions

theorem agree_aggregate (c : Clause) (h : P.Counterpart (x.expr.isHole = false) x x') :
    P.Agree P.Values (aggregate c x) (aggregate c x') := by
  rw [aggregate, aggregate, ← h.expr.isHole]
  refine Agree.enclose ?_ (.same _) (.same _)
  split
  · split
    · exact agree_pure (.same _)
    · exact agree_fail _
  · rename_i hhole
    exact h.argument (by simpa using hhole) c

/-- An `Equals` is folded as the comparison of its operands would be. -/
theorem agree_conditionIntrinsic {i : Intrinsic} (hi : i.isCondition = true)
    (ht : P.Counterpart False target target') (ha : List.Forall₂ (P.Counterpart False) args args')
    (heq : i = .equals → ∀ a ∈ args.head?, ∀ a' ∈ args'.head?,
      Expr.binary .equal target.expr a.expr = .binary .equal target'.expr a'.expr ∨
        (Expr.binary .equal target.expr a.expr).isClosed = false) (c : Clause) :
    P.Agree P.Conditions (intrinsic (P.first st) target args c i)
      (intrinsic (P.second st) target' args' c i) := by
  cases i with
  | like isNegated pattern =>
    cases ha with
    | nil => exact agree_fault
    | cons ha _ => exact agree_likeTest isNegated pattern ht ha c
  | membership isNegated =>
    cases ha with
    | nil => exact agree_fault
    | cons ha _ => exact agree_membership ht ha isNegated c
  | contains =>
    cases ha with
    | nil => exact agree_fault
    | cons ha _ =>
      rw [intrinsic, intrinsic, ← ht.expr.type?]
      split
      · exact agree_membership ha ht false c
      · exact agree_likeTest false .anywhere ht ha c
  | isNullOrEmpty =>
    exact ((((ht.value c).join (ht.value c) (.same _)).enclose (.same _) (.same _))).mono
      fun _ _ => Values.conditions
  | equals =>
    cases ha with
    | nil => exact agree_fault
    | cons ha _ =>
      have h : P.Counterpart False (.binary (P.first st) .equal target _)
          (.binary (P.second st) .equal target' _) :=
        counterpart_binary ht ha (heq rfl _ rfl _ rfl)
      exact h.condition c
  | function | trim | aggregate => cases hi

theorem agree_valueIntrinsic {i : Intrinsic} (hi : i.isCondition = false)
    (ht : P.Counterpart False target target')
    (hagg : i.isAggregate = true → P.Counterpart (target.expr.isHole = false) target target')
    (c : Clause) :
    P.Agree P.Values (intrinsic (P.first st) target args c i)
      (intrinsic (P.second st) target' args' c i) := by
  cases i with
  | like | membership | contains | isNullOrEmpty | equals => cases hi
  | function name => exact (ht.value c).enclose (.same _) (.same _)
  | trim => exact (ht.value c).bind fun _ _ h => agree_pure (values_trim h)
  | aggregate clause => exact agree_aggregate clause (hagg rfl)

theorem agree_calledValue {R : Text → Text → Prop} (e : Expr) (method : Text) (c : Clause)
    {constant constant' : Value → Emit Text} (h : ∀ v, P.Agree R (constant v) (constant' v)) :
    P.Agree R (calledValue (P.first st) e method c constant)
      (calledValue (P.second st) e method c constant') := by
  rw [calledValue, calledValue, show (P.first st).pre = st.pre from rfl,
    show (P.second st).pre = st.pre from rfl]
  split
  · exact h _
  · exact agree_fail _
  · exact agree_fault

variable {receiver receiver' : Rendering}

theorem operands_rel (hr : P.Counterpart False receiver receiver')
    (ha : List.Forall₂ (P.Counterpart False) args args') :
    P.Counterpart False (operands receiver args).1 (operands receiver' args').1 ∧
      List.Forall₂ (P.Counterpart False) (operands receiver args).2
        (operands receiver' args').2 := by
  rw [operands.eq_def, operands.eq_def, ← hr.expr.isHole]
  cases receiver.expr.isHole with
  | false => exact ⟨hr, ha⟩
  | true =>
    cases ha with
    | nil => exact ⟨hr, .nil⟩
    | cons h hs => exact ⟨h, hs⟩

/-- The target of an aggregate function is the first argument, which must take its place there. -/
theorem operands_aggregate (hr : P.Counterpart False receiver receiver')
    (ha : List.Forall₂ (P.Counterpart False) args args') (hhole : receiver.expr.isHole = true)
    (hraw : ∀ a ∈ args.head?, ∀ a' ∈ args'.head?, P.Counterpart True a a') :
    P.Counterpart ((operands receiver args).1.expr.isHole = false) (operands receiver args).1
      (operands receiver' args').1 := by
  rw [operands.eq_def, operands.eq_def, ← hr.expr.isHole, hhole]
  cases ha with
  | nil => exact hr.mono (by simp [hhole])
  | cons h hs => exact (hraw _ rfl _ rfl).mono fun _ => trivial

theorem variesAll_exprs (ha : List.Forall₂ (P.Counterpart False) args args') :
    Expr.VariesAll P.strings (args.map (·.expr)) (args'.map (·.expr)) := by
  induction ha with
  | nil => exact .nil
  | cons h _ ih => exact .cons h.expr ih

/-- The rule of a call looks at the receiver only for being there. -/
theorem rule?_eq (hr : P.Counterpart False receiver receiver') (method : Text) :
    rule? receiver method = rule? receiver' method := by
  rw [rule?, rule?, hr.expr.isHole]

theorem counterpart_call {method : Text} {type : Option Ty} {callee : Option Text}
    (hr : P.Counterpart False receiver receiver')
    (ha : List.Forall₂ (P.Counterpart False) args args')
    (hs : Expr.call receiver.expr method (args.map (·.expr)) type callee =
        .call receiver'.expr method (args'.map (·.expr)) type callee ∨
      (Expr.call receiver.expr method (args.map (·.expr)) type callee).isClosed = false)
    (hrule : Expr.call receiver.expr method (args.map (·.expr)) type callee =
        .call receiver'.expr method (args'.map (·.expr)) type callee ∨
      rule? receiver method ≠ none)
    (hequals : rule? receiver method = some .equals →
      ∀ a ∈ (operands receiver args).2.head?, ∀ a' ∈ (operands receiver' args').2.head?,
        Expr.binary .equal (operands receiver args).1.expr a.expr =
          .binary .equal (operands receiver' args').1.expr a'.expr ∨
        (Expr.binary .equal (operands receiver args).1.expr a.expr).isClosed = false)
    (hraw : receiver.expr.isHole = true → Expr.isAggregateName method = true →
      ∀ a ∈ args.head?, ∀ a' ∈ args'.head?, P.Counterpart True a a') :
    P.Counterpart raw (.call (P.first st) receiver method args type callee)
      (.call (P.second st) receiver' method args' type callee) := by
  obtain ⟨ht, hrest⟩ := operands_rel hr ha
  have hlen := hrest.length_eq
  have hvaries : (Expr.call receiver.expr method (args.map (·.expr)) type callee).Varies P.strings
      (.call receiver'.expr method (args'.map (·.expr)) type callee) :=
    .call hr.expr (variesAll_exprs ha)
  have conditions : ∀ c i, rule? receiver method = some i → i.isCondition = true →
      P.Agree P.Conditions
        (intrinsic (P.first st) (operands receiver args).1 (operands receiver args).2 c i)
        (intrinsic (P.second st) (operands receiver' args').1
          (operands receiver' args').2 c i) := by
    intro c i hi hcond
    refine agree_conditionIntrinsic hcond ht hrest (fun h => ?_) c
    exact hequals (h ▸ hi)
  have called : ∀ {R : Text → Text → Prop} {c : Clause} {constant constant' : Value → Emit Text},
      rule? receiver method = none → (∀ v, P.Agree R (constant v) (constant' v)) →
      P.Agree R
        (calledValue (P.first st) (.call receiver.expr method (args.map (·.expr)) type callee)
          method c constant)
        (calledValue (P.second st) (.call receiver'.expr method (args'.map (·.expr)) type callee)
          method c constant') := by
    intro R c constant constant' hnone h
    rw [← hrule.resolve_right fun hne => hne hnone]
    exact agree_calledValue _ method c h
  rw [call, call, ← hvaries.isBool]
  refine counterpart_scalar hvaries hs (fun c => ?_) (fun c => ?_) (.inl ⟨rfl, rfl⟩)
  · rw [emitCall, emitCall, ← rule?_eq hr]
    simp only
    rw [← ht.expr.isHole, ← hlen]
    split
    · rename_i hnone
      exact called hnone fun v => agree_constantValue (.same v)
    · rename_i i hi
      split
      · exact agree_fail _
      · split
        · rename_i hcond
          refine agree_valueIntrinsic hcond ht (fun hagg => ?_) c
          obtain ⟨hhole, hname⟩ := (rule?_eq_some hi).2 hagg
          exact operands_aggregate hr ha hhole (hraw hhole hname)
        · split
          · rename_i hcond
            exact (conditions c i hi hcond).truthCase
          · exact agree_fail _
  · rw [emitCall, emitCall, ← rule?_eq hr]
    simp only
    rw [← ht.expr.isHole, ← hlen]
    split
    · rename_i hnone
      exact called hnone fun v => agree_constantCondition (.same v) c
    · rename_i i hi
      split
      · exact agree_fail _
      · split
        · rename_i hcond
          exact conditions c i hi hcond
        · exact agree_fail _

end Calls

/-! ### Rows, shapes and lists

Members agree one by one. Their names are not constants, so they are the same. -/

section Shapes

open Rendering

theorem agree_allColumns (p : Param) :
    P.Agree Lists (allColumns (P.first st) p) (allColumns (P.second st) p) := by
  refine (agree_row p).bind ?_
  rintro ⟨e, name⟩ _ rfl
  refine (agree_addField _ _).bind fun _ _ _ => agree_pure (.items ?_)
  show (if st.singleTable then ("*" : Text) else _) = [] ↔
    (if st.singleTable then ("*" : Text) else _) = []
  have hstar : (".*" : Text) ≠ [] := by decide
  split
  · exact Iff.rfl
  · exact iff_of_false (by simp [hstar]) (by simp [hstar])

theorem counterpart_param (p : Param) :
    P.Counterpart raw (.param (P.first st) p) (.param (P.second st) p) :=
  { (counterpart_unsupported (.param p) : P.Counterpart raw (.unsupported (P.first st) _) _) with
    argument := fun _ c => by
      show P.Agree P.Values (if c = .count then _ else _) (if c = .count then _ else _)
      split
      · exact agree_pure (.same _)
      · exact agree_fail _
    projection := fun _ => agree_allColumns p }

/-- Bindings of the same names to counterparts. -/
abbrev Bindings (P : Pairing) (bs bs' : List (Text × Rendering)) : Prop :=
  List.Forall₂ (fun b b' => b.1 = b'.1 ∧ P.Counterpart False b.2 b'.2) bs bs'

variable {bs bs' : List (Text × Rendering)}

theorem agree_memberItems (hex : P.IsExact) (h : P.Bindings bs bs') :
    P.Agree Lists (memberItems (P.first st) bs) (memberItems (P.second st) bs') := by
  refine agree_concatLists (List.forall₂_map_left_iff.mpr (List.forall₂_map_right_iff.mpr ?_))
  refine h.imp ?_
  rintro ⟨name, e⟩ ⟨_, e'⟩ ⟨rfl, he⟩
  have heq : e.expr = e'.expr := he.expr.eq hex
  simp only [← heq]
  split
  · exact agree_allColumns _
  · exact agree_selectItem (he.value .select) name

theorem outcomes_target (t : Option Ty) :
    Outcomes (ε := Stop CompileError) (· = ·) (Row.target (P.first st) t)
      (Row.target (P.second st) t) :=
  Outcomes.refl (fun _ => rfl) (Row.target st t)

/-- A binding that depends on a row is emitted by both, and every other one is the same value. -/
theorem rows_ofBindings (type : Option Ty) (w : Column → Bool)
    {ms ms' : List (Text × Expr × Emit Text)}
    (h : List.Forall₂ (fun b b' => b.1 = b'.1 ∧ b.2.1 = b'.2.1 ∧ P.Agree P.Values b.2.2 b'.2.2)
      ms ms') :
    Outcomes P.Rows (Row.ofBindings (P.first st) w type ms)
      (Row.ofBindings (P.second st) w type ms') := by
  refine (outcomes_target type).bind fun e _ he => ?_
  rw [← he]
  refine Outcomes.bind (R := List.Forall₂ (List.Forall₂ P.Cells))
    (Outcomes.mapM h ?_) fun cells cells' hcells => .returned ⟨rfl, ?_⟩
  · rintro ⟨name, expr, m⟩ ⟨_, _, m'⟩ ⟨rfl, rfl, hm⟩
    refine Outcomes.bind (R := (· = ·)) (Outcomes.refl (fun _ => rfl) _) fun c _ hc => ?_
    rw [← hc]
    simp only
    split
    · split
      · exact .returned (.cons ⟨rfl, .computed hm⟩ .nil)
      · exact .returned .nil
    · refine Outcomes.bind (R := (· = ·)) (Outcomes.refl (fun _ => rfl) _) fun v _ hv => ?_
      rw [← hv]
      exact .returned (cells_cellsOf w _)
  · exact List.rel_flatten hcells

theorem rowResults_shapeRow (hex : P.IsExact) (h : P.Bindings bs bs') (type : Option Ty)
    (c : Clause) (w : Column → Bool) :
    P.RowResults (shapeRow (P.first st) type bs c w) (shapeRow (P.second st) type bs' c w) := by
  refine Outcomes.bind (rows_ofBindings type w ?_) fun _ _ hr => .returned (.cons hr .nil)
  refine List.forall₂_map_left_iff.mpr (List.forall₂_map_right_iff.mpr (h.imp ?_))
  rintro ⟨name, e⟩ ⟨_, e'⟩ ⟨rfl, he⟩
  exact ⟨rfl, he.expr.eq hex, he.value c⟩

theorem counterpart_shape (he : e.Varies P.strings e') (type : Option Ty) (h : P.Bindings bs bs') :
    P.Counterpart raw (.shape (P.first st) e type bs) (.shape (P.second st) e' type bs') :=
  { (counterpart_unsupported he : P.Counterpart raw (.unsupported (P.first st) e) _) with
    projection := fun hex => agree_memberItems hex h
    listing := fun hex c ds => by
      refine agree_listings (List.forall₂_map_left_iff.mpr (List.forall₂_map_right_iff.mpr ?_)) ds
      exact h.imp fun _ _ hb ds => hb.2.listing hex c ds
    row := fun hex c w => rowResults_shapeRow hex h type c w
    rows := fun hex c w => rowResults_shapeRow hex h type c w }

variable {es es' : List Rendering}

/-- Values joined by commas from the left. -/
theorem agree_foldl_join {ms ms' : List (Emit Text)} (h : List.Forall₂ (P.Agree P.Values) ms ms')
    {first first' : Emit Text} (hfirst : P.Agree P.Values first first') :
    P.Agree P.Values (ms.foldl (fun done m => Emit.join done "," m) first)
      (ms'.foldl (fun done m => Emit.join done "," m) first') := by
  induction h generalizing first first' with
  | nil => exact hfirst
  | cons hm _ ih => exact ih (hfirst.join hm (.same _))

theorem agree_memberList (h : List.Forall₂ (P.Counterpart False) es es') :
    P.Agree P.Values (memberList es) (memberList es') := by
  refine agree_pending.bind fun t _ ht => ?_
  rw [← ht]
  have item : ∀ {e e' : Rendering}, P.Counterpart False e e' → P.Agree P.Values
      (do setPending t; e.value .in_) (do setPending t; e'.value .in_) := fun he =>
    (agree_setPending t).bind fun _ _ _ => he.value .in_
  cases h with
  | nil => exact agree_pure (.same _)
  | cons hfirst hrest =>
    refine ((agree_foldl_join ?_ (item hfirst)).after _ _).bind fun _ _ ht =>
      (agree_setPending []).bind fun _ _ _ =>
        agree_pure (((Values.same _).append ht).append (.same _))
    exact List.forall₂_map_left_iff.mpr (List.forall₂_map_right_iff.mpr (hrest.imp fun _ _ => item))

theorem counterpart_items (he : e.Varies P.strings e')
    (h : List.Forall₂ (P.Counterpart False) es es') :
    P.Counterpart raw (.items (P.first st) e es) (.items (P.second st) e' es') :=
  { (counterpart_unsupported he : P.Counterpart raw (.unsupported (P.first st) e) _) with
    members := agree_memberList h
    projection := fun hex => by
      refine agree_concatLists (List.forall₂_map_left_iff.mpr (List.forall₂_map_right_iff.mpr ?_))
      exact h.imp fun _ _ he => he.projection hex
    listing := fun hex c ds => by
      refine agree_listings (List.forall₂_map_left_iff.mpr (List.forall₂_map_right_iff.mpr ?_)) ds
      exact h.imp fun _ _ he ds => he.listing hex c ds
    rows := fun hex c w => by
      show P.RowResults (if c = .insert then _ else _) (if c = .insert then _ else _)
      split
      · exact (Outcomes.mapM h fun _ _ he => he.row hex c w).bind fun _ _ hrows =>
          .returned (List.rel_flatten hrows)
      · obtain rfl := he.eq hex
        exact rowResults_noRows e c w }

/-! ### Functions

A lambda and an invocation agree where their bodies do. -/

theorem counterpart_lambda {l l' : Rendering} (h : P.Counterpart raw l l') (ps : List Param) :
    P.Counterpart raw (.lambda (P.first st) l ps) (.lambda (P.second st) l' ps) :=
  { h with
    expr := .lambda h.expr
    row := fun hex _ w => by
      have heq : l.expr = l'.expr := h.expr.eq hex
      show P.RowResults (rowsOfValue (P.first st) (.lambda l.expr ps) w)
        (rowsOfValue (P.second st) (.lambda l'.expr ps) w)
      rw [← heq]
      exact rowResults_rowsOfValue _ w
    addends := .cons h.value .nil
    addends_ne := nofun }

theorem agree_emitInlined {α β : Type} {R : α → β → Prop}
    {body body' : Unit → Except Expr.InlineError Rendering} {f : Rendering → Emit α}
    {f' : Rendering → Emit β} (h : Outcomes (P.Counterpart raw) (body ()) (body' ()))
    (hf : ∀ r r', P.Counterpart raw r r' → P.Agree R (f r) (f' r')) :
    P.Agree R (emitInlined body f) (emitInlined body' f') := by
  rw [emitInlined, emitInlined]
  generalize body () = x, body' () = y at h
  cases h with
  | failed e => exact agree_fail _
  | returned h => exact hf _ _ h

theorem counterpart_invocation {body body' : Unit → Except Expr.InlineError Rendering}
    (he : e.Varies P.strings e') (h : Outcomes (P.Counterpart raw) (body ()) (body' ())) :
    P.Counterpart raw (.invocation (P.first st) e body) (.invocation (P.second st) e' body') where
  expr := he
  value c := agree_emitInlined h fun _ _ h => h.value c
  condition c := agree_emitInlined h fun _ _ h => h.condition c
  members := agree_emitInlined h fun _ _ h => h.members
  argument hraw c := agree_emitInlined h fun _ _ h => h.argument hraw c
  projection hex := agree_emitInlined h fun _ _ h => h.projection hex
  listing hex c ds := agree_emitInlined h fun _ _ h => h.listing hex c ds
  row hex _ w := by
    obtain rfl := he.eq hex
    exact rowResults_rowsOfValue e w
  rows hex c w := by
    simp only [Rendering.invocation]
    generalize body () = x, body' () = y at h
    cases h with
    | failed e => exact .failed _
    | returned h => exact h.rows hex c w
  addends := .cons (fun c => agree_emitInlined h fun _ _ h => h.value c) .nil
  addends_ne := nofun

end Shapes

end Pairing

end QueryTree
