import Mathlib.Data.List.Nodup
import QueryTree.Proofs.Guarded
import QueryTree.Proofs.Paired

/-!
# Updates that filter by key

An update without conditions that assigns an entity is meant for the row of that entity, so it gets
the condition that the row has its key. Whether a bound value is such an entity is decided by its
type alone: a record of the entity's type, or one behind pointers. What the update writes is decided
elsewhere, and there a list of one entity is a row as well. Such an update gets no condition.

For an entity the condition is written down here exactly: one test for each key column, joined from
the left. A test compares the column with a placeholder for the value of the key; it asks for null
if the value is nil, and a truth value decides between the truth test of its column and the
complement.

## Main definitions

* `Column.test`, `keyTests`: the tests of key columns and the values they bind
* `Update.SetsAll`: an update without conditions that assigns a bound value
* `Update.assigning`: the draft of an update up to its conditions

## Main results

* `Expr.yields_keyCondition`: what the condition on a key compiles to
* `update_filters_iff_entity`: which updates filter by key, and how
* `exists_update_of_all_rows`: a list of one entity is written to all rows
-/

namespace QueryTree

open Emit Sql

/-! ### Columns of members -/

/-- No member has two columns. -/
theorem Mapping.nodup_firstOfEach (columns : List Column) :
    ((firstOfEach columns).map (·.member)).Nodup := by
  have fold : ∀ kept : List Column, (kept.map (·.member)).Nodup →
      ((columns.foldl (fun kept c => if kept.any (·.member == c.member) then kept else kept ++ [c])
        kept).map (·.member)).Nodup := by
    induction columns with
    | nil => exact fun _ h => h
    | cons c columns ih =>
      intro kept h
      rw [List.foldl_cons]
      refine ih _ ?_
      split
      · exact h
      · rename_i hc
        rw [List.map_append, List.nodup_append]
        refine ⟨h, List.nodup_singleton _, ?_⟩
        intro a ha b hb hab
        obtain ⟨x, hx, rfl⟩ := List.mem_map.mp ha
        obtain rfl : b = c.member := by simpa using hb
        exact hc (List.any_eq_true.mpr ⟨x, hx, by simpa using hab⟩)
  exact fold [] List.nodup_nil

theorem Registry.nodup_members {r : Registry} {t : Option Ty} {e : Entity}
    (h : r.entity t = .ok e) : (e.columns.map (·.member)).Nodup := by
  unfold Registry.entity at h
  split at h
  · cases h
  · split at h
    · cases h
      exact Mapping.nodup_firstOfEach _
    · cases h

theorem Settings.nodup_members {st : Settings} {t : Option Ty} {e : Entity}
    (h : st.entityOf t = .ok e) : (e.columns.map (·.member)).Nodup := by
  unfold Settings.entityOf at h
  split at h
  · split at h
    · cases h
    · exact Registry.nodup_members h
  · exact Registry.nodup_members h

/-- The column of the member of a column is that column. -/
theorem Entity.column?_member {e : Entity} {k : Column} (h : (e.columns.map (·.member)).Nodup)
    (hk : k ∈ e.columns) : e.column? k.member = some k := by
  cases hc : e.column? k.member with
  | none =>
    have hno := List.find?_eq_none.mp hc k hk
    simp at hno
  | some c =>
    have hmem : c ∈ e.columns := List.mem_of_find?_eq_some hc
    have hname : c.member = k.member := by simpa using List.find?_some hc
    rw [List.inj_on_of_nodup_map h hmem hk hname]

/-! ### The tests of a key -/

/-- The test that a row has the value `x` in a column, written after `n` bound values: its text and
the values that it binds. -/
def Column.test (st : Settings) (p : Param) (n : Nat) (k : Column) (x : Value) :
    Text × List Bound :=
  match if (Expr.field p k.member).isBool then x.truth else none with
  | some true => (st.ident k.name ++ st.profile.truthTest, [])
  | some false => (Sql.negate (st.ident k.name ++ st.profile.truthTest), [])
  | none =>
    if x.isNil then (st.ident k.name ++ " IS NULL", [])
    else (st.ident k.name ++ " = " ++ st.profile.placeholder (n + 1), [⟨x, k.dataType⟩])

/-- The tests that a row has the values of `v` in columns, written after `n` bound values. -/
def keyTests (st : Settings) (p : Param) (v : Value) : Nat → List Column → List (Text × List Bound)
  | _, [] => []
  | n, k :: ks =>
    k.test st p n (k.read v) ::
      keyTests st p v (n + (k.test st p n (k.read v)).2.length) ks

/-- Texts joined by `AND` from the left after a first one, which is put in parentheses if asked for;
what has been joined is put in parentheses. -/
def conjoined : (parens : Bool) → Text → List Text → Text
  | _, t, [] => t
  | parens, t, u :: us => conjoined true (parenthesised parens t ++ " AND " ++ u) us

/-- The condition that a row has a key, as it is written after `n` bound values. -/
def keyText (st : Settings) (p : Param) (v : Value) (n : Nat) (keys : List Column) : Text :=
  match (keyTests st p v n keys).map (·.1) with
  | [] => []
  | t :: ts => conjoined false t ts

namespace Expr

variable {st : Settings} {p : Param} {e : Entity} {k : Column} {c : Clause} {s : Slate}

theorem field_eq (p : Param) (name : Text) :
    ∃ type owner, field p name = member (param p) name type owner := by
  unfold field memberOf
  split
  · exact ⟨_, _, rfl⟩
  · exact ⟨_, _, rfl⟩

/-- A column of the only table is written without its alias. -/
theorem yields_columnOf (hs : st.singleTable = true) (he : st.entityOf p.type = .ok e)
    (hk : e.column? k.member = some k) (type owner : Option Ty) (s : Slate) :
    Yields (columnOf st c (member (param p) k.member type owner)) s (st.ident k.name)
      { s with aliases := (s.aliases.bind p e.table).2, pendingType := k.dataType } := by
  rw [columnOf]
  refine yields_bind.mpr ⟨(st.ident k.name, k), { s with aliases := (s.aliases.bind p e.table).2 },
    ?_, ?_⟩
  · refine yields_bind.mpr ⟨(e, (s.aliases.bind p e.table).1), _, yields_row.mpr ⟨he, rfl, rfl⟩, ?_⟩
    simp [hk, hs]
  · simp

/-- The truth test of a column, or its complement. -/
theorem yields_truthTest (hs : st.singleTable = true) (he : st.entityOf p.type = .ok e)
    (hk : e.column? k.member = some k) {type owner : Option Ty}
    (hb : (member (param p) k.member type owner).isBool = true) (b : Bool) (c : Clause)
    (s : Slate) :
    Yields ((Rendering.member st (param p) k.member type owner).negatable (!b) c) s
      (if b then st.ident k.name ++ st.profile.truthTest
        else Sql.negate (st.ident k.name ++ st.profile.truthTest))
      { s with aliases := (s.aliases.bind p e.table).2, pendingType := [] } := by
  have hne : (st.ident k.name ++ st.profile.truthTest).isEmpty = false := by
    have htest : st.profile.truthTest ≠ [] := by
      show st.dialect.profile.truthTest ≠ []
      cases st.dialect <;> decide
    simp [htest]
  have hcolumn : Yields ((Rendering.member st (param p) k.member type owner).condition c) s
      (st.ident k.name ++ st.profile.truthTest)
      { s with aliases := (s.aliases.bind p e.table).2, pendingType := [] } := by
    refine yields_folding.mpr (.inr ⟨folded?_of_not_isClosed (isClosed_member_param ..) _, ?_⟩)
    simp only [hb, Bool.not_true, Bool.false_eq_true, if_false]
    refine yields_bind.mpr ⟨_, _, yields_columnOf hs he hk type owner s, ?_⟩
    simp
  refine yields_negated.mpr ⟨_, yields_groupedCondition.mpr ⟨_, hcolumn, rfl⟩, ?_⟩
  have hlogical : (Rendering.member st (param p) k.member type owner).expr.isLogical = false := rfl
  rw [hlogical]
  cases b with
  | true => rfl
  | false =>
    show Sql.negate _ = if (st.ident k.name ++ st.profile.truthTest).isEmpty then _ else _
    rw [hne]
    rfl

/-- The comparison of a column with a bound value; a nil value is compared with null. -/
theorem yields_comparedColumn (hs : st.singleTable = true) (he : st.entityOf p.type = .ok e)
    (hk : e.column? k.member = some k) (type owner : Option Ty) (x : Value) (c : Clause)
    (s : Slate) :
    ∃ s', Yields (compared .equal (columnOf st c (member (param p) k.member type owner))
        (constantValue st x)) s
        (if x.isNil then st.ident k.name ++ " IS NULL"
          else st.ident k.name ++ " = " ++ st.profile.placeholder (s.params.length + 1)) s' ∧
      s'.params = s.params ++ (if x.isNil then [] else [⟨x, k.dataType⟩]) := by
  have hcolumn := yields_columnOf (c := c) hs he hk type owner s
  cases hx : x.isNil with
  | true =>
    have hnull : ∀ s, Yields (constantValue st x) s "NULL" s := by
      intro s
      simp [constantValue, hx]
    refine ⟨{ s with aliases := (s.aliases.bind p e.table).2, pendingType := [] }, ?_, ?_⟩
    · have htext : st.ident k.name ++ equalityToken .equal "NULL" ++ "NULL" =
          st.ident k.name ++ " IS NULL" := by
        rw [List.append_assoc]
        rfl
      exact htext ▸ yields_compared (.inl rfl) hcolumn (hnull _)
    · exact (List.append_nil _).symm
  | false =>
    have hbound : ∀ s : Slate, Yields (constantValue st x) s
        (st.profile.placeholder (s.params.length + 1)) (s.bindValue st.profile x []).2 := by
      intro s
      simp [constantValue, hx]
    refine ⟨{ s with
      params := s.params ++ [⟨x, k.dataType⟩]
      aliases := (s.aliases.bind p e.table).2
      pendingType := [] }, ?_, rfl⟩
    have hne : ∀ i, st.profile.placeholder i ≠ ("NULL" : Text) := fun i =>
      (Pairing.exceedsNull_placeholder st.dialect i).ne_null
    have h := yields_compared (.inl rfl) hcolumn (hbound _)
    rw [equalityToken, if_neg (hne _)] at h
    exact h

/-- A column is compared with a truth literal only if it holds truth values. -/
theorem truthComparison?_member (name : Text) (type owner : Option Ty) (x : Value) :
    (Rendering.member st (param p) name type owner).truthComparison? (.constant st x none) =
      (if (member (param p) name type owner).isBool then x.truth else none).map fun b =>
        (Rendering.member st (param p) name type owner, b) := by
  have hright : (Rendering.constant st x none).expr.literalTruth? = x.truth := rfl
  have hleft : (Rendering.member st (param p) name type owner).expr.literalTruth? = none := rfl
  rw [Rendering.truthComparison?, hright, hleft]
  cases x.truth with
  | none => simp
  | some b =>
    show (if (member (param p) name type owner).isBool then some _ else none) = _
    cases (member (param p) name type owner).isBool <;> rfl

/-- What the test of a column compiles to. -/
theorem yields_test (hs : st.singleTable = true) (he : st.entityOf p.type = .ok e)
    (hk : e.column? k.member = some k) (x : Value) (c : Clause) (s : Slate) :
    ∃ s', Yields (((binary .equal (field p k.member) (value x)).render st).condition c) s
        (k.test st p s.params.length x).1 s' ∧
      s'.params = s.params ++ (k.test st p s.params.length x).2 := by
  obtain ⟨type, owner, hfield⟩ := field_eq p k.member
  rw [Column.test, hfield]
  have hclosed :
      (binary .equal (member (param p) k.member type owner) (value x)).isClosed = false := by
    rw [isClosed_binary, isClosed_member_param, Bool.false_and]
  -- the comparison refers to a row, so it is not folded
  have own : ∀ {t s'}, Yields ((Rendering.member st (param p) k.member type owner).comparison .equal
        (.constant st x none) c) s t s' →
      Yields
        (((binary .equal (member (param p) k.member type owner) (value x)).render st).condition c)
        s t s' := fun h =>
    yields_folding.mpr (.inr ⟨folded?_of_not_isClosed hclosed _, h⟩)
  rw [Rendering.comparison, truthComparison?_member] at own
  have hbool :
      ∀ b, (if (member (param p) k.member type owner).isBool then x.truth else none) = some b →
      (member (param p) k.member type owner).isBool = true := by
    intro b hb
    by_contra hno
    rw [if_neg hno] at hb
    cases hb
  generalize (if (member (param p) k.member type owner).isBool then x.truth else none) =
    truth at own hbool ⊢
  cases truth with
  | none =>
    obtain ⟨s', hy, hs'⟩ := yields_comparedColumn hs he hk type owner x c s
    refine ⟨s', own ?_, ?_⟩
    · show Yields _ s (if x.isNil then (_, _) else (_, _)).1 s'
      rw [apply_ite Prod.fst]
      exact hy
    · show s'.params = s.params ++ (if x.isNil then (_, _) else (_, _)).2
      rw [apply_ite Prod.snd]
      exact hs'
  | some b =>
    have htest := yields_truthTest hs he hk (hbool b rfl) b c s
    cases b with
    | true => exact ⟨_, own htest, (List.append_nil _).symm⟩
    | false => exact ⟨_, own htest, (List.append_nil _).symm⟩

/-! ### Tests joined -/

variable {v : Value}

theorem test_ne_nil (st : Settings) (p : Param) (n : Nat) (k : Column) (x : Value) :
    (k.test st p n x).1 ≠ [] := by
  have htest : st.ident k.name ++ st.profile.truthTest ≠ [] := by
    have h : st.profile.truthTest ≠ [] := by
      show st.dialect.profile.truthTest ≠ []
      cases st.dialect <;> decide
    simp [h]
  unfold Column.test
  split
  · exact htest
  · exact Sql.negate_ne_nil htest
  · split
    · have h : (" IS NULL" : Text) ≠ [] := by decide
      simp [h]
    · have h : (" = " : Text) ≠ [] := by decide
      simp [h]

/-- A condition joined to a binary one that refers to a row: neither is it folded, nor is its left
side a literal. -/
theorem yields_andAlso_iff {op : BinaryOp} {l r x : Expr} {t : Text} {s s' : Slate}
    (hclosed : (binary op l r).isClosed = false) :
    Yields (((binary .andAlso (binary op l r) x).render st).condition c) s t s' ↔
      ∃ a s₁ b, Yields (((binary op l r).render st).condition c) s a s₁ ∧
        Yields ((x.render st).condition c) s₁ b s' ∧
        t = joinedByAnd (parenthesised (binary op l r).needsParens a)
          (parenthesised x.needsParens b) := by
  have hopen : (binary .andAlso (binary op l r) x).isClosed = false := by
    rw [isClosed_binary, hclosed, Bool.false_and]
  have hrender : ((binary .andAlso (binary op l r) x).render st).condition c = folding st
      (.binary .andAlso ((binary op l r).render st).expr (x.render st).expr) (constantCondition · c)
      (Rendering.logical .andAlso ((binary op l r).render st) (x.render st) c) := rfl
  rw [hrender, render_expr, render_expr, yields_folding, folded?_of_not_isClosed hopen]
  simp only [Rendering.logical, render_expr, literalTruth?, BinaryOp.isOr, Except.ok.injEq,
    reduceCtorEq, false_and, exists_false, false_or, true_and, Bool.false_and,
    Bool.false_eq_true, if_false, decide_false, Bool.and_false, yields_joined,
    yields_groupedCondition]
  constructor
  · rintro ⟨_, s₁, _, ⟨a, ha, rfl⟩, ⟨b, hb, rfl⟩, rfl⟩
    exact ⟨a, s₁, b, ha, hb, rfl⟩
  · rintro ⟨a, s₁, b, ha, hb, rfl⟩
    exact ⟨_, s₁, _, ⟨a, ha, rfl⟩, ⟨b, hb, rfl⟩, rfl⟩

/-- Texts of conditions that each are joined to the one before. -/
theorem joinedByAnd_of_ne_nil {a b : Text} (ha : a ≠ []) (hb : b ≠ []) (p : Bool) :
    joinedByAnd (parenthesised p a) b = parenthesised p a ++ " AND " ++ b := by
  have hp : parenthesised p a ≠ [] := by
    cases p with
    | false => exact ha
    | true => simp [parenthesised, ha]
  simp [joinedByAnd, hp, hb]

/-- The test that a row has in a column the value that `v` has there. -/
def keyTest (p : Param) (v : Value) (k : Column) : Expr :=
  binary .equal (field p k.member) (value (k.read v))

theorem isClosed_keyTest (p : Param) (v : Value) (k : Column) :
    (keyTest p v k).isClosed = false := by
  obtain ⟨type, owner, hfield⟩ := field_eq p k.member
  rw [keyTest, hfield, isClosed_binary, isClosed_member_param, Bool.false_and]

theorem needsParens_keyTest (p : Param) (v : Value) (k : Column) :
    (keyTest p v k).needsParens = false := by
  obtain ⟨type, owner, hfield⟩ := field_eq p k.member
  rw [keyTest, hfield]
  rfl

/-- Tests joined one after the other to a condition that refers to a row. -/
theorem yields_foldl_keyTest (hs : st.singleTable = true) (he : st.entityOf p.type = .ok e)
    {ks : List Column} (hks : ∀ k ∈ ks, e.column? k.member = some k) (c : Clause) {op : BinaryOp}
    {l r : Expr} {a : Text} {s s₁ : Slate} (hclosed : (binary op l r).isClosed = false)
    (ha : a ≠ []) (hy : Yields (((binary op l r).render st).condition c) s a s₁) :
    ∃ s',
      Yields
        ((((ks.map (keyTest p v)).foldl (binary .andAlso) (binary op l r)).render st).condition c) s
        (conjoined (binary op l r).needsParens a
          ((keyTests st p v s₁.params.length ks).map (·.1))) s' ∧
      s'.params = s₁.params ++ (keyTests st p v s₁.params.length ks).flatMap (·.2) := by
  induction ks generalizing op l r a s₁ with
  | nil => exact ⟨s₁, hy, (List.append_nil _).symm⟩
  | cons k ks ih =>
    obtain ⟨s₂, hk, hparams⟩ := yields_test hs he (hks k List.mem_cons_self) (k.read v) c s₁
    have hne := test_ne_nil st p s₁.params.length k (k.read v)
    have hjoin :
        Yields (((binary .andAlso (binary op l r) (keyTest p v k)).render st).condition c) s
        (parenthesised (binary op l r).needsParens a ++ " AND " ++
          (k.test st p s₁.params.length (k.read v)).1) s₂ := by
      refine (yields_andAlso_iff hclosed).mpr ⟨a, s₁, _, hy, hk, ?_⟩
      rw [needsParens_keyTest, ← joinedByAnd_of_ne_nil ha hne]
      rfl
    have hopen : (binary .andAlso (binary op l r) (keyTest p v k)).isClosed = false := by
      rw [isClosed_binary, hclosed, Bool.false_and]
    obtain ⟨s', hy', hs'⟩ := ih (fun x hx => hks x (List.mem_cons_of_mem k hx)) hopen
      (by simp [hne]) hjoin
    have hlen : s₂.params.length =
        s₁.params.length + (k.test st p s₁.params.length (k.read v)).2.length := by
      rw [hparams, List.length_append]
    rw [hlen] at hy' hs'
    refine ⟨s', hy', ?_⟩
    rw [hs', hparams, keyTests, List.flatMap_cons, List.append_assoc]

theorem allOf_keyTests (p : Param) (v : Value) (k : Column) (ks : List Column) :
    allOf ((k :: ks).map (keyTest p v)) =
      (ks.map (keyTest p v)).foldl (binary .andAlso) (keyTest p v k) := by
  have hfilter : ((k :: ks).map (keyTest p v)).filter (fun c => !c.isHole) =
      (k :: ks).map (keyTest p v) := by
    refine List.filter_eq_self.mpr fun x hx => ?_
    obtain ⟨k, -, rfl⟩ := List.mem_map.mp hx
    rfl
  rw [allOf, joined, hfilter]
  rfl

/-- **What the condition on a key compiles to**: the tests of its columns, joined from the left. -/
theorem yields_keyCondition (hs : st.singleTable = true) (he : st.entityOf p.type = .ok e)
    {x : Expr} (hx : keyCondition? e p v = some x) (c : Clause) (s : Slate) :
    ∃ s', Yields ((x.render st).condition c) s (keyText st p v s.params.length e.keys) s' ∧
      s'.params = s.params ++ (keyTests st p v s.params.length e.keys).flatMap (·.2) := by
  have hcolumns : ∀ k ∈ e.keys, e.column? k.member = some k := fun k hk =>
    Entity.column?_member (Settings.nodup_members he) (List.mem_filter.mp hk).1
  unfold keyCondition? at hx
  cases hkeys : e.keys with
  | nil =>
    rw [hkeys] at hx
    cases hx
  | cons k ks =>
    rw [hkeys] at hx hcolumns
    obtain rfl : allOf ((k :: ks).map (keyTest p v)) = x := Option.some.inj hx
    obtain ⟨s₁, hy, hparams⟩ := yields_test hs he (hcolumns k List.mem_cons_self) (k.read v) c s
    obtain ⟨s', hy', hs'⟩ := yields_foldl_keyTest (v := v) hs he
      (fun x hx => hcolumns x (List.mem_cons_of_mem k hx)) c (isClosed_keyTest p v k)
      (test_ne_nil st p s.params.length k (k.read v)) hy
    have hlen : s₁.params.length =
        s.params.length + (k.test st p s.params.length (k.read v)).2.length := by
      rw [hparams, List.length_append]
    have hparens : (binary .equal (field p k.member) (value (k.read v))).needsParens = false :=
      needsParens_keyTest p v k
    rw [allOf_keyTests]
    rw [hlen, hparens] at hy'
    rw [hlen] at hs'
    refine ⟨s', hy', ?_⟩
    rw [hs', hparams, keyTests, List.flatMap_cons, List.append_assoc]

/-- The condition on a key is a binary one that refers to a row. -/
theorem exists_keyCondition (p : Param) (v : Value) (hkeys : e.keys ≠ []) : ∃ op l r,
    keyCondition? e p v = some (binary op l r) ∧ (binary op l r).isClosed = false := by
  have fold : ∀ (ks : List Column) {op : BinaryOp} {l r : Expr}, (binary op l r).isClosed = false →
      ∃ op' l' r',
        (ks.map (keyTest p v)).foldl (binary .andAlso) (binary op l r) = binary op' l' r' ∧
        (binary op' l' r').isClosed = false := by
    intro ks
    induction ks with
    | nil => exact fun h => ⟨_, _, _, rfl, h⟩
    | cons k ks ih =>
      intro op l r h
      exact ih (by rw [isClosed_binary, h, Bool.false_and])
  cases hk : e.keys with
  | nil => exact absurd hk hkeys
  | cons k ks =>
    obtain ⟨op, l, r, heq, hclosed⟩ := fold ks (isClosed_keyTest p v k)
    refine ⟨op, l, r, ?_, hclosed⟩
    rw [← heq, keyCondition?, hk]
    exact congrArg some (allOf_keyTests p v k ks)

/-- Conditions behind a first one that is given are joined to it. -/
theorem allOf_cons {x : Expr} (hx : x.isHole = false) (xs : List Expr) :
    allOf (x :: xs) = (xs.filter fun c => !c.isHole).foldl (binary .andAlso) x := by
  rw [allOf, joined, List.filter_cons_of_pos (by rw [hx]; rfl)]

theorem keyText_ne_nil (st : Settings) (p : Param) (v : Value) (n : Nat) (hkeys : e.keys ≠ []) :
    keyText st p v n e.keys ≠ [] := by
  have conjoined_ne : ∀ (ts : List Text) (parens : Bool) (t : Text), t ≠ [] →
      conjoined parens t ts ≠ [] := by
    intro ts
    induction ts with
    | nil => exact fun _ _ h => h
    | cons u ts ih =>
      intro parens t _
      have hand : (" AND " : Text) ≠ [] := by decide
      exact ih true _ (by simp [hand])
  cases hk : e.keys with
  | nil => exact absurd hk hkeys
  | cons k ks => exact conjoined_ne _ _ _ (test_ne_nil st p n k (k.read v))

/-- A text joined with another one stays in front, perhaps in parentheses. -/
theorem exists_opened_joinedByAnd {a : Text} (ha : a ≠ []) (parens : Bool) (b : Text) :
    ∃ o u, (∀ x ∈ o, x = byte '(') ∧ joinedByAnd (parenthesised parens a) b = o ++ a ++ u := by
  have rest : ∀ y : Text, ∃ u, joinedByAnd y b = y ++ u := by
    intro y
    unfold joinedByAnd
    split
    · exact ⟨b, rfl⟩
    · exact ⟨" AND " ++ b, List.append_assoc ..⟩
  obtain ⟨u, hu⟩ := rest (parenthesised parens a)
  cases parens with
  | false => exact ⟨[], u, nofun, hu⟩
  | true =>
    refine ⟨[byte '('], ")" ++ u, by simp, ?_⟩
    have hp : parenthesised true a = [byte '('] ++ a ++ ")" := by
      have hne : a.isEmpty = false := by simpa using ha
      rw [parenthesised, hne]
      rfl
    rw [hu, hp, List.append_assoc]

/-- Whatever conditions are joined behind one that refers to a row, its text stays in front, behind
parentheses that are opened. -/
theorem exists_opened_of_foldl {op : BinaryOp} {l r : Expr}
    (hclosed : (binary op l r).isClosed = false) {xs : List Expr} {t : Text} {s s' : Slate}
    (h : Yields (((xs.foldl (binary .andAlso) (binary op l r)).render st).condition c) s t s') :
    ∃ a s₁, Yields (((binary op l r).render st).condition c) s a s₁ ∧
      (a ≠ [] → ∃ o u, (∀ b ∈ o, b = byte '(') ∧ t = o ++ a ++ u) := by
  induction xs generalizing op l r with
  | nil => exact ⟨t, s', h, fun _ => ⟨[], [], nofun, by simp⟩⟩
  | cons x xs ih =>
    have hopen : (binary .andAlso (binary op l r) x).isClosed = false := by
      rw [isClosed_binary, hclosed, Bool.false_and]
    obtain ⟨a', s₁', hy, htext⟩ := ih hopen h
    obtain ⟨a, s₁, b, ha, -, rfl⟩ := (yields_andAlso_iff hclosed).mp hy
    refine ⟨a, s₁, ha, fun hne => ?_⟩
    obtain ⟨o, u, ho, hu⟩ := exists_opened_joinedByAnd hne (binary op l r).needsParens
      (parenthesised x.needsParens b)
    have hjoined : o ++ a ++ u ≠ [] := by simp [hne]
    rw [hu] at htext
    obtain ⟨o', u', ho', rfl⟩ := htext hjoined
    refine ⟨o' ++ o, u ++ u', ?_, by simp⟩
    intro x hx
    rcases List.mem_append.mp hx with h | h
    · exact ho' x h
    · exact ho x h

end Expr

/-! ### Updates -/

namespace Draft

theorem settings_finish (d : Draft) (c : Clause) (n : Nat) :
    (d.finish c n).1.settings = d.settings := by
  cases c with
  | select =>
    show (if _ then _ else _ : Draft).settings = _
    split
    · rfl
    · rfl
  | _ => rfl

theorem settings_run (d : Draft) (m : Emit Text) : (d.run m).1.settings = d.settings := by
  unfold run
  split
  · rfl
  · rfl

/-- Compiling an expression leaves the settings as they are. -/
theorem settings_compile (d : Draft) (e : Expr) (c : Clause) (ds : List Direction) :
    (d.compile e c ds).1.settings = d.settings := by
  unfold compile
  split
  · cases c with
    | max | min | avg | sum | count => exact settings_run d _
    | _ => rfl
  · have hrun := settings_run d (emitted d.settings e c ds)
    split
    · rename_i d' h
      rw [h] at hrun
      rw [settings_finish]
      exact hrun
    · exact hrun

theorem settings_clause {d d' : Draft} {e : Expr} {c : Clause} {ds : List Direction}
    (h : d.clause e c ds = .ok d') : d'.settings = d.settings := by
  have hs := settings_compile d e c ds
  rw [clause_eq_ok h] at hs
  exact hs

/-- Conditions that are written have been compiled. -/
theorem yields_of_conditions {d d' : Draft} {keyword : Text} {conds : List Expr} {c : Clause}
    (hc : c.isCondition = true) (hne : conds.isEmpty = false)
    (h : d.conditions keyword conds c = .ok d') :
    ∃ t s, Yields (((Expr.allOf conds).render d.settings).condition c) d.slate t s ∧
      d' = { d with text := d.text ++ (if t.isEmpty then [] else keyword ++ t), slate := s } := by
  have hh := h
  unfold conditions at hh
  rw [hne] at hh
  obtain ⟨d₁, hclause, -⟩ := bind_eq_ok.mp hh
  obtain ⟨t, s, -, ⟨hhole, -⟩ | hy⟩ := compile_condition hc (clause_eq_ok hclause)
  · rw [Expr.isHole_allOf] at hhole
    cases hhole
  · have hy : Yields (((Expr.allOf conds).render d.settings).condition c) d.slate t s := hy
    rw [conditions_of_yields hc hne hy] at h
    cases h
    exact ⟨t, s, hy, rfl⟩

end Draft

/-- The update assigns the bound value `v` to the rows of an entity and has no condition of its
own. -/
structure Update.SetsAll (s : Update) (st : Settings) (p : Param) (e : Entity) (v : Value) :
    Prop where
  target : s.target = some p
  entity : (s.settings p st).entityOf p.type = .ok e
  wheres : s.wheres = []
  assigned : ∃ type, s.assigned = .const v type

/-- The draft of an update up to its conditions, when `x` is assigned. -/
def Update.assigning (s : Update) (st : Settings) (p : Param) (e : Entity) (x : Expr) :
    Attempt StatementError Draft := do
  let (_, _, d) ← (Draft.new (s.settings p st)).source (some p)
  (d.write ("UPDATE " ++ (s.settings p st).ident e.table ++ " SET ")).clause x .update []

namespace Update.SetsAll

variable {s : Update} {st : Settings} {p : Param} {e : Entity} {v : Value}

theorem exists_source (h : s.SetsAll st p e v) : ∃ name d,
    (Draft.new (s.settings p st)).source (some p) = .ok (e, name, d) ∧
      d.settings = s.settings p st := by
  have hnew : (Draft.new (s.settings p st)).settings.entityOf p.type = .ok e := h.entity
  simp only [Draft.source, Draft.bindRow, Slate.bindRow, hnew]
  exact ⟨_, _, rfl, rfl⟩

/-- The draft before the conditions is compiled with the settings of the update. -/
theorem settings_assigning (h : s.SetsAll st p e v) {x : Expr} {before : Draft}
    (hb : s.assigning st p e x = .ok before) : before.settings = s.settings p st := by
  obtain ⟨name, d, hd, hsettings⟩ := h.exists_source
  rw [Update.assigning, hd] at hb
  rw [Draft.settings_clause hb]
  exact hsettings

/-- The key of an update is added first, then the transforms add their conditions, and what they
leave is written. -/
theorem compile_eq (h : s.SetsAll st p e v) (ts : List Transform) : s.compile ts st =
    (do
      let s₁ ← s.keyed e p
      let s₂ ← transformAll Transform.update ts s₁
      let d ← s.assigning st p e s₂.assigned
      d.conditions " WHERE " s₂.wheres .where_) := by
  obtain ⟨name, d, hd, -⟩ := h.exists_source
  have assigning : ∀ x, s.assigning st p e x =
      (d.write ("UPDATE " ++ (s.settings p st).ident e.table ++ " SET ")).clause x .update [] := by
    intro x
    rw [Update.assigning, hd]
    rfl
  simp only [assigning]
  rw [Update.compile, h.target]
  show (do
    let (e, _, d) ← (Draft.new (s.settings p st)).source (some p)
    let s₁ ← s.keyed e p
    let s₂ ← transformAll Transform.update ts s₁
    let d ← (d.write ("UPDATE " ++ (s.settings p st).ident e.table ++ " SET ")).clause s₂.assigned
      .update []
    d.conditions " WHERE " s₂.wheres .where_) = _
  rw [hd]
  rfl

/-- Transforms add conditions to an update and change nothing else in it. -/
theorem wheres_transformAll {s s' : Update} {ts : List Transform}
    (h : transformAll Transform.update ts s = .ok s') :
    s'.assigned = s.assigned ∧ ∃ added, s'.wheres = s.wheres ++ added := by
  refine transformAll_induction
    (P := fun x => x.assigned = s.assigned ∧ ∃ added, x.wheres = s.wheres ++ added)
    ⟨rfl, [], (List.append_nil _).symm⟩ ?_ h
  rintro t - x x' ⟨hassigned, added, hwheres⟩ hx
  cases t with
  | identity | softDelete =>
    cases hx
    exact ⟨hassigned, added, hwheres⟩
  | refuse => cases hx
  | policy pol =>
    obtain ⟨conds, -, hx⟩ := bind_eq_ok.mp hx
    cases hx
    exact ⟨hassigned, added ++ conds, by rw [← List.append_assoc, ← hwheres]⟩

/-- A value of another type gets no condition. -/
theorem keyed_of_ne (h : s.SetsAll st p e v) (hv : v.type?.map Ty.indirect ≠ some e.type) :
    s.keyed e p = .ok s := by
  obtain ⟨type, ha⟩ := h.assigned
  rw [Update.keyed, h.wheres, ha]
  exact if_neg hv

/-- An entity without a key is refused. -/
theorem keyed_of_eq (h : s.SetsAll st p e v) (hv : v.type?.map Ty.indirect = some e.type) :
    s.keyed e p = match keyCondition? e p v with
      | none => .fail (.noKey e.type)
      | some x => .ok { s with wheres := [x] } := by
  obtain ⟨type, ha⟩ := h.assigned
  rw [Update.keyed, h.wheres, ha]
  exact if_pos hv

theorem compile_of_keys_eq_nil (h : s.SetsAll st p e v) (hv : v.type?.map Ty.indirect = some e.type)
    (hkeys : e.keys = []) (ts : List Transform) : s.compile ts st = .fail (.noKey e.type) := by
  have hnone : keyCondition? e p v = none := by rw [keyCondition?, hkeys]; rfl
  rw [h.compile_eq, h.keyed_of_eq hv, hnone]
  rfl

/-- An update of an entity with a key starts from the condition on that key. -/
theorem compile_eq_of_key (h : s.SetsAll st p e v) (hv : v.type?.map Ty.indirect = some e.type)
    {x : Expr} (hx : keyCondition? e p v = some x) (ts : List Transform) : s.compile ts st =
      (do
        let s₂ ← transformAll Transform.update ts { s with wheres := [x] }
        let d ← s.assigning st p e s₂.assigned
        d.conditions " WHERE " s₂.wheres .where_) := by
  rw [h.compile_eq, h.keyed_of_eq hv, hx]
  rfl

/-- What the condition on the key compiles to behind the assignments. -/
theorem yields_key (h : s.SetsAll st p e v) {x y : Expr} {before : Draft}
    (hbefore : s.assigning st p e x = .ok before) (hy : keyCondition? e p v = some y) :
    ∃ s', Yields ((y.render before.settings).condition .where_) before.slate
        (keyText (s.settings p st) p v before.slate.params.length e.keys) s' ∧
      s'.params = before.slate.params ++
        (keyTests (s.settings p st) p v before.slate.params.length e.keys).flatMap (·.2) := by
  rw [h.settings_assigning hbefore]
  exact Expr.yields_keyCondition rfl h.entity hy .where_ before.slate

end Update.SetsAll

/-- The draft `after` is the draft `before` with the condition behind it that the row has the key of
`v`. -/
structure Draft.FiltersByKey (st : Settings) (p : Param) (v : Value) (keys : List Column)
    (before after : Draft) : Prop where
  text : after.text = before.text ++ " WHERE " ++ keyText st p v before.slate.params.length keys
  params : after.slate.params = before.slate.params ++
    (keyTests st p v before.slate.params.length keys).flatMap (·.2)

/-- **Which updates filter by key.** Take an update without conditions that assigns a bound value.
If the value is of the entity's type, perhaps behind pointers, the update fails for want of a key,
or it is written with one test for each key column behind `WHERE`; conditions that transforms add
stand behind these tests, and at most parentheses are opened before them. A value of any other type
is assigned without a condition, also if it holds exactly one entity. -/
theorem update_filters_iff_entity {s : Update} {st : Settings} {p : Param} {e : Entity} {v : Value}
    (h : s.SetsAll st p e v) :
    (v.type?.map Ty.indirect = some e.type →
      (e.keys = [] → ∀ ts, s.compile ts st = .fail (.noKey e.type)) ∧
      (e.keys ≠ [] → ∀ before, s.assigning st p e s.assigned = .ok before → ∃ d,
        s.compile [] st = .ok d ∧ before.FiltersByKey (s.settings p st) p v e.keys d) ∧
      ∀ ts d, s.compile ts st = .ok d → e.keys ≠ [] ∧ ∃ before o u,
        s.assigning st p e s.assigned = .ok before ∧ (∀ b ∈ o, b = byte '(') ∧
        d.text = before.text ++ " WHERE " ++ o ++
          keyText (s.settings p st) p v before.slate.params.length e.keys ++ u) ∧
    (v.type?.map Ty.indirect ≠ some e.type → s.compile [] st = s.assigning st p e s.assigned) := by
  refine ⟨fun hv => ⟨h.compile_of_keys_eq_nil hv, ?_, ?_⟩, ?_⟩
  · intro hkeys before hbefore
    obtain ⟨op, l, r, hx, -⟩ := Expr.exists_keyCondition p v hkeys
    obtain ⟨s', hy, hparams⟩ := h.yields_key hbefore hx
    have hne :
        (keyText (s.settings p st) p v before.slate.params.length e.keys).isEmpty = false := by
      simpa using Expr.keyText_ne_nil (s.settings p st) p v before.slate.params.length hkeys
    have hall : Yields (((Expr.allOf [.binary op l r]).render before.settings).condition .where_)
        before.slate (keyText (s.settings p st) p v before.slate.params.length e.keys) s' := by
      rw [Expr.allOf_cons rfl]
      exact hy
    have hcompiled : s.compile [] st = .ok { before with
        text := before.text ++
          (" WHERE " ++ keyText (s.settings p st) p v before.slate.params.length e.keys)
        slate := s' } := by
      rw [h.compile_eq_of_key hv hx]
      show (s.assigning st p e s.assigned >>= fun d =>
        d.conditions " WHERE " [.binary op l r] .where_) = _
      rw [hbefore]
      show before.conditions " WHERE " [.binary op l r] .where_ = _
      rw [Draft.conditions_of_yields rfl rfl hall, hne]
      rfl
    exact ⟨_, hcompiled, (List.append_assoc ..).symm, hparams⟩
  · intro ts d hd
    have hkeys : e.keys ≠ [] := by
      intro hnil
      rw [h.compile_of_keys_eq_nil hv hnil] at hd
      cases hd
    obtain ⟨op, l, r, hx, hclosed⟩ := Expr.exists_keyCondition p v hkeys
    rw [h.compile_eq_of_key hv hx] at hd
    obtain ⟨s₂, hts, hd⟩ := bind_eq_ok.mp hd
    obtain ⟨hassigned, added, hwheres⟩ := Update.SetsAll.wheres_transformAll hts
    rw [hassigned, hwheres] at hd
    obtain ⟨before, hbefore, hd⟩ := bind_eq_ok.mp hd
    obtain ⟨t, s', hy, rfl⟩ := Draft.yields_of_conditions rfl rfl hd
    obtain ⟨s₁, hkey, -⟩ := h.yields_key hbefore hx
    have hne := Expr.keyText_ne_nil (s.settings p st) p v before.slate.params.length hkeys
    rw [List.singleton_append, Expr.allOf_cons rfl] at hy
    obtain ⟨a, s₁', ha, hopened⟩ := Expr.exists_opened_of_foldl hclosed hy
    obtain ⟨rfl, -⟩ := ha.unique hkey
    obtain ⟨o, u, ho, rfl⟩ := hopened hne
    refine ⟨hkeys, before, o, u, hbefore, ho, ?_⟩
    have hempty :
        (o ++ keyText (s.settings p st) p v before.slate.params.length e.keys ++ u).isEmpty =
        false := by
      simp [hne]
    show before.text ++ (if _ then _ else _) = _
    rw [hempty]
    simp [List.append_assoc]
  · intro hv
    rw [h.compile_eq, h.keyed_of_ne hv]
    show (s.assigning st p e s.assigned >>= fun d => d.conditions " WHERE " s.wheres .where_) = _
    rw [h.wheres]
    exact bind_pure (s.assigning st p e s.assigned)

/-! ### An order item, and a list of one -/

namespace Sample

/-- A row of order items, whose key has two columns. -/
def itemRow : Param := ⟨1, "i", some orderItem⟩

/-- The entity of order items. -/
def orderItems : Entity :=
  ⟨orderItem, Registry.standard.tableOf orderItem, Mapping.columnsOf .standard orderItem⟩

/-- An order item. -/
def item : Value :=
  .named ⟨"main", "OrderItem", none⟩ (.record (orderItem.fields?.getD [])
    [.int .int 7, .int .int 2, .string "x", .int .uint16 3])

/-- The update that assigns a value to order items. -/
def assignItem (v : Value) : Update :=
  { target := some itemRow, assigned := .value v, wheres := [], includeNulls := false }

theorem setsAll_assignItem (d : Dialect) (v : Value) :
    (assignItem v).SetsAll (.standard d world) itemRow orderItems v :=
  ⟨rfl, rfl, rfl, none, rfl⟩

end Sample

open Sample

theorem eq_ok_of_toOption {ε α : Type} {x : Except ε α} {a : α} (h : x.toOption = some a) :
    x = .ok a := by
  cases x with
  | error => cases h
  | ok b =>
    cases h
    rfl

theorem update_filters_iff_entity_item :
    (assignItem (.ptr orderItem item)).SetsAll (.standard .sqlServer world) itemRow orderItems
        (.ptr orderItem item) ∧
      ∃ before d, (assignItem (.ptr orderItem item)).assigning (.standard .sqlServer world) itemRow
          orderItems (.value (.ptr orderItem item)) = .ok before ∧
        before.text = "UPDATE order_items SET sku = @p1, qty = @p2" ∧
        (assignItem (.ptr orderItem item)).compile [] (.standard .sqlServer world) = .ok d ∧
        d.text = before.text ++ " WHERE order_id = @p3 AND line_no = @p4" := by
  have hset : ((assignItem (.ptr orderItem item)).assigning (.standard .sqlServer world) itemRow
      orderItems (.value (.ptr orderItem item))).toOption.map
        (fun d => (d.text, d.slate.params.length)) =
        some (("UPDATE order_items SET sku = @p1, qty = @p2" : Text), 2) := by
    decide
  have hkey :
      keyText ((assignItem (.ptr orderItem item)).settings itemRow (.standard .sqlServer world))
        itemRow (.ptr orderItem item) 2 orderItems.keys = "order_id = @p3 AND line_no = @p4" := by
    decide
  have hsets := setsAll_assignItem .sqlServer (.ptr orderItem item)
  obtain ⟨before, hbefore, htext⟩ := Option.map_eq_some_iff.mp hset
  obtain ⟨hset, hlen⟩ := Prod.mk.inj htext
  have hok := eq_ok_of_toOption hbefore
  obtain ⟨-, hkeyed, -⟩ := (update_filters_iff_entity hsets).1 (by decide)
  obtain ⟨d, hd, hfilters⟩ := hkeyed (by decide) before hok
  refine ⟨hsets, before, d, hok, hset, hd, ?_⟩
  rw [hfilters.text, hlen, hkey, List.append_assoc]
  rfl

/-- **A list of one entity is written to all rows**: it is accepted as exactly one row of the
entity, and the update has no condition. -/
theorem exists_update_of_all_rows :
    (assignItem (.slice orderItem [item])).SetsAll (.standard .sqlServer world) itemRow orderItems
        (.slice orderItem [item]) ∧
      (∃ r : Row, Row.allOfValue ((assignItem (.slice orderItem [item])).settings itemRow
        (.standard .sqlServer world)) (·.updatable) (.slice orderItem [item]) = .ok [r] ∧
          r.entity = orderItems) ∧
      ∃ d, (assignItem (.slice orderItem [item])).compile [] (.standard .sqlServer world) = .ok d ∧
        d.text = "UPDATE order_items SET sku = @p1, qty = @p2" := by
  have text : statementText? (.update (assignItem (.slice orderItem [item]))) []
      (.standard .sqlServer world) =
        some ("UPDATE order_items SET sku = @p1, qty = @p2" : Text) := by
    decide +kernel
  exact ⟨setsAll_assignItem .sqlServer _, ⟨_, rfl, rfl⟩, compile_of_statementText? text⟩

end QueryTree
