import QueryTree.Proofs.Grouping
import QueryTree.Proofs.ItemNames
import QueryTree.Proofs.KeyFilter

/-!
# Deletions by key

A deletion may be given entities, and then it deletes the rows that have the key of one of them.
Its condition is a disjunction of the conditions on the keys, each a conjunction of tests of
columns. What has been joined is in parentheses wherever it is joined again, so the text is read as
the condition that was meant, whatever the number of entities and of key columns.

A row is given by the values of its columns, where a null is no value. The tests are read from their
texts: a test ends with `IS NULL`, with a truth test or its complement, or with the mark of the
value that it compares. Marks may all look alike, so the tests are read in order, and each knows how
many values the tests before it have used. A complement that is written `IS NOT TRUE` also holds for
null.

A deletion that is given no entity has no condition: it deletes all rows.

## Main definitions

* `Sql.passes`: whether a row passes a test
* `Sql.filters`: whether a row satisfies a condition
* `Column.holdsIn`: whether a row has a value in a column
* `Expr.Tests`: the expression is written as a text that is read as a test

## Main results

* `Expr.tests_keyCondition`: the condition on a key is read as a test for the key
* `delete_filters_iff_key`: which rows a deletion by key deletes
* `exists_delete_of_all_rows`: without an entity it deletes all of them
-/

namespace QueryTree

open Emit Sql

/-! ### Rows and tests -/

namespace Sql

/-- Whether a row passes a test that stands behind `n` bound values, and how many values the test
uses. `row` gives the values of columns by how they are written, and `same` says which values the
database takes for equal. -/
def passes (p : Profile) (same : Value → Value → Bool) (row : Text → Option Value)
    (args : List Value) (n : Nat) (t : Text) : Bool × Nat :=
  let mark := " = " ++ p.placeholder (n + 1)
  if t.hasSuffix " IS NULL" then ((row (t.trimSuffix " IS NULL")).isNone, 0)
  else if t.hasSuffix p.truthTest then
    ((row (t.trimSuffix p.truthTest)).any fun y => y.truth = some true, 0)
  else if t.hasSuffix (negate p.truthTest) then
    (match row (t.trimSuffix (negate p.truthTest)) with
      | none => p.truthWords
      | some y => y.truth ≠ some true, 0)
  else if t.hasSuffix mark then
    (match row (t.trimSuffix mark), args[n]? with
      | some y, some x => same x y
      | _, _ => false, 1)
  else (false, 0)

/-- Whether both of two truth values hold, or one of them. -/
def joins (isOr : Bool) (a b : Bool) : Bool := if isOr then a || b else a && b

theorem foldl_joins {α : Type} (isOr : Bool) (g : α → Bool) (zs : List α) (b : Bool) :
    zs.foldl (fun b z => joins isOr b (g z)) b =
      joins isOr b (if isOr then zs.any g else zs.all g) := by
  induction zs generalizing b with
  | nil => cases isOr <;> cases b <;> rfl
  | cons z zs ih =>
    rw [List.foldl_cons, ih]
    cases isOr with
    | true => simp [joins, Bool.or_assoc]
    | false => simp [joins, Bool.and_assoc]

/-- The truth of a tree of tests behind `n` bound values, and how many values it uses. -/
def JoinTree.judge (w : Nat → Text → Bool × Nat) : Nat → JoinTree Text → Bool × Nat
  | n, leaf t => w n t
  | n, node isOr l r =>
    let (a, k) := l.judge w n
    let (b, m) := r.judge w (n + k)
    (joins isOr a b, k + m)

/-- Whether a row satisfies a condition. -/
def filters (p : Profile) (same : Value → Value → Bool) (row : Text → Option Value)
    (args : List Value) (t : Text) : Bool :=
  ((parse t).judge (passes p same row args) 0).1

/-! ### Trees of joined texts -/

/-- The text is a formula that is read as the tree, and the formula is a unit if it is put in
parentheses as asked for. -/
def ReadsTree (parens : Bool) (t : Text) (T : JoinTree Text) : Prop :=
  ∃ f : Formula, f.Legible ∧ f.text = t ∧ (f.grouped parens).isUnit = true ∧ f.tree = T

variable {parens p q : Bool} {a b t : Text} {T U : JoinTree Text}

theorem ReadsTree.parse_eq (h : ReadsTree parens t T) : parse t = T := by
  obtain ⟨f, hf, rfl, -, rfl⟩ := h
  rw [parse, read_text hf]

theorem ReadsTree.ne_nil (h : ReadsTree parens t T) : t ≠ [] := by
  obtain ⟨f, hf, rfl, -, -⟩ := h
  exact Formula.text_ne_nil hf.atomic

theorem Atomic.readsTree (h : Atomic t) (parens : Bool) : ReadsTree parens t (.leaf t) :=
  ⟨.atom t, legible_atom h, rfl, by cases parens <;> rfl, rfl⟩

/-- Two units joined are read as a tree of two. -/
theorem ReadsTree.join (ha : ReadsTree p a T) (hb : ReadsTree q b U) (isOr : Bool) :
    ReadsTree true (parenthesised p a ++ (if isOr then (" OR " : Text) else " AND ") ++
      parenthesised q b) (.node isOr T U) := by
  obtain ⟨f, hf, rfl, hfu, rfl⟩ := ha
  obtain ⟨g, hg, rfl, hgu, rfl⟩ := hb
  refine ⟨.merge isOr (f.grouped p) (g.grouped q), (hf.grouped p).merge (hg.grouped q) isOr, ?_,
    rfl, ?_⟩
  · rw [Formula.text_merge, hf.text_grouped, hg.text_grouped]
  · rw [Formula.tree_merge hfu hgu, Formula.tree_grouped, Formula.tree_grouped]

end Sql

/-! ### Tests of columns -/

/-- Whether a row has a value in a column. A nil value asks for null. -/
def Column.holdsIn (st : Settings) (same : Value → Value → Bool) (row : Text → Option Value)
    (k : Column) (x : Value) : Bool :=
  if x.isNil then (row (st.ident k.name)).isNone else (row (st.ident k.name)).any (same x)

/-- Whether a row passes the test that it has a value in a column. -/
def Column.passedBy (st : Settings) (same : Value → Value → Bool) (p : Param)
    (row : Text → Option Value) (k : Column) (x : Value) : Bool :=
  match if (Expr.field p k.member).isBool then x.truth else none with
  | some true => (row (st.ident k.name)).any fun y => y.truth = some true
  | some false =>
    match row (st.ident k.name) with
    | none => st.profile.truthWords
    | some y => y.truth ≠ some true
  | none => k.holdsIn st same row x

theorem truthTest_cases (d : Dialect) :
    d.profile.truthTest = " = 1" ∧ negate d.profile.truthTest = " <> 1" ∧
        d.profile.truthWords = false ∨
      d.profile.truthTest = " IS TRUE" ∧ negate d.profile.truthTest = " IS NOT TRUE" ∧
        d.profile.truthWords = true := by
  cases d <;> decide

/-- A text behind another one does not end with what is no longer and different. -/
theorem hasSuffix_append_eq_false {a u v : Text} (hle : v.length ≤ u.length)
    (h : u.hasSuffix v = false) : (a ++ u).hasSuffix v = false := by
  rw [Bool.eq_false_iff] at h ⊢
  intro hs
  refine h ?_
  simp only [Text.hasSuffix, List.isSuffixOf_iff_suffix] at hs ⊢
  exact List.suffix_of_suffix_length_le hs (List.suffix_append a u) hle

/-- Texts with different last words are not suffixes of each other. -/
theorem hasSuffix_eq_false_of_afterLast {t v : Text} (hv : 32 ∈ v)
    (h : t.afterLast (· == 32) ≠ v.afterLast (· == 32)) : t.hasSuffix v = false := by
  rw [Bool.eq_false_iff]
  intro hs
  rw [Text.hasSuffix, List.isSuffixOf_iff_suffix] at hs
  obtain ⟨a, rfl⟩ := hs
  exact h (Text.afterLast_append_of_mem hv rfl)

theorem placeholder_ne (d : Dialect) (n : Nat) :
    (32 : UInt8) ∉ d.profile.placeholder (n + 1) ∧ d.profile.placeholder (n + 1) ≠ "NULL" ∧
      d.profile.placeholder (n + 1) ≠ "1" ∧ d.profile.placeholder (n + 1) ≠ "TRUE" := by
  have numbered : ∀ lead : Text, (32 : UInt8) ∉ lead →
      (lead.head?.any fun b => b = byte 'N' || b = byte '1' || b = byte 'T') = false → lead ≠ [] →
      (32 : UInt8) ∉ lead ++ Text.ofNat (n + 1) ∧ lead ++ Text.ofNat (n + 1) ≠ ("NULL" : Text) ∧
        lead ++ Text.ofNat (n + 1) ≠ ("1" : Text) ∧
          lead ++ Text.ofNat (n + 1) ≠ ("TRUE" : Text) := by
    intro lead hlead hhead hne
    have hdigits : (32 : UInt8) ∉ Text.ofNat (n + 1) := by
      intro h
      have hdigit := List.all_eq_true.mp (Text.all_isDigitByte_ofNat (n + 1)) _ h
      revert hdigit
      decide
    obtain ⟨b, u, rfl⟩ := List.exists_cons_of_ne_nil hne
    refine ⟨by simpa [hdigits] using hlead, ?_, ?_, ?_⟩ <;>
    · rintro h
      obtain rfl := (List.cons.inj h).1
      simp at hhead
  cases d with
  | mySql | sqlite => exact (by decide : (32 : UInt8) ∉ ("?" : Text) ∧ ("?" : Text) ≠ "NULL" ∧
      ("?" : Text) ≠ "1" ∧ ("?" : Text) ≠ "TRUE")
  | sqlServer => exact numbered "@p" (by decide) (by decide) (by decide)
  | postgres => exact numbered "$" (by decide) (by decide) (by decide)
  | oracle => exact numbered ":" (by decide) (by decide) (by decide)

/-- The last word of a text shows which ends it cannot have. -/
theorem hasSuffix_append_eq_false_of_word {c u v : Text} (hu : 32 ∈ u) (hv : 32 ∈ v)
    (h : u.afterLast (· == 32) ≠ v.afterLast (· == 32)) : (c ++ u).hasSuffix v = false :=
  hasSuffix_eq_false_of_afterLast hv (by rwa [Text.afterLast_append_of_mem hu rfl])

section Passes

variable (d : Dialect) (same : Value → Value → Bool) (row : Text → Option Value) (args : List Value)
  (n : Nat) (c : Text)

theorem passes_null : passes d.profile same row args n (c ++ " IS NULL") = ((row c).isNone, 0) := by
  simp only [passes, Text.hasSuffix_append, if_true, Text.trimSuffix_append]

theorem passes_truthTest : passes d.profile same row args n (c ++ d.profile.truthTest) =
    ((row c).any fun y => y.truth = some true, 0) := by
  have hnull : (c ++ d.profile.truthTest).hasSuffix " IS NULL" = false := by
    rcases truthTest_cases d with ⟨h, -⟩ | ⟨h, -⟩ <;> rw [h] <;>
      exact hasSuffix_append_eq_false_of_word (by decide) (by decide) (by decide)
  simp only [passes, hnull, Bool.false_eq_true, if_false, Text.hasSuffix_append, if_true,
    Text.trimSuffix_append]

theorem passes_falsityTest : passes d.profile same row args n (c ++ negate d.profile.truthTest) =
    (match row c with
      | none => d.profile.truthWords
      | some y => y.truth ≠ some true, 0) := by
  have hnull : (c ++ negate d.profile.truthTest).hasSuffix " IS NULL" = false := by
    rcases truthTest_cases d with ⟨-, h, -⟩ | ⟨-, h, -⟩ <;> rw [h] <;>
      exact hasSuffix_append_eq_false_of_word (by decide) (by decide) (by decide)
  have htrue : (c ++ negate d.profile.truthTest).hasSuffix d.profile.truthTest = false := by
    rcases truthTest_cases d with ⟨h, h', -⟩ | ⟨h, h', -⟩ <;> rw [h', h] <;>
      exact hasSuffix_append_eq_false (by decide) (by decide)
  simp only [passes, hnull, htrue, Bool.false_eq_true, if_false, Text.hasSuffix_append, if_true,
    Text.trimSuffix_append]

theorem passes_mark {x : Value} (hx : args[n]? = some x) :
    passes d.profile same row args n (c ++ " = " ++ d.profile.placeholder (n + 1)) =
      ((row c).any (same x), 1) := by
  obtain ⟨hblank, hnull, hone, htrue⟩ := placeholder_ne d n
  have hmem : (32 : UInt8) ∈ " = " ++ d.profile.placeholder (n + 1) :=
    List.mem_append_left _ (by decide)
  have hword : (" = " ++ d.profile.placeholder (n + 1)).afterLast (· == 32) =
      d.profile.placeholder (n + 1) := by
    rw [Text.afterLast_append_of_forall fun b hb => ?_]
    · rfl
    · rw [beq_eq_false_iff_ne]
      rintro rfl
      exact hblank hb
  have other : ∀ v : Text, 32 ∈ v → d.profile.placeholder (n + 1) ≠ v.afterLast (· == 32) →
      (c ++ (" = " ++ d.profile.placeholder (n + 1))).hasSuffix v = false :=
    fun v hv h => hasSuffix_append_eq_false_of_word hmem hv (by rwa [hword])
  have h₁ := other " IS NULL" (by decide) hnull
  have h₂ : (c ++ (" = " ++ d.profile.placeholder (n + 1))).hasSuffix
      d.profile.truthTest = false := by
    rcases truthTest_cases d with ⟨h, -⟩ | ⟨h, -⟩ <;> rw [h]
    · exact other " = 1" (by decide) hone
    · exact other " IS TRUE" (by decide) htrue
  have h₃ : (c ++ (" = " ++ d.profile.placeholder (n + 1))).hasSuffix
      (negate d.profile.truthTest) = false := by
    rcases truthTest_cases d with ⟨-, h, -⟩ | ⟨-, h, -⟩ <;> rw [h]
    · exact other " <> 1" (by decide) hone
    · exact other " IS NOT TRUE" (by decide) htrue
  rw [List.append_assoc]
  simp only [passes, h₁, h₂, h₃, Bool.false_eq_true, if_false, Text.hasSuffix_append, if_true,
    Text.trimSuffix_append, hx]
  cases row c <;> rfl

end Passes

/-- The complement of the truth test of a column. -/
theorem negate_truthTest {st : Settings} {name : Text}
    (h : (Lexicon.readable st.quoted).Name name) :
    negate (st.ident name ++ st.profile.truthTest) =
      st.ident name ++ negate st.profile.truthTest := by
  have hname := valued_ident h
  rcases truthTest_cases st.dialect with ⟨h, h', -⟩ | ⟨h, h', -⟩ <;> rw [Settings.profile, h', h]
  · have hnegate : negate (st.ident name ++ " = " ++ "1") = st.ident name ++ " <> " ++ "1" :=
      negate_comparison (by decide) (by decide) hname (valued_valueWord (by decide))
    rw [List.append_assoc, List.append_assoc] at hnegate
    exact hnegate
  · have hnegate : negate (st.ident name ++ " IS " ++ "TRUE") =
        st.ident name ++ " IS NOT " ++ "TRUE" :=
      negate_comparison (by decide) (by decide) hname (valued_valueWord (by decide))
    rw [List.append_assoc, List.append_assoc] at hnegate
    exact hnegate

section Columns

variable {st : Settings} {same : Value → Value → Bool} {row : Text → Option Value} {p : Param}
  {k : Column} {x : Value} {args : List Value} {n : Nat}

/-- **The test of a column is read as what it asks.** -/
theorem passes_test (hk : (Lexicon.readable st.quoted).Name k.name)
    (hargs : (k.test st p n x).2.map (·.value) <+: args.drop n) :
    passes st.profile same row args n (k.test st p n x).1 =
      (k.passedBy st same p row x, (k.test st p n x).2.length) := by
  unfold Column.test at hargs ⊢
  unfold Column.passedBy
  generalize (if (Expr.field p k.member).isBool then x.truth else none) = truth at hargs ⊢
  cases truth with
  | some b =>
    cases b with
    | true => exact passes_truthTest st.dialect same row args n (st.ident k.name)
    | false =>
      dsimp only
      rw [negate_truthTest hk]
      exact passes_falsityTest st.dialect same row args n (st.ident k.name)
  | none =>
    dsimp only at hargs ⊢
    unfold Column.holdsIn
    cases hx : x.isNil with
    | true => exact passes_null st.dialect same row args n (st.ident k.name)
    | false =>
      rw [hx] at hargs
      have harg : args[n]? = some x := by
        obtain ⟨rest, hrest⟩ := hargs
        rw [← List.head?_drop, ← hrest]
        rfl
      exact passes_mark st.dialect same row args n (st.ident k.name) harg

/-- The test of a column is one comparison. -/
theorem atomic_test (hk : (Lexicon.readable st.quoted).Name k.name) :
    Atomic (k.test st p n x).1 := by
  have hname := valued_ident hk
  have word : ∀ token w : Text, token ∈ comparisonTokens → w ∈ valueWords →
      Atomic (st.ident k.name ++ (token ++ w)) := fun token w ht hw =>
    ⟨_, token, w, ht, hname, valued_valueWord hw, (List.append_assoc ..).symm⟩
  have htruth : Atomic (st.ident k.name ++ st.profile.truthTest) := by
    rcases truthTest_cases st.dialect with ⟨h, -⟩ | ⟨h, -⟩ <;> rw [Settings.profile, h]
    · exact word " = " "1" (by decide) (by decide)
    · exact word " IS " "TRUE" (by decide) (by decide)
  unfold Column.test
  split
  · exact htruth
  · exact htruth.negate
  · split
    · exact word " IS " "NULL" (by decide) (by decide)
    · exact ⟨_, " = ", _, by decide, hname, valued_placeholder st.dialect n, rfl⟩

end Columns

/-! ### Conditions as tests -/

namespace Expr

variable {st : Settings} {same : Value → Value → Bool} {c : Clause} {x y : Expr} {op : BinaryOp}
  {P Q : (Text → Option Value) → Bool}

/-- The expression has two operands and refers to a row, and it is written as a text that is read as
a test. Rows pass the test as `P` says. -/
structure Tests (st : Settings) (same : Value → Value → Bool) (c : Clause) (x : Expr)
    (P : (Text → Option Value) → Bool) : Prop where
  exists_binary : ∃ op l r, x = binary op l r
  isClosed : x.isClosed = false
  exists_tree : ∀ s, ∃ t s' T added, Yields ((x.render st).condition c) s t s' ∧
    ReadsTree x.needsParens t T ∧ s'.params = s.params ++ added ∧
    ∀ row args, added.map (·.value) <+: args.drop s.params.length →
      T.judge (passes st.profile same row args) s.params.length = (P row, added.length)

theorem tests_keyTest {p : Param} {e : Entity} {k : Column} {v : Value} (hs : st.singleTable = true)
    (he : st.entityOf p.type = .ok e) (hk : e.column? k.member = some k)
    (hname : (Lexicon.readable st.quoted).Name k.name) :
    Tests st same c (keyTest p v k) fun row => k.passedBy st same p row (k.read v) where
  exists_binary := ⟨_, _, _, rfl⟩
  isClosed := isClosed_keyTest p v k
  exists_tree s := by
    obtain ⟨s', hy, hparams⟩ := yields_test hs he hk (k.read v) c s
    exact ⟨_, s', _, _, hy, (atomic_test hname).readsTree _, hparams, fun row args hargs =>
      passes_test hname hargs⟩

/-- Two conditions that are not literals, joined by a logical operator. -/
theorem yields_logical_of_ne_nil (hop : op.isLogical = true) (hx : x.literalTruth? = none)
    (hy : y.literalTruth? = none) (hopen : x.isClosed = false) {s s₁ s' : Slate} {a b : Text}
    (hxa : Yields ((x.render st).condition c) s a s₁) (ha : a ≠ [])
    (hyb : Yields ((y.render st).condition c) s₁ b s') (hb : b ≠ []) :
    Yields (((binary op x y).render st).condition c) s
      (parenthesised x.needsParens a ++ (if op.isOr then (" OR " : Text) else " AND ") ++
        parenthesised y.needsParens b) s' := by
  have hclosed : (binary op x y).isClosed = false := by rw [isClosed_binary, hopen, Bool.false_and]
  rw [condition_binary, yields_folding, folded?_of_not_isClosed hclosed]
  refine .inr ⟨rfl, ?_⟩
  rw [Rendering.binaryCondition, if_pos hop, Rendering.logical, render_expr, render_expr, hx, hy,
    logical_token hop]
  simp only [reduceCtorEq, decide_false, Bool.or_self, Bool.and_false, Bool.false_eq_true, if_false,
    Emit.yields_joined, yields_groupedCondition]
  refine ⟨_, s₁, _, ⟨a, hxa, rfl⟩, ⟨b, hyb, rfl⟩, ?_⟩
  rw [isEmpty_parenthesised, isEmpty_parenthesised, List.isEmpty_eq_false_iff.mpr ha,
    List.isEmpty_eq_false_iff.mpr hb]
  rfl

/-- **Joined tests are read as joined.** -/
theorem Tests.join (hop : op.isLogical = true) (hx : Tests st same c x P)
    (hy : Tests st same c y Q) :
    Tests st same c (binary op x y) fun row => joins op.isOr (P row) (Q row) where
  exists_binary := ⟨_, _, _, rfl⟩
  isClosed := by rw [isClosed_binary, hx.isClosed, Bool.false_and]
  exists_tree s := by
    obtain ⟨a, s₁, T, added, hxa, hT, hs₁, hjudge⟩ := hx.exists_tree s
    obtain ⟨b, s', U, added', hyb, hU, hs', hjudge'⟩ := hy.exists_tree s₁
    obtain ⟨_, _, _, hxb⟩ := hx.exists_binary
    obtain ⟨_, _, _, hyb'⟩ := hy.exists_binary
    have hparens : (binary op x y).needsParens = true := by
      rw [hxb, hyb']
      rfl
    refine ⟨_, s', .node op.isOr T U, added ++ added', yields_logical_of_ne_nil hop
      (by rw [hxb]; rfl) (by rw [hyb']; rfl) hx.isClosed hxa hT.ne_nil hyb hU.ne_nil, ?_, ?_, ?_⟩
    · rw [hparens]
      exact hT.join hU op.isOr
    · rw [hs', hs₁, List.append_assoc]
    · intro row args hargs
      rw [List.map_append] at hargs
      have hleft := (List.prefix_append _ _).trans hargs
      have hright : added'.map (·.value) <+: args.drop s₁.params.length := by
        obtain ⟨rest, hrest⟩ := hargs
        refine ⟨rest, ?_⟩
        rw [hs₁, List.length_append, ← List.drop_drop, ← hrest, List.append_assoc]
        simp
      have hn : s.params.length + added.length = s₁.params.length := by rw [hs₁, List.length_append]
      rw [JoinTree.judge, hjudge row args hleft]
      dsimp only
      rw [hn, hjudge' row args hright, List.length_append]

/-- Several tests joined from the left. -/
theorem Tests.foldl {α : Type} {zs : List α} {f : α → Expr}
    {g : α → (Text → Option Value) → Bool} (hop : op.isLogical = true)
    (hzs : ∀ z ∈ zs, Tests st same c (f z) (g z)) (hx : Tests st same c x P) :
    Tests st same c ((zs.map f).foldl (binary op) x) fun row =>
      zs.foldl (fun b z => joins op.isOr b (g z row)) (P row) := by
  induction zs generalizing x P with
  | nil => exact hx
  | cons z zs ih =>
    exact ih (fun y hy => hzs y (List.mem_cons_of_mem z hy))
      (hx.join hop (hzs z List.mem_cons_self))

/-- A conjunction or disjunction of tests that are not none. -/
theorem tests_joined {α : Type} {zs : List α} {f : α → Expr}
    {g : α → (Text → Option Value) → Bool} (hop : op.isLogical = true) (empty : Bool)
    (hne : zs ≠ []) (hzs : ∀ z ∈ zs, Tests st same c (f z) (g z)) :
    Tests st same c (joined op empty (zs.map f)) fun row =>
      if op.isOr then zs.any (g · row) else zs.all (g · row) := by
  have hgiven : (zs.map f).filter (fun x => !x.isHole) = zs.map f := by
    refine List.filter_eq_self.mpr fun x hx => ?_
    obtain ⟨z, hz, rfl⟩ := List.mem_map.mp hx
    obtain ⟨_, _, _, h⟩ := (hzs z hz).exists_binary
    rw [h]
    rfl
  obtain ⟨z, zs, rfl⟩ := List.exists_cons_of_ne_nil hne
  have htests := (hzs z List.mem_cons_self).foldl hop
    fun y hy => hzs y (List.mem_cons_of_mem z hy)
  rw [joined, hgiven]
  refine cast (congrArg _ (funext fun row => ?_)) htests
  rw [foldl_joins]
  cases op.isOr <;> rfl

variable {p : Param} {e : Entity} {v : Value}

/-- **The condition on a key is read as a test for the key.** -/
theorem tests_keyCondition (hs : st.singleTable = true) (he : st.entityOf p.type = .ok e)
    (hnames : ∀ k ∈ e.keys, (Lexicon.readable st.quoted).Name k.name)
    (hx : keyCondition? e p v = some x) : Tests st same c x fun row =>
      e.keys.all fun k => k.passedBy st same p row (k.read v) := by
  unfold keyCondition? at hx
  split at hx
  · cases hx
  · rename_i hkeys
    obtain rfl := Option.some.inj hx
    have hand : BinaryOp.andAlso.isLogical = true := rfl
    refine tests_joined hand true (by simpa using hkeys) fun k hk => ?_
    exact tests_keyTest hs he
      (Entity.column?_member (Settings.nodup_members he) (List.mem_filter.mp hk).1) (hnames k hk)

end Expr

/-! ### Deletions -/

namespace Delete

variable {s : Delete} {st : Settings} {p : Param} {e : Entity} {d : Draft}

/-- A deletion without transforms is its conditions behind the table. -/
theorem compile_eq (hsource : s.source = some p) (he : st.entityOf p.type = .ok e) :
    ∃ before : Draft, before.settings = settings st ∧
      before.text = "DELETE FROM " ++ st.ident e.table ∧ before.slate.params = [] ∧
      s.compile [] st = (do
        let s₁ ← s.keyed e p
        before.conditions " WHERE " s₁.wheres .where_) := by
  have hstart : ∃ name d, (Draft.new (settings st)).source (some p) = .ok (e, name, d) ∧
      d.settings = settings st ∧ d.text = [] ∧ d.slate.params = [] := by
    have hentity : (settings st).entityOf p.type = .ok e := he
    simp only [Draft.source, Draft.bindRow, Slate.bindRow, Draft.new, hentity]
    exact ⟨_, _, rfl, rfl, rfl, rfl⟩
  obtain ⟨name, d, hd, hsettings, htext, hparams⟩ := hstart
  refine ⟨d.write ("DELETE FROM " ++ st.ident e.table), hsettings, ?_, hparams, ?_⟩
  · rw [Draft.write, htext, List.nil_append]
  · have hd' : (Draft.new { st with singleTable := true }).source (some p) = .ok (e, name, d) := hd
    rw [Delete.compile, hsource]
    simp only [hd']
    rfl

/-- The conditions on the keys of the entities, if all entities have keys. -/
theorem keyConditions_eq_ok {conds : List Expr} (h : s.keyConditions e p = .ok conds) :
    ∃ f : Value → Expr, conds = s.byKey.map f ∧
      ∀ v ∈ s.byKey, keyCondition? e p v = some (f v) := by
  refine ⟨fun v => (keyCondition? e p v).getD .hole, ?_⟩
  unfold keyConditions at h
  generalize s.byKey = vs at h ⊢
  induction vs generalizing conds with
  | nil =>
    cases h
    exact ⟨rfl, fun _ hv => absurd hv List.not_mem_nil⟩
  | cons v vs ih =>
    rw [List.mapM_cons] at h
    obtain ⟨x, hx, h⟩ := bind_eq_ok.mp h
    obtain ⟨xs, hxs, h⟩ := bind_eq_ok.mp h
    cases h
    obtain ⟨rfl, hall⟩ := ih hxs
    have hkey : keyCondition? e p v = some x := by
      split at hx
      · cases hx
      · split at hx
        · cases hx
        · cases hx
          assumption
    refine ⟨by rw [List.map_cons, hkey]; rfl, fun w hw => ?_⟩
    rcases List.mem_cons.mp hw with rfl | hw
    · simp [hkey]
    · exact hall w hw

/-- The condition on the keys of entities is read as a test for one of them. -/
theorem tests_keyConditions {same : Value → Value → Bool} {conds : List Expr}
    (hs : st.singleTable = true) (he : st.entityOf p.type = .ok e)
    (hnames : ∀ k ∈ e.keys, (Lexicon.readable st.quoted).Name k.name) (hne : s.byKey ≠ [])
    (h : s.keyConditions e p = .ok conds) : Expr.Tests st same .where_ (.anyOf conds) fun row =>
      s.byKey.any fun v => e.keys.all fun k => k.passedBy st same p row (k.read v) := by
  obtain ⟨f, rfl, hf⟩ := keyConditions_eq_ok h
  have hor : BinaryOp.orElse.isLogical = true := rfl
  exact Expr.tests_joined hor false hne fun v hv =>
    Expr.tests_keyCondition hs he hnames (hf v hv)

end Delete

/-- Where a truth value is asked for and the row has one, the test is equality. -/
theorem Column.passedBy_eq {st : Settings} {same : Value → Value → Bool} {p : Param}
    {row : Text → Option Value} {k : Column} {x : Value}
    (hsame : ∀ b b', same (.bool b) (.bool b') = (b == b'))
    (hrow : ∀ b, x = .bool b → ∃ b', row (st.ident k.name) = some (.bool b')) :
    k.passedBy st same p row x = k.holdsIn st same row x := by
  unfold passedBy
  split
  all_goals try rfl
  all_goals
    rename_i htruth
    split at htruth
    · cases x with
      | bool b =>
        cases htruth
        obtain ⟨b', hb'⟩ := hrow _ rfl
        simp only [holdsIn, hb', Value.isNil, Option.any_some, hsame, Value.truth]
        cases b' <;> rfl
      | _ => cases htruth
    · cases htruth

/-- **Which rows a deletion by key deletes.** Take a deletion without other conditions that
compiles. If it was given no entity, it has no condition. Otherwise it has one, and read with the
precedence of SQL it holds for exactly the rows that have the key of one of the entities. `same`
says which values the database takes for equal, and rows have truth values where the entities have
some. -/
theorem delete_filters_iff_key {s : Delete} {st : Settings} {p : Param} {e : Entity} {d : Draft}
    (hsource : s.source = some p) (he : st.entityOf p.type = .ok e) (hwheres : s.wheres = [])
    (hnames : ∀ k ∈ e.keys, (Lexicon.readable st.quoted).Name k.name)
    (h : s.compile [] st = .ok d) :
    (s.byKey = [] → d.text = "DELETE FROM " ++ st.ident e.table) ∧
    (s.byKey ≠ [] → ∃ t, d.text = "DELETE FROM " ++ st.ident e.table ++ " WHERE " ++ t ∧
      ∀ (same : Value → Value → Bool) (row : Text → Option Value),
        (∀ b b', same (.bool b) (.bool b') = (b == b')) →
        (∀ v ∈ s.byKey, ∀ k ∈ e.keys, ∀ b, k.read v = .bool b →
          ∃ b', row (st.ident k.name) = some (.bool b')) →
        (filters st.profile same row d.args t = true ↔
          ∃ v ∈ s.byKey, ∀ k ∈ e.keys, k.holdsIn st same row (k.read v) = true)) := by
  obtain ⟨before, hsettings, htext, hparams, hcompile⟩ := Delete.compile_eq hsource he
  rw [hcompile, Delete.keyed] at h
  constructor
  · intro hnone
    rw [hnone] at h
    have hd : before.conditions " WHERE " s.wheres .where_ = .ok d := h
    rw [hwheres] at hd
    cases hd
    exact htext
  · intro hsome
    rw [if_neg (by simpa using hsome), hwheres] at h
    obtain ⟨s₁, hs₁, h⟩ := bind_eq_ok.mp h
    obtain ⟨conds, hconds, hs₁⟩ := bind_eq_ok.mp hs₁
    cases hs₁
    have tests : ∀ same, Expr.Tests (Delete.settings st) same .where_ (.anyOf conds) _ :=
      fun same => Delete.tests_keyConditions rfl he hnames hsome hconds
    have hall : Expr.allOf [.anyOf conds] = .anyOf conds := by
      obtain ⟨op, l, r, hx⟩ := (tests fun _ _ => false).exists_binary
      rw [hx]
      rfl
    obtain ⟨t, s', hy, rfl⟩ := Draft.yields_of_conditions rfl rfl h
    have hy : Yields (((Expr.anyOf conds).render (Delete.settings st)).condition .where_)
        before.slate t s' := by
      rw [← hall, ← hsettings]
      exact hy
    have hne : t.isEmpty = false := by
      obtain ⟨t', _, _, _, hy', hread, -⟩ := (tests fun _ _ => false).exists_tree before.slate
      obtain ⟨rfl, -⟩ := hy.unique hy'
      exact List.isEmpty_eq_false_iff.mpr hread.ne_nil
    refine ⟨t, ?_, fun same row hsame hrow => ?_⟩
    · show before.text ++ (if t.isEmpty then _ else _) = _
      rw [hne, htext]
      simp [List.append_assoc]
    · obtain ⟨t', s'', T, added, hy', hread, hadded, hjudge⟩ :=
        (tests same).exists_tree before.slate
      obtain ⟨rfl, rfl⟩ := hy.unique hy'
      rw [hparams, List.nil_append] at hadded
      have htruth := hjudge row (s'.params.map (·.value))
        (by rw [hadded, hparams]; exact List.prefix_rfl)
      rw [hparams, ← hread.parse_eq] at htruth
      have hfilters : filters st.profile same row (s'.params.map (·.value)) t = _ :=
        congrArg Prod.fst htruth
      show filters st.profile same row (s'.params.map (·.value)) t = true ↔ _
      rw [hfilters, List.any_eq_true]
      refine exists_congr fun v => and_congr_right fun hv => ?_
      rw [List.all_eq_true]
      refine forall₂_congr fun k hk => iff_of_eq (congrArg (· = true) ?_)
      exact Column.passedBy_eq hsame (hrow v hv k hk)

/-! ### Lines of orders -/

namespace Sample

/-- Another order item. -/
def otherItem : Value :=
  .named ⟨"main", "OrderItem", none⟩ (.record (orderItem.fields?.getD [])
    [.int .int 7, .int .int 3, .string "y", .int .uint16 1])

/-- The deletion of the rows of order items. -/
def deleteItems (vs : List Value) : Delete := { source := some itemRow, wheres := [], byKey := vs }

/-- Two lines of an order. -/
def twoItems : List Value := [item, .ptr orderItem otherItem]

/-- The row of a line of an order, without a text. -/
def lineRow (order line : Int) (column : Text) : Option Value :=
  if column = ("order_id" : Text) then some (.int .int order)
  else if column = ("line_no" : Text) then some (.int .int line)
  else none

/-- Whether two whole numbers or truth values are equal. -/
def sameNumber : Value → Value → Bool
  | .int _ n, .int _ m => n == m
  | .bool b, .bool b' => b == b'
  | _, _ => false

end Sample

open Sample

theorem delete_filters_iff_key_items :
    (∀ k ∈ orderItems.keys, (Lexicon.readable false).Name k.name) ∧
      ∃ d t, (deleteItems twoItems).compile [] (.standard .sqlite world) = .ok d ∧
        d.text = "DELETE FROM order_items" ++ " WHERE " ++ t ∧
        t = "(order_id = ? AND line_no = ?) OR (order_id = ? AND line_no = ?)" ∧
        filters Dialect.sqlite.profile sameNumber (lineRow 7 3) d.args t = true ∧
        ¬ filters Dialect.sqlite.profile sameNumber (lineRow 7 4) d.args t = true := by
  have hnames : ∀ k ∈ orderItems.keys, (Lexicon.readable false).Name k.name := by
    have h : ∀ k ∈ orderItems.keys, k.name.all isNameByte = true ∧ isReserved k.name = false := by
      decide +kernel
    exact fun k hk => .inr (h k hk)
  have text : statementText? (.delete (deleteItems twoItems)) []
      (.standard .sqlite world) = some ("DELETE FROM order_items WHERE " ++
        "(order_id = ? AND line_no = ?) OR (order_id = ? AND line_no = ?)" : Text) := by
    decide +kernel
  obtain ⟨d, hd, ht⟩ := compile_of_statementText? text
  have hd : (deleteItems twoItems).compile [] (.standard .sqlite world) = .ok d := hd
  have hentity : (Settings.standard .sqlite world).entityOf itemRow.type = .ok orderItems := rfl
  obtain ⟨t, ht', hfilters⟩ :=
    (delete_filters_iff_key rfl hentity rfl hnames hd).2 (by decide +kernel)
  have hsame : ∀ b b', sameNumber (.bool b) (.bool b') = (b == b') := fun _ _ => rfl
  have hkeys : ∀ v ∈ (deleteItems twoItems).byKey, ∀ k ∈ orderItems.keys,
      (k.read v).truth = none := by
    decide +kernel
  have hrow : ∀ row : Text → Option Value, ∀ v ∈ (deleteItems twoItems).byKey,
      ∀ k ∈ orderItems.keys, ∀ b, k.read v = .bool b → ∃ b', row k.name = some (.bool b') := by
    intro row v hv k hk b hb
    have hnone := hkeys v hv k hk
    rw [hb] at hnone
    cases hnone
  refine ⟨hnames, d, t, hd, ht', ?_, (hfilters _ _ hsame (hrow _)).mpr (by decide +kernel),
    fun h => absurd ((hfilters _ _ hsame (hrow _)).mp h) (by decide +kernel)⟩
  rw [ht] at ht'
  exact (List.append_cancel_left ht').symm

/-- **A deletion that is given no entity deletes all rows.** -/
theorem exists_delete_of_all_rows :
    ∃ d, (deleteItems []).compile [] (.standard .sqlServer world) = .ok d ∧
      d.text = "DELETE FROM order_items" := by
  have text : statementText? (.delete (deleteItems [])) [] (.standard .sqlServer world) =
      some ("DELETE FROM order_items" : Text) := by
    decide
  exact compile_of_statementText? text

end QueryTree
