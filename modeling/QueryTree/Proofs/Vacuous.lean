import Mathlib.Data.List.Nodup
import QueryTree.Proofs.Outline

/-!
# Conditions that always hold

Truth is the absence of text: a condition that is true for every row emits nothing. Such conditions
are literals, conditions without rows that have a value, and absence from an empty list.

A literal is seen before anything is compiled, and a disjunction with a true one emits nothing. All
other conditions of this kind are only seen by what they emit, and an operand that emits nothing
drops out of a disjunction as it drops out of a conjunction. The disjunction then filters rows that
it should not.

## Main definitions

* `Expr.constant?`: what a condition says that is the same for every row
* `Expr.truthOf`: what a condition says in terms of its tests
* `Expr.outline?`: the outline of a condition that is compiled in a state

## Main results

* `Expr.outline?_of_yields`: a condition compiles to the text of its outline
* `text_tells_truth_iff`: when the text of a condition says what the condition says
-/

namespace QueryTree

open Sql Emit

namespace Expr

variable {st : Settings} {c : Clause} {e l r : Expr} {s s' : Slate} {t : Text}

/-! ### Constants -/

/-- The truth value of a condition without rows, if it has one. -/
def closedValue? (pre : Prelude) (e : Expr) : Option Bool :=
  if e.isClosed then (e.eval pre).toOption.bind Value.truth else none

/-- The truth of membership in an empty list. -/
def emptyMembership? : Expr → Option Bool
  | call receiver method args _ _ =>
    match Intrinsic.ofName? method, besideTarget receiver args with
    | some (.membership isNegated), x :: _ => if x.isEmptyList then some isNegated else none
    | _, _ => none
  | _ => none

/-- What a condition says that is the same for every row; one that is not given always holds. -/
def constant? (pre : Prelude) (e : Expr) : Option Bool :=
  if e.isHole then some true else e.literalTruth? <|> e.closedValue? pre <|> e.emptyMembership?

theorem closedValue?_of_folded? {b : Bool} (h : e.folded? st.pre = .ok (some (.bool b))) :
    e.closedValue? st.pre = some b := by
  unfold folded? at h
  split at h
  · rename_i hclosed
    rw [Bool.and_eq_true] at hclosed
    split at h
    · rename_i v hv
      cases h
      rw [closedValue?, hclosed.2, hv]
      rfl
    · cases h
    · cases h
  · cases h

/-- A condition without a truth value is compiled by its own rule. -/
theorem yields_own {own : Emit Text} (he : e.closedValue? st.pre = none)
    (h : Yields (folding st e (constantCondition · c) own) s t s') : Yields own s t s' := by
  rcases yields_folding.mp h with ⟨v, hv, hy⟩ | ⟨-, hy⟩
  · obtain ⟨b, rfl, -⟩ := yields_constantCondition.mp hy
    rw [closedValue?_of_folded? hv] at he
    cases he
  · exact hy

theorem yields_of_closedValue? {b : Bool} (hb : e.closedValue? st.pre = some b)
    (h : Yields ((e.render st).condition c) s t s') : t = (Outline.constant b).text ∧ s' = s := by
  unfold closedValue? at hb
  split at hb
  · rename_i hclosed
    obtain ⟨v, hv, htruth⟩ := Option.bind_eq_some_iff.mp hb
    have heval : e.eval st.pre = .ok v := by
      cases he : e.eval st.pre with
      | error => rw [he] at hv; cases hv
      | ok w => rw [he] at hv; cases hv; rfl
    obtain rfl := eq_bool_of_truth htruth
    obtain ⟨_, hb', rfl, rfl⟩ :=
      yields_constantCondition.mp ((constantCondition_of_eval e hclosed h).2 _ heval)
    cases hb'
    exact ⟨rfl, rfl⟩
  · cases hb

theorem yields_of_emptyMembership? {b : Bool} (hc : c.isCondition = true)
    (hb : e.emptyMembership? = some b) (he : e.closedValue? st.pre = none)
    (h : Yields ((e.render st).condition c) s t s') : t = (Outline.constant b).text ∧ s' = s := by
  cases e with
  | call receiver method args type callee =>
    rw [condition_call] at h
    have hy := yields_own he h
    rw [emptyMembership?] at hb
    split at hb
    · rename_i isNegated x xs hrule hargs
      split at hb
      · rename_i hempty
        cases hb
        have hy := Rendering.yields_of_emitCall hrule rfl hy
        rw [operands_render, hargs, List.map_cons, Rendering.intrinsic, Rendering.membership,
          render_expr, if_pos hempty, yields_pure] at hy
        obtain ⟨rfl, rfl⟩ := hy
        cases b <;> simp [Outline.text, never, hc]
      · cases hb
    · cases hb
  | _ => cases hb

/-- A condition that says the same for every row emits nothing if it holds. -/
theorem yields_of_constant? {b : Bool} (hc : c.isCondition = true)
    (hb : e.constant? st.pre = some b) (h : Yields ((e.render st).condition c) s t s') :
    t = (Outline.constant b).text ∧ s' = s := by
  unfold constant? at hb
  split at hb
  · cases e with
    | hole =>
      have hy : Yields (Emit.unsupported hole c) s t s' := h
      exact absurd hy not_yields_unsupported
    | _ => contradiction
  · cases hl : e.literalTruth? with
    | some x =>
      rw [hl] at hb
      cases hb
      exact yields_literal hl h
    | none =>
      cases hv : e.closedValue? st.pre with
      | some x =>
        rw [hl, hv] at hb
        cases hb
        exact yields_of_closedValue? hv h
      | none =>
        rw [hl, hv] at hb
        exact yields_of_emptyMembership? hc hb hv h

/-! ### The outline of a condition -/

/-- What a condition says in terms of its tests, of which `w` says which hold. -/
def truthOf (pre : Prelude) (w : Expr → Bool) (e : Expr) : Bool :=
  match e.constant? pre with
  | some b => b
  | none =>
    match e with
    | binary op l r =>
      if !op.isLogical then w (binary op l r)
      else if op.isOr then l.truthOf pre w || r.truthOf pre w
      else l.truthOf pre w && r.truthOf pre w
    | e => w e

/-- The outline of a test that is compiled in a state, and the state that it leaves. -/
def testOutline? (st : Settings) (c : Clause) (e : Expr) (s : Slate) : Option (Outline × Slate) :=
  match result ((e.render st).condition c) s with
  | (.ok t, s') => some (.test e t, s')
  | (.error _, _) => none

/-- The outline of a condition that is compiled in a state, and the state that it leaves. A
disjunction with a true literal holds at once, and a true literal on the left of a conjunction is
left out. -/
def outline? (st : Settings) (c : Clause) (e : Expr) (s : Slate) : Option (Outline × Slate) :=
  match e.constant? st.pre with
  | some b => some (.constant b, s)
  | none =>
    match e with
    | binary op l r =>
      let leftTrue := l.literalTruth? = some true
      let rightTrue := r.literalTruth? = some true
      if !op.isLogical then testOutline? st c (binary op l r) s
      else if op.isOr && (leftTrue || rightTrue) then some (.constant true, s)
      else if !op.isOr && leftTrue then r.outline? st c s
      else do
        let (k, s₁) ← l.outline? st c s
        let (k', s₂) ← r.outline? st c s₁
        return (.joined op.isOr l.needsParens r.needsParens k k', s₂)
    | e => testOutline? st c e s

theorem testOutline?_of_yields (h : Yields ((e.render st).condition c) s t s') :
    e.testOutline? st c s = some (.test e t, s') := by
  rw [testOutline?, h]

theorem constant?_of_literalTruth? {b : Bool} {pre : Prelude} (h : e.literalTruth? = some b) :
    e.constant? pre = some b := by
  cases e with
  | hole => cases h
  | _ => rw [constant?, h]; rfl

theorem truthOf_of_constant? {b : Bool} {pre : Prelude} {w : Expr → Bool}
    (h : e.constant? pre = some b) : e.truthOf pre w = b := by
  rw [truthOf.eq_def, h]

theorem truth_testOutline? {k : Outline} {w : Expr → Bool}
    (h : e.testOutline? st c s = some (k, s')) : k.truth (fun x _ => w x) = w e := by
  unfold testOutline? at h
  split at h
  · cases h
    rfl
  · cases h

theorem truthOf_of_literalTruth? {b : Bool} {pre : Prelude} {w : Expr → Bool}
    (h : e.literalTruth? = some b) : e.truthOf pre w = b :=
  truthOf_of_constant? (constant?_of_literalTruth? h)

/-- **The outline of a condition says what the condition says.** -/
theorem truth_outline? (e : Expr) {k : Outline} {s s' : Slate} (w : Expr → Bool)
    (h : e.outline? st c s = some (k, s')) : k.truth (fun x _ => w x) = e.truthOf st.pre w := by
  rw [outline?.eq_def] at h
  rw [truthOf.eq_def]
  cases hconstant : e.constant? st.pre with
  | some b =>
    rw [hconstant] at h
    cases h
    rfl
  | none =>
    rw [hconstant] at h
    cases e with
    | binary op l r =>
      cases hop : op.isLogical with
      | false =>
        simp only [hop] at h ⊢
        exact truth_testOutline? h
      | true =>
        simp only [hop, Bool.not_true, Bool.false_eq_true, if_false] at h ⊢
        split at h
        · -- a true literal decides the disjunction
          rename_i htrue
          cases h
          simp only [Bool.and_eq_true, Bool.or_eq_true, decide_eq_true_eq] at htrue
          obtain ⟨hor, hl | hr⟩ := htrue
          · rw [if_pos hor, truthOf_of_literalTruth? hl]
            rfl
          · rw [if_pos hor, truthOf_of_literalTruth? hr, Bool.or_true]
            rfl
        · split at h
          · -- a true literal drops out of the conjunction
            rename_i htrue
            simp only [Bool.and_eq_true, Bool.not_eq_eq_eq_not, Bool.not_true,
              decide_eq_true_eq] at htrue
            rw [htrue.1, truthOf_of_literalTruth? htrue.2]
            exact truth_outline? r w h
          · simp only [Option.bind_eq_bind, Option.bind_eq_some_iff, Option.pure_def,
              Option.some.injEq, Prod.exists, Prod.mk.injEq] at h
            obtain ⟨kl, s₁, hl, kr, s₂, hr, rfl, rfl⟩ := h
            rw [Outline.truth, truth_outline? l w hl, truth_outline? r w hr]
    | _ => exact truth_testOutline? h

theorem closedValue?_of_constant? {pre : Prelude} (h : e.constant? pre = none) :
    e.closedValue? pre = none := by
  unfold constant? at h
  split at h
  · cases h
  · simp only [Option.orElse_eq_orElse, Option.orElse_eq_or, Option.or_eq_none_iff] at h
    exact h.2.1

/-- What a condition joined by a logical operator is compiled to. -/
theorem yields_logical {op : BinaryOp} (hop : op.isLogical = true)
    (hconstant : (binary op l r).constant? st.pre = none)
    (h : Yields (((binary op l r).render st).condition c) s t s') :
    Yields (Rendering.logical op (l.render st) (r.render st) c) s t s' := by
  rw [condition_binary] at h
  have hy := yields_own (closedValue?_of_constant? hconstant) h
  rwa [Rendering.binaryCondition, if_pos hop] at hy

/-- **A condition compiles to the text of its outline.** -/
theorem outline?_of_yields (e : Expr) {s s' : Slate} {t : Text} (hc : c.isCondition = true)
    (he : e.Named st (.readable st.quoted)) (hs : s.aliases.Within (.readable st.quoted))
    (h : Yields ((e.render st).condition c) s t s') :
    ∃ k, e.outline? st c s = some (k, s') ∧ k.text = t ∧ k.Legible := by
  have test : e.testOutline? st c s = some (.test e t, s') ∧ (Outline.test e t).Legible := by
    refine ⟨testOutline?_of_yields h, fun x hx => ?_⟩
    obtain rfl := List.mem_singleton.mp hx
    exact Draft.isLegible_of_yields he hs (.inr h)
  rw [outline?.eq_def]
  cases hconstant : e.constant? st.pre with
  | some b =>
    obtain ⟨rfl, rfl⟩ := yields_of_constant? hc hconstant h
    exact ⟨_, rfl, rfl, fun _ hx => absurd hx List.not_mem_nil⟩
  | none =>
    cases e with
    | binary op l r =>
      cases hop : op.isLogical with
      | false =>
        simp only [hop]
        exact ⟨_, test.1, rfl, test.2⟩
      | true =>
        have hy := yields_logical hop hconstant h
        simp only [Rendering.logical, render_expr] at hy
        simp only [hop, Bool.not_true, Bool.false_eq_true, if_false]
        split at hy
        · rename_i htrue
          obtain ⟨rfl, rfl⟩ := yields_pure.mp hy
          rw [if_pos htrue]
          exact ⟨_, rfl, rfl, fun _ hx => absurd hx List.not_mem_nil⟩
        · rename_i htrue
          rw [if_neg htrue]
          split at hy
          · rename_i hleft
            rw [if_pos hleft]
            exact outline?_of_yields r hc he.2 hs hy
          · rename_i hleft
            rw [if_neg hleft]
            rw [logical_token hop] at hy
            simp only [yields_joined, yields_groupedCondition] at hy
            obtain ⟨_, s₁, _, ⟨a, ha, rfl⟩, ⟨b, hb, rfl⟩, rfl⟩ := hy
            have hs₁ := ((lawful_render he.1).condition c _ a s₁ hs ha).1
            obtain ⟨k, hk, rfl, hlegible⟩ := outline?_of_yields l hc he.1 hs ha
            obtain ⟨k', hk', rfl, hlegible'⟩ := outline?_of_yields r hc he.2 hs₁ hb
            refine ⟨.joined op.isOr l.needsParens r.needsParens k k', by simp [hk, hk'], ?_, ?_⟩
            · cases op.isOr <;> rfl
            · exact fun x hx => (List.mem_append.mp hx).elim (hlegible x) (hlegible' x)
    | _ => exact ⟨_, test.1, rfl, test.2⟩

end Expr

/-! ### Texts that tell the truth -/

namespace Outline

/-- The tests hold as their texts say. -/
def Follows (k : Outline) (v : Text → Bool) (w : Expr → Bool) : Prop :=
  ∀ x ∈ k.tests, w x.1 = holds v x.2

/-- If no test stands twice, the tests can hold as their texts say. -/
theorem exists_follows {k : Outline} (h : (k.tests.map Prod.fst).Nodup) (v : Text → Bool) :
    ∃ w, k.Follows v w := by
  classical
  refine ⟨fun e => decide (∃ x ∈ k.tests, x.1 = e ∧ holds v x.2 = true), fun x hx => ?_⟩
  rw [Bool.eq_iff_iff, decide_eq_true_eq]
  constructor
  · rintro ⟨y, hy, hxy, hholds⟩
    rwa [List.inj_on_of_nodup_map h hy hx hxy] at hholds
  · exact fun hholds => ⟨x, hx, rfl, hholds⟩

end Outline

/-- **When the text of a condition says what the condition says.** The text is that of the outline.
If the outline is sound, the text holds exactly where the condition does, whatever the tests say. If
it is not, though no test and no atom stands twice and no constant is false, there are truth values
for which the two differ. -/
theorem text_tells_truth_iff (st : Settings) (e : Expr) (d : Draft)
    (he : e.Named st (.readable st.quoted))
    (h : (Draft.new st).compile e .where_ [] = (d, .ok ())) :
    ∃ k s, e.outline? st .where_ .empty = some (k, s) ∧ d.text = k.text ∧
      (k.isSound = true → ∀ v w, v never = false → k.Follows v w →
        Sql.holds v d.text = e.truthOf st.pre w) ∧
      (k.isSound = false → k.Distinct → (k.tests.map Prod.fst).Nodup →
        ∃ v w, v never = false ∧ k.Follows v w ∧
          Sql.holds v d.text = !e.truthOf st.pre w) := by
  obtain ⟨k, s, hk, htext, hlegible⟩ : ∃ k s, e.outline? st .where_ .empty = some (k, s) ∧
      d.text = k.text ∧ k.Legible := by
    obtain ⟨t, s, rfl, ⟨hhole, rfl, -⟩ | hy⟩ := Draft.compile_condition rfl h
    · cases e with
      | hole => exact ⟨.constant true, .empty, rfl, rfl, nofun⟩
      | _ => cases hhole
    · obtain ⟨k, hk, rfl, hlegible⟩ :=
        Expr.outline?_of_yields e rfl he (AliasTable.within_empty _) hy
      exact ⟨k, s, hk, rfl, hlegible⟩
  have htruth : ∀ v w, k.Follows v w → e.truthOf st.pre w = k.truth fun _ => holds v := by
    intro v w hw
    rw [← Expr.truth_outline? e w hk]
    exact Outline.truth_congr hw
  refine ⟨k, s, hk, htext, fun hsound v w hv hw => ?_, fun hsound hd hn => ?_⟩
  · rw [htext, htruth v w hw, Outline.holds_text hlegible hsound hv]
  · have hnot : ¬ k.Agrees := fun hagrees => by
      rw [Outline.isSound_of_agrees hlegible hd hagrees] at hsound
      cases hsound
    simp only [Outline.Agrees, not_forall] at hnot
    obtain ⟨v, hv, hne⟩ := hnot
    obtain ⟨w, hw⟩ := Outline.exists_follows hn v
    refine ⟨v, w, hv, hw, ?_⟩
    rw [htext, htruth v w hw]
    exact Bool.eq_not_of_ne hne

namespace Sample

/-- The age of the row is absent from the empty list. -/
def absence : Expr := .notInTest (.field customerRow "Age") []

/-- An absence from nothing, and the age, or a comparison of two constants and the name. -/
def ageOrName : Expr :=
  .binary .and absence (.binary .or (hasAge 1)
    (.binary .and (.binary .equal (.value (.int .int 1)) (.value (.int .int 1))) (hasName "x")))

/-- The outline of `ageOrName`. -/
def ageOrNameOutline : Outline :=
  .joined false false true (.constant true) (.joined true false true
    (.test (hasAge 1) "c.age = @p1")
    (.joined false false false (.constant true) (.test (hasName "x") "c.name = @p2")))

theorem ageOrName_named (d : Dialect) : ageOrName.Named (.standard d world) (.readable false) := by
  have row := customerRow_readable d
  exact ⟨⟨trivial, ⟨row, trivial, trivial⟩, nofun⟩,
    ⟨row, trivial⟩, ⟨trivial, trivial⟩, row, trivial⟩

end Sample

open Sample

theorem text_tells_truth_iff_ageOrName :
    ∃ d, (Draft.new (.standard .sqlServer world)).compile ageOrName .where_ [] = (d, .ok ()) ∧
      d.text = "(c.age = @p1 OR (c.name = @p2))" ∧
      ∀ (v : Text → Bool) (w : Expr → Bool), v never = false → w (hasAge 1) = v "c.age = @p1" →
        w (hasName "x") = v "c.name = @p2" →
        Sql.holds v d.text = (w (hasAge 1) || w (hasName "x")) := by
  have htext : whereText? (.standard .sqlServer world) ageOrName =
      some "(c.age = @p1 OR (c.name = @p2))" := by
    decide +kernel
  obtain ⟨d, hd, ht⟩ := compile_of_whereText? htext
  obtain ⟨k, s, hk, -, hsound, -⟩ := text_tells_truth_iff (.standard .sqlServer world) ageOrName d
    (ageOrName_named .sqlServer) hd
  have hoption : (ageOrName.outline? (.standard .sqlServer world) .where_ .empty).map Prod.fst =
      some ageOrNameOutline := rfl
  rw [hk] at hoption
  cases hoption
  have hread : ∀ t ∈ (["c.age = @p1", "c.name = @p2"] : List Text), read t = .atom t := by
    decide +kernel
  refine ⟨d, hd, ht, fun v w hv hage hname => ?_⟩
  have htruth : ageOrName.truthOf world w = (w (hasAge 1) || w (hasName "x")) := rfl
  rw [← htruth]
  refine hsound (by decide +kernel) v w hv fun x hx => ?_
  have hx : x = (hasAge 1, ("c.age = @p1" : Text)) ∨
      x = (hasName "x", ("c.name = @p2" : Text)) := by
    simpa [ageOrNameOutline, Outline.tests] using hx
  rcases hx with rfl | rfl
  · rw [hage, Sql.holds, hread _ (by decide +kernel)]
    rfl
  · rw [hname, Sql.holds, hread _ (by decide +kernel)]
    rfl

/-- **A disjunction that filters though it always holds**: the absence from an empty list emits
nothing, and the comparison of the age is left. -/
theorem exists_filtering_disjunction :
    ∃ d, (Draft.new (.standard .sqlServer world)).compile (.binary .or (hasAge 1) absence)
        .where_ [] = (d, .ok ()) ∧
      (∀ w, (Expr.binary .or (hasAge 1) absence).truthOf world w = true) ∧
      ∃ v, v never = false ∧ Sql.holds v d.text = false := by
  have htext : whereText? (.standard .sqlServer world) (.binary .or (hasAge 1) absence) =
      some "c.age = @p1" := by
    decide +kernel
  obtain ⟨d, hd, ht⟩ := compile_of_whereText? htext
  refine ⟨d, hd, fun w => ?_, fun _ => false, rfl, ?_⟩
  · show (w (hasAge 1) || true) = true
    exact Bool.or_true _
  · rw [ht]
    decide +kernel

end QueryTree
