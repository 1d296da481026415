import QueryTree.Proofs.DraftPairs
import QueryTree.Sample.Conditions

/-!
# Bound strings stay out of the text

Two conditions that differ in strings among their constants compile to the same text, with bound
values that differ in these strings alone, as long as every string that differs is bound as a value.
What that takes is `Expr.Binds`; it asks of the tree and of every body that inlining gives

* that an operation in which a string differs refers to a row, where an `Equals` counts as the
  comparison of its two operands,
* that a call in which a string differs has a rule, and
* that no string that differs is the argument of an aggregate function, neither by itself nor behind
  quotes, lambdas and invocations.

Asked of the tree alone, and of the very arguments of aggregate functions, this does not suffice:
`Expr.BindsOnSurface` is that weaker condition, and three pairs of conditions meet it whose texts
differ.

## Main definitions

* `Draft.SameText`: the same text and bound values that vary
* `Expr.BindsOnSurface`: strings are bound as far as the tree itself shows

## Main results

* `compile_sameText`: strings that are bound never reach the text
* `exists_strings_in_text`: strings that are bound on the surface do
-/

namespace QueryTree

/-- The same text, and bound values that differ in strings alone. -/
structure Draft.SameText (D : Text → Text → Prop) (d d' : Draft) : Prop where
  text : d.text = d'.text
  params : List.Forall₂ (Bound.Varies D) d.slate.params d'.slate.params

/-- Within one dialect, conditions that agree have the same text. -/
theorem Pairing.Conditions.eq {P : Pairing} (hP : P.left = P.right) {t t' : Text}
    (h : P.Conditions t t') : t = t' := by
  cases h with
  | same => rfl
  | apart hd => exact absurd hP hd

/-- **Strings that are bound never reach the text**: under every clause that takes a condition, both
compilations fail with the same error, or they give the same text and bound values that differ in
the varying strings alone. -/
theorem compile_sameText {D : Text → Text → Prop} {e e' : Expr} (hv : e.Varies D e')
    (hb : e.Binds e') (st : Settings) {c : Clause} (hc : c.isCondition = true) :
    Outcomes (Draft.SameText D) (Draft.outcome ((Draft.new st).compile e c []))
      (Draft.outcome ((Draft.new st).compile e' c [])) := by
  let P : Pairing := ⟨st.dialect, st.dialect, D⟩
  have hnew : P.Drafts st (.new st) (.new st) := P.drafts_new st
  refine (hnew.compile_condition hc hv hb).mono fun d d' h => ?_
  obtain ⟨t, t', ht, ht', hcond⟩ := h.texts
  refine ⟨?_, h.slates.params⟩
  rw [ht, ht', hcond.eq rfl]

namespace Expr

/-! ### Strings that are bound on the surface -/

/-- The expressions are not different constants. -/
def SameConstant : Expr → Expr → Prop
  | const v _, const w _ => v = w
  | _, _ => True

/-- Strings that vary are bound as values as far as the expression itself shows: an operation refers
to a row, a call has a rule, and no such string is the argument of an aggregate function itself. -/
structure BindsOnSurface (e e' : Expr) : Prop where
  settled : Settled e e'
  ruled : e.hasRule = true
  aggregated : ∀ a ∈ e.aggregated?, ∀ a' ∈ e'.aggregated?, SameConstant a a'

/-- Whether nothing that varies in the expression can escape on the surface. -/
def isBound (e : Expr) : Bool :=
  (!e.isOperation || !e.isClosed) && e.hasRule &&
    e.aggregated?.all fun a => a.kind? != some .constant

theorem bindsOnSurface_of_isBound {e : Expr} (h : e.isBound = true) (e' : Expr) :
    BindsOnSurface e e' := by
  simp only [isBound, Bool.and_eq_true, Bool.or_eq_true, Bool.not_eq_true'] at h
  obtain ⟨⟨hclosed, hrule⟩, hagg⟩ := h
  refine ⟨fun hop => .inr ?_, hrule, fun a ha a' _ => ?_⟩
  · rcases hclosed with h | h
    · rw [hop] at h
      cases h
    · exact h
  · rw [Option.mem_def.mp ha] at hagg
    cases a with
    | const => cases hagg
    | _ => trivial

/-- A tree all of whose expressions are bound, beside any tree of the same size. -/
theorem throughout_of_isBound {e e' : Expr} (hlen : e.walk.length = e'.walk.length)
    (h : e.walk.all isBound = true) : Throughout BindsOnSurface e e' := by
  rw [List.all_eq_true] at h
  rw [Throughout, List.forall₂_iff_get]
  exact ⟨hlen, fun i hi _ => bindsOnSurface_of_isBound (h _ (List.getElem_mem hi)) _⟩

/-- Whether the expression is no `Equals`, no call of an aggregate function and no invocation. -/
def isDirect (e : Expr) : Bool := e.equality?.isNone && e.aggregated?.isNone && e.body?.isNone

/-- Without `Equals`, aggregate functions and invocations the surface tells all. -/
theorem binds_of_surface {e e' : Expr} (h : Throughout BindsOnSurface e e')
    (hdirect : e.walk.all isDirect = true) : Binds e e' := by
  rw [List.all_eq_true] at hdirect
  show Throughout (BindsAt (FixedTo (9999 + 1)) (BindsTo 9999)) e e'
  rw [Throughout, List.forall₂_iff_get] at h ⊢
  refine ⟨h.1, fun i hi hi' => ?_⟩
  have hx := h.2 i hi hi'
  have hi := hdirect _ (List.getElem_mem hi)
  simp only [isDirect, Bool.and_eq_true, Option.isNone_iff_eq_none] at hi
  obtain ⟨⟨hequals, hagg⟩, hbody⟩ := hi
  refine ⟨hx.settled, .inr hx.ruled, ?_, ?_, ?_⟩
  · intro b hb
    simp [hequals] at hb
  · intro a ha
    simp [hagg] at ha
  · intro b hb
    simp [hbody] at hb

end Expr

namespace Sample

/-- The row has one name and not the other, or its name is like the pattern. -/
def namedLike (name other pattern : Text) : Expr :=
  .binary .orElse (.binary .andAlso (hasName name) (.notOf (hasName other)))
    (.callOf (.field customerRow "Name") "Like" [.value (.string pattern)])

end Sample

theorem compile_sameText_namedLike :
    Sample.whereText? (.standard .postgres .empty) (Sample.namedLike "x" "y" "z") =
      some "c.name = $1 AND c.name <> $2 OR c.name LIKE CONCAT('%',$3,'%')" ∧
    Outcomes (Draft.SameText fun _ _ => True)
      (Draft.outcome ((Draft.new (.standard .postgres .empty)).compile
        (Sample.namedLike "x" "y" "z") .where_ []))
      (Draft.outcome ((Draft.new (.standard .postgres .empty)).compile
        (Sample.namedLike "NULL" "' OR 1 = 1 --" "%") .where_ [])) := by
  refine ⟨by decide +kernel, compile_sameText ?_ ?_ _ rfl⟩
  · have named : ∀ a b, (Sample.hasName a).Varies (fun _ _ => True) (Sample.hasName b) := fun a b =>
      .binary (.refl _ _) (.const (.text trivial))
    exact .binary (.binary (named _ _) (.unary (named _ _)))
      (.call (.refl _ _) (.cons (.const (.text trivial)) .nil))
  · refine Expr.binds_of_surface (Expr.throughout_of_isBound (by decide) (by decide)) ?_
    decide +kernel

namespace Sample

/-- The greatest value of a column named by a string is above a limit; the name is what a lambda
returns for the row. -/
def greatestAbove (column : Text) : Expr :=
  .binary .greaterThan
    (.staticOf "Max" [.invoke (.lambda (.value (.string column)) [⟨2, "x", some customer⟩])
      [.param customerRow]])
    (.value (.int .int 5))

/-- Two strings are equal, with a third argument that nothing looks at. -/
def equalsBeside (s : Text) : Expr :=
  .staticOf "Equals" [.value (.string s), .value (.string "x"), .field customerRow "Age"]

/-- A string equals another one that a lambda is applied to. -/
def equalsApplied (s : Text) : Expr :=
  .invoke (.lambda (.binary .equal (.param ⟨2, "y", some .string⟩) (.value (.string s)))
    [⟨2, "y", some .string⟩]) [.value (.string "x")]

end Sample

/-- The texts of two conditions differ in a dialect, though the strings in which the conditions
differ are bound on the surface. -/
structure StringsReachText (e e' : Expr) : Prop where
  varies : e.Varies (fun _ _ => True) e'
  binds : Expr.Throughout Expr.BindsOnSurface e e'
  texts : ∃ t t', Sample.whereText? (.standard .sqlServer .empty) e = some t ∧
    Sample.whereText? (.standard .sqlServer .empty) e' = some t' ∧ t ≠ t'

/-- The surface does not suffice: an invocation hides the name of a column from an aggregate
function, an `Equals` is decided by its two operands alone, and inlining decides a comparison. -/
theorem exists_strings_in_text :
    StringsReachText (Sample.greatestAbove "age") (Sample.greatestAbove "name") ∧
      StringsReachText (Sample.equalsBeside "x") (Sample.equalsBeside "y") ∧
      StringsReachText (Sample.equalsApplied "x") (Sample.equalsApplied "y") := by
  refine ⟨⟨?_, ?_, ?_⟩, ⟨?_, ?_, ?_⟩, ⟨?_, ?_, ?_⟩⟩
  · refine .binary (.call .hole (.cons (.invoke ?_ (.refl _ _)) .nil)) (.refl _ _)
    exact .lambda (.const (.text trivial))
  · exact Expr.throughout_of_isBound (by decide) (by decide)
  · exact ⟨"MAX(age) > @p1", "MAX(name) > @p1", by decide, by decide, by decide⟩
  · exact .call .hole (.cons (.const (.text trivial)) (.refl _ _))
  · exact Expr.throughout_of_isBound (by decide) (by decide)
  · exact ⟨"", "1 = 0", by decide, by decide, by decide⟩
  · exact .invoke (.lambda (.binary (.param _) (.const (.text trivial)))) (.refl _ _)
  · exact Expr.throughout_of_isBound (by decide) (by decide)
  · exact ⟨"", "1 = 0", by decide, by decide, by decide⟩

end QueryTree
