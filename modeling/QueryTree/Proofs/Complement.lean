import QueryTree.Proofs.Closed
import QueryTree.Proofs.Readable
import QueryTree.Proofs.StatementMarks

/-!
# Complements

The negation of a condition is compiled by negating its text token by token. Where no level of the
text mixes `AND` and `OR`, the result is the complement: it holds exactly where the condition does
not. Where a level mixes them, swapping the operators also swaps which of them binds tighter, and
the result is not the complement: if no atom stands twice, there are truth values that make the
condition and its negation true.

## Main results

* `Expr.yields_notOf`: what the negation of a condition is compiled to
* `negation_complements_iff`: when the negation of a condition is its complement
-/

namespace QueryTree

open Sql Emit

namespace Sql.Formula

variable {f : Formula} {v : Text → Bool}

theorem holds_swapped (h : f.Unmixed) (hv : ∀ a ∈ f.atoms, v (negate a) = !v a) :
    f.swapped.holds v = !f.holds v := by
  rw [swapped, holds_map, ← holds_dual h]
  refine holds_congr fun a ha => ?_
  rw [atoms_dual] at ha
  exact hv a ha

theorem exists_holds_swapped (hf : f.Legible) (hn : (f.atoms ++ f.atoms.map negate).Nodup)
    (h : ¬ f.Unmixed) : ∃ v : Text → Bool, (∀ a ∈ f.atoms, v (negate a) = !v a) ∧
      f.holds v = true ∧ f.swapped.holds v = true := by
  obtain ⟨hnf, -, hdisjoint⟩ := List.nodup_append.mp hn
  obtain ⟨v, hv, hd⟩ := exists_holds_dual hf.canonical hnf h
  obtain ⟨u, huf, hun⟩ := exists_agree hdisjoint v fun a => !v (negate a)
  have hcomplement : ∀ a ∈ f.atoms, u (negate a) = !v a := fun a ha => by
    rw [hun _ (List.mem_map_of_mem ha), (hf.atomic a ha).negate_negate]
  refine ⟨u, fun a ha => by rw [hcomplement a ha, huf a ha], ?_, ?_⟩
  · rw [holds_congr huf, hv]
  · rw [swapped, holds_map, ← hd]
    refine holds_congr fun a ha => ?_
    rw [atoms_dual] at ha
    exact hcomplement a ha

end Sql.Formula

/-! ### The negation of a condition -/

namespace Expr

/-- What the negation of a condition is compiled to that does not fold. -/
theorem yields_notOf_of_folded? {e : Expr} {st : Settings} {c : Clause} {s s' : Slate} {t : Text}
    (hf : e.notOf.folded? st.pre = .ok none) (h : Yields ((e.render st).condition c) s t s') :
    Yields ((e.notOf.render st).condition c) s
      (if t.isEmpty then "1 = 0" else negate (parenthesised e.isLogical t)) s' := by
  have hrender : (e.notOf.render st).condition c = Emit.folding st
      (.unary .not (e.render st).expr (some .bool)) (Emit.constantCondition · c)
      ((e.render st).negatable true c) := rfl
  rw [hrender, render_expr, yields_folding]
  refine .inr ⟨hf, ?_⟩
  rw [Rendering.negatable, render_expr, yields_negated]
  refine ⟨_, yields_groupedCondition.mpr ⟨t, h, rfl⟩, ?_⟩
  cases t with
  | nil => simp [parenthesised]
  | cons b t => cases e.isLogical <;> simp [parenthesised]

/-- What the negation of a condition is compiled to. -/
theorem yields_notOf {e : Expr} {st : Settings} {c : Clause} {s s' : Slate} {t : Text}
    (hc : e.isClosed = false) (h : Yields ((e.render st).condition c) s t s') :
    Yields ((e.notOf.render st).condition c) s
      (if t.isEmpty then "1 = 0" else negate (parenthesised e.isLogical t)) s' :=
  yields_notOf_of_folded? (folded?_of_not_isClosed (by rw [notOf, isClosed_unary, hc]) st.pre) h

end Expr

/-- The atoms of two condition texts correspond, each atom of `n` to the complement of one of
`t`. -/
def Sql.Opposed (t n : Text) : Prop :=
  (read n).atoms = (read t).atoms.map negate ∧
    ∀ a ∈ (read t).atoms, Complementary a (negate a)

/-- The truth values respect that the negation of an atom of `t` is its complement. -/
def Sql.Respects (v : Text → Bool) (t : Text) : Prop :=
  ∀ a ∈ (read t).atoms, v (negate a) = !v a

/-- Negating the text of a formula, also one in parentheses. -/
theorem Sql.negate_parenthesised {f : Formula} (hf : f.Legible) (parens : Bool) :
    negate (parenthesised parens f.text) = (f.grouped parens).swapped.text ∧
      ∀ v, (f.grouped parens).swapped.holds v = f.swapped.holds v := by
  rw [← hf.text_grouped, negate_text (hf.grouped parens)]
  refine ⟨rfl, fun v => ?_⟩
  cases parens <;> rfl

/-- **When the negation of a condition is its complement.** It always compiles, and its atoms are
those of the condition with the complementary operators. If no level of the condition mixes `AND`
and `OR`, it holds exactly where the condition does not. If one does and no atom stands twice, there
are truth values for which both hold. -/
theorem negation_complements_iff (st : Settings) (e : Expr) (d : Draft) (hc : e.isClosed = false)
    (he : e.Named st (.readable st.quoted))
    (h : (Draft.new st).compile e .where_ [] = (d, .ok ())) :
    ∃ d', (Draft.new st).compile e.notOf .where_ [] = (d', .ok ()) ∧
      (d.text = [] → d'.text = "1 = 0") ∧
      (d.text ≠ [] → Opposed d.text d'.text ∧
        ((read d.text).Unmixed → ∀ v, Respects v d.text →
          Sql.holds v d'.text = !Sql.holds v d.text) ∧
        (¬ (read d.text).Unmixed → ((read d.text).atoms ++ (read d'.text).atoms).Nodup →
          ∃ v, Respects v d.text ∧ Sql.holds v d.text = true ∧ Sql.holds v d'.text = true)) := by
  obtain ⟨t, s, rfl, ⟨hhole, -⟩ | hy⟩ := Draft.compile_condition rfl h
  · rw [Expr.isHole_of_not_isClosed hc] at hhole
    cases hhole
  refine ⟨_, Draft.compile_of_yields rfl rfl (Expr.yields_notOf hc hy), ?_, ?_⟩
  · rintro (rfl : t = [])
    rfl
  · rintro (ht : t ≠ [])
    obtain ⟨f, hf, rfl⟩ := Expr.legible_of_yields he (AliasTable.within_empty _) hy ht
    obtain ⟨hn, hholds⟩ := negate_parenthesised hf e.isLogical
    have hg := (hf.grouped e.isLogical).swapped
    have hne : f.text.isEmpty = false := by simpa using ht
    simp only [Draft.new, List.nil_append, hne, Bool.false_eq_true, if_false, hn, Opposed, Respects,
      read_text hf, read_text hg, holds_text hf, holds_text hg, hholds, Formula.atoms_swapped,
      Formula.atoms_grouped]
    exact ⟨⟨trivial, fun a ha => (hf.atomic a ha).complementary⟩,
      fun hu v hv => Formula.holds_swapped hu hv,
      fun hu hnodup => Formula.exists_holds_swapped hf hnodup hu⟩

/-! ### A condition with a mixed level -/

/-- An age and being active, or else a name. -/
def Sample.activeOrNamed : Expr :=
  .binary .or (.binary .and (Sample.hasAge 1) Sample.isActive) (Sample.hasName "x")

theorem Sample.activeOrNamed_named (d : Dialect) :
    activeOrNamed.Named (.standard d world) (.readable false) :=
  have row := customerRow_readable d
  ⟨⟨⟨row, trivial⟩, row⟩, row, trivial⟩

theorem Sample.whereText?_activeOrNamed : whereText? (.standard .sqlServer world) activeOrNamed =
    some ("c.age = @p1 AND c.active = 1 OR c.name = @p2" : Text) := by
  decide +kernel

theorem Sample.whereText?_notOf_activeOrNamed :
    whereText? (.standard .sqlServer world) activeOrNamed.notOf =
      some ("(c.age <> @p1 OR c.active <> 1 AND c.name <> @p2)" : Text) := by
  decide +kernel

open Sample

theorem negation_complements_iff_activeOrNamed :
    ∃ d d', (Draft.new (.standard .sqlServer world)).compile activeOrNamed .where_ [] =
        (d, .ok ()) ∧
      (Draft.new (.standard .sqlServer world)).compile activeOrNamed.notOf .where_ [] =
        (d', .ok ()) ∧
      ∃ v, Respects v d.text ∧ Sql.holds v d.text = true ∧ Sql.holds v d'.text = true := by
  obtain ⟨d, hd, ht⟩ := compile_of_whereText? whereText?_activeOrNamed
  obtain ⟨n, hn, hnt⟩ := compile_of_whereText? whereText?_notOf_activeOrNamed
  obtain ⟨d', hd', -, h⟩ := negation_complements_iff (.standard .sqlServer world) activeOrNamed
    d (by decide +kernel) (activeOrNamed_named .sqlServer) hd
  rw [hn] at hd'
  cases hd'
  rw [ht, hnt] at h
  obtain ⟨-, -, hmixed⟩ := h (by decide +kernel)
  refine ⟨d, n, hd, hn, ?_⟩
  rw [ht, hnt]
  exact hmixed (by decide +kernel) (by decide +kernel)

/-- **A condition and its negation that hold together**: the row has another age and the name. -/
theorem exists_negation_not_complement :
    ∃ d d', (Draft.new (.standard .sqlServer world)).compile activeOrNamed .where_ [] =
        (d, .ok ()) ∧
      (Draft.new (.standard .sqlServer world)).compile activeOrNamed.notOf .where_ [] =
        (d', .ok ()) ∧
      ∃ v, v "c.age = @p1" = false ∧ v "c.name = @p2" = true ∧ Respects v d.text ∧
        Sql.holds v d.text = true ∧ Sql.holds v d'.text = true := by
  obtain ⟨d, hd, ht⟩ := compile_of_whereText? whereText?_activeOrNamed
  obtain ⟨n, hn, hnt⟩ := compile_of_whereText? whereText?_notOf_activeOrNamed
  refine ⟨d, n, hd, hn, ?_⟩
  rw [ht, hnt]
  refine ⟨fun a => a ∈ (["c.name = @p2", "c.age <> @p1", "c.active <> 1"] : List Text), ?_⟩
  unfold Respects
  decide +kernel

end QueryTree
