import QueryTree.Proofs.Closed
import QueryTree.Proofs.Readable
import QueryTree.Proofs.StatementMarks

/-!
# Conjunctions

The conditions of a statement are joined from the left by `AND`. Whether an operand is put in
parentheses is decided by its kind and by that of its operands, not by its text, so an operand with
a bare `OR` may stand beside an `AND`. Such a join is no conjunction: the `AND` takes only the
nearest disjunct. `Sql.isApart` says that a join has no such operand.

The own text of a condition is what it compiles to after the conjunction of the conditions before
it, so that its placeholders have the numbers that they have in the conjunction.

## Main definitions

* `Draft.ownTexts?`: the own texts of conditions
* `Draft.isSeparate`: no bare `OR` stands beside an `AND` that joins the conditions
* `Draft.Conjoins`: what a text says about the own texts of the conditions it was joined from

## Main results

* `Expr.joins_andAlso`: what two conditions joined by `AND` compile to
* `Draft.exists_conjoins`: what the conjunction of conditions says
-/

namespace QueryTree

open Sql Emit

namespace Sql

/-! ### Texts of conditions -/

/-- The atoms of a condition; one that always holds has none. -/
def atoms (t : Text) : List Text := if t.isEmpty then [] else (read t).atoms

/-- The text is that of a legible formula, or of a condition that always holds. -/
def IsLegible (t : Text) : Prop := t = [] ∨ ∃ f : Formula, f.Legible ∧ f.text = t

variable {a b t : Text} {v w : Text → Bool}

theorem atoms_text {f : Formula} (hf : f.Legible) : atoms f.text = f.atoms := by
  have hne : f.text.isEmpty = false := by simpa using Formula.text_ne_nil hf.atomic
  rw [atoms, hne, read_text hf]
  rfl

theorem holds_congr (h : ∀ a ∈ atoms t, v a = w a) : holds v t = holds w t := by
  unfold atoms at h
  unfold holds
  split at h
  · rename_i he
    rw [he, Bool.true_or, Bool.true_or]
  · rw [Formula.holds_congr h]

theorem holds_of_forall (h : ∀ a ∈ atoms t, v a = true) : holds v t = true := by
  unfold atoms at h
  unfold holds
  split at h
  · rename_i he
    rw [he, Bool.true_or]
  · rw [Formula.holds_eq_of_forall h, Bool.or_true]

theorem not_holds_of_forall (ht : t ≠ []) (h : ∀ a ∈ atoms t, v a = false) :
    holds v t = false := by
  have hne : t.isEmpty = false := by simpa using ht
  rw [atoms, hne] at h
  rw [holds, hne, Bool.false_or]
  exact Formula.holds_eq_of_forall h

theorem parenthesised_nil (parens : Bool) : parenthesised parens [] = [] := by
  cases parens <;> rfl

theorem IsLegible.parenthesised (h : IsLegible t) (parens : Bool) :
    IsLegible (parenthesised parens t) ∧ atoms (parenthesised parens t) = atoms t ∧
      ∀ v, holds v (parenthesised parens t) = holds v t := by
  rcases h with rfl | ⟨f, hf, rfl⟩
  · rw [parenthesised_nil]
    exact ⟨.inl rfl, rfl, fun _ => rfl⟩
  · rw [← hf.text_grouped, atoms_text (hf.grouped parens), atoms_text hf, Formula.atoms_grouped]
    refine ⟨.inr ⟨_, hf.grouped parens, rfl⟩, rfl, fun v => ?_⟩
    rw [holds_text (hf.grouped parens), holds_text hf, Formula.holds_grouped]

/-! ### Two conditions joined by `AND` -/

/-- A condition that never holds. -/
def never : Text := "1 = 0"

/-- An operand whose text has a bare `OR`. -/
def isExposed (parens : Bool) (t : Text) : Bool := !parens && (read t).isOr

/-- If both operands of an `AND` have a text, none of them has a bare `OR`. -/
def isApart (p q : Bool) (a b : Text) : Bool :=
  a.isEmpty || b.isEmpty || !(isExposed p a || isExposed q b)

/-- What two conditions with the texts `a` and `b` compile to when they are joined by `AND`: one of
them if the other always holds, the formulas joined as they are, or that the first never holds. -/
inductive Joins (p q : Bool) : Text → Text → Text → Prop
  | left {a : Text} (ha : IsLegible a) (parens : Bool) : Joins p q a [] (parenthesised parens a)
  | right {b : Text} (hb : IsLegible b) (parens : Bool) : Joins p q [] b (parenthesised parens b)
  | refuted (b : Text) : Joins p q never b never
  | both {f g : Formula} (hf : f.Legible) (hg : g.Legible) :
    Joins p q f.text g.text (Formula.conj (f.grouped p) (g.grouped q)).text

theorem legible_never : (Formula.atom never).Legible :=
  legible_atom ⟨"1", " = ", "0", by decide, valued_valueWord (by decide),
    valued_valueWord (by decide), rfl⟩

theorem atoms_never : atoms never = [never] := atoms_text legible_never

theorem holds_never : holds v never = v never := holds_text legible_never v

/-- Two texts joined by `AND`, or the one that is not empty. -/
def joinedByAnd (a b : Text) : Text := if a.isEmpty || b.isEmpty then a ++ b else a ++ " AND " ++ b

namespace Joins

variable {p q : Bool}

theorem joined (ha : IsLegible a) (hb : IsLegible b) :
    Joins p q a b (joinedByAnd (parenthesised p a) (parenthesised q b)) := by
  rcases ha with rfl | ⟨f, hf, rfl⟩
  · simpa [joinedByAnd, parenthesised_nil] using Joins.right (p := p) (q := q) hb q
  rcases hb with rfl | ⟨g, hg, rfl⟩
  · have ha : IsLegible f.text := .inr ⟨f, hf, rfl⟩
    simpa [joinedByAnd, parenthesised_nil] using Joins.left (p := p) (q := q) ha p
  have hfe : (f.grouped p).text ≠ [] := Formula.text_ne_nil (hf.grouped p).atomic
  have hge : (g.grouped q).text ≠ [] := Formula.text_ne_nil (hg.grouped q).atomic
  have htext : joinedByAnd (f.grouped p).text (g.grouped q).text =
      (Formula.conj (f.grouped p) (g.grouped q)).text := by
    simp [joinedByAnd, hfe, hge, Formula.text_conj]
  rw [← hf.text_grouped, ← hg.text_grouped, htext]
  exact .both hf hg

theorem legible_conj {f g : Formula} (hf : f.Legible) (hg : g.Legible) :
    (Formula.conj (f.grouped p) (g.grouped q)).Legible := (hf.grouped p).conj (hg.grouped q)

/-- The conjunction holds where both conditions do. -/
theorem holds (h : Joins p q a b t) (ha : Sql.holds v a = true) (hb : Sql.holds v b = true) :
    Sql.holds v t = true := by
  cases h with
  | left hl parens => rwa [(hl.parenthesised parens).2.2]
  | right hl parens => rwa [(hl.parenthesised parens).2.2]
  | refuted b => exact ha
  | both hf hg =>
    rw [holds_text hf] at ha
    rw [holds_text hg] at hb
    rw [holds_text (legible_conj hf hg)]
    exact Formula.holds_conj_of_holds (by simpa using ha) (by simpa using hb)

/-- Without a bare `OR` both conditions hold where the conjunction does. -/
theorem holds_of_isApart (h : Joins p q a b t) (hapart : isApart p q a b = true)
    (hnever : v never = false) (ht : Sql.holds v t = true) :
    Sql.holds v a = true ∧ Sql.holds v b = true := by
  cases h with
  | left hl parens =>
    rw [(hl.parenthesised parens).2.2] at ht
    exact ⟨ht, rfl⟩
  | right hl parens =>
    rw [(hl.parenthesised parens).2.2] at ht
    exact ⟨rfl, ht⟩
  | refuted b =>
    rw [holds_never, hnever] at ht
    cases ht
  | @both f g hf hg =>
    have hfe : f.text.isEmpty = false := by simpa using Formula.text_ne_nil hf.atomic
    have hge : g.text.isEmpty = false := by simpa using Formula.text_ne_nil hg.atomic
    simp only [isApart, isExposed, hfe, hge, read_text hf, read_text hg, ← Formula.isOr_grouped,
      Bool.false_or, Bool.not_eq_eq_eq_not, Bool.not_true, Bool.or_eq_false_iff] at hapart
    rw [holds_text (legible_conj hf hg), Formula.holds_conj hapart.1 hapart.2] at ht
    rw [holds_text hf, holds_text hg]
    simpa using ht

/-- The atoms of a conjunction are those of both conditions, unless it never holds. -/
theorem atoms_eq (h : Joins p q a b t) : never ∈ atoms t ∨ atoms t = atoms a ++ atoms b := by
  cases h with
  | left hl parens =>
    right
    rw [(hl.parenthesised parens).2.1]
    simp [atoms]
  | right hl parens =>
    right
    rw [(hl.parenthesised parens).2.1]
    simp [atoms]
  | refuted b =>
    left
    rw [atoms_never]
    exact List.mem_singleton_self _
  | both hf hg =>
    right
    rw [atoms_text (legible_conj hf hg), atoms_text hf, atoms_text hg, Formula.atoms_conj,
      Formula.atoms_grouped, Formula.atoms_grouped]

theorem legible (h : Joins p q a b t) : IsLegible t := by
  cases h with
  | left hl parens => exact (hl.parenthesised parens).1
  | right hl parens => exact (hl.parenthesised parens).1
  | refuted b => exact .inr ⟨_, legible_never, rfl⟩
  | both hf hg => exact .inr ⟨_, legible_conj hf hg, rfl⟩

/-- With a bare `OR` the conjunction holds where the atoms of one condition do, whatever the other
one says. -/
theorem holds_of_not_isApart (h : Joins p q a b t) (hapart : isApart p q a b = false)
    (hnever : never ∉ atoms t) :
    (∀ v, (∀ x ∈ atoms a, v x = true) → Sql.holds v t = true) ∨
      (∀ v, (∀ x ∈ atoms b, v x = true) → Sql.holds v t = true) := by
  cases h with
  | left hl parens => simp [isApart] at hapart
  | right hl parens => simp [isApart] at hapart
  | refuted b =>
    rw [atoms_never] at hnever
    exact absurd (List.mem_singleton_self _) hnever
  | @both f g hf hg =>
    rw [atoms_text hf, atoms_text hg]
    simp only [holds_text (legible_conj hf hg)]
    simp only [isApart, isExposed, read_text hf, read_text hg, ← Formula.isOr_grouped,
      Bool.or_eq_false_iff, Bool.not_eq_eq_eq_not, Bool.not_false, Bool.or_eq_true] at hapart
    rcases hapart.2 with hor | hor
    · exact .inl fun v hv => Formula.holds_conj_of_isOr_left hor (by simpa using hv)
    · exact .inr fun v hv => Formula.holds_conj_of_isOr_right hor (by simpa using hv)

end Joins

end Sql

namespace Expr

variable {st : Settings} {c : Clause} {l r : Expr} {s s₁ s₂ : Slate} {a b : Text}

/-- The conjunction of two conditions without rows compiles to its value if it has one. -/
theorem folded?_andAlso (hl : Yields ((l.render st).condition c) s a s₁)
    (hr : Yields ((r.render st).condition c) s₁ b s₂) :
    (binary .andAlso l r).folded? st.pre = .ok none ∨
      ((binary .andAlso l r).folded? st.pre = .ok (some (.bool false)) ∧ a = never) ∨
      ∃ y, (binary .andAlso l r).folded? st.pre = .ok (some (.bool y)) ∧ a = [] ∧
        b = if y then ([] : Text) else never := by
  cases hc : (binary .andAlso l r).isClosed with
  | false => exact .inl (folded?_of_not_isClosed hc st.pre)
  | true =>
    rw [isClosed_binary, Bool.and_eq_true] at hc
    obtain ⟨hlf, hlv⟩ := constantCondition_of_eval l hc.1 hl
    obtain ⟨hrf, hrv⟩ := constantCondition_of_eval r hc.2 hr
    have hfoldable :
        ((binary .andAlso l r).isFoldable && (binary .andAlso l r).isClosed) = true := by
      rw [isClosed_binary, hc.1, hc.2]
      rfl
    rw [folded?, if_pos hfoldable, eval]
    cases hle : l.eval st.pre with
    | error stop =>
      cases stop with
      | error => exact .inl rfl
      | fault => exact absurd hle hlf
    | ok v =>
      obtain ⟨x, rfl, rfl, rfl⟩ := yields_constantCondition.mp (hlv v hle)
      cases x with
      | false => exact .inr (.inl ⟨rfl, rfl⟩)
      | true =>
        cases hre : r.eval st.pre with
        | error stop =>
          cases stop with
          | error => exact .inl rfl
          | fault => exact absurd hre hrf
        | ok w =>
          obtain ⟨y, rfl, rfl, rfl⟩ := yields_constantCondition.mp (hrv w hre)
          exact .inr (.inr ⟨y, rfl, rfl, rfl⟩)

/-- **What two conditions joined by `AND` compile to.** -/
theorem joins_andAlso (hl : Yields ((l.render st).condition c) s a s₁)
    (hr : Yields ((r.render st).condition c) s₁ b s₂) (ha : IsLegible a) (hb : IsLegible b) :
    ∃ t s', Yields (((binary .andAlso l r).render st).condition c) s t s' ∧
      Joins l.needsParens r.needsParens a b t := by
  have hrender : ((binary .andAlso l r).render st).condition c = Emit.folding st
      (.binary .andAlso (l.render st).expr (r.render st).expr) (Emit.constantCondition · c)
      (Rendering.logical .andAlso (l.render st) (r.render st) c) := rfl
  rw [hrender, render_expr, render_expr]
  rcases folded?_andAlso hl hr with hnone | ⟨hfalse, rfl⟩ | ⟨y, hy, rfl, rfl⟩
  · by_cases hlit : l.literalTruth? = some true
    · -- a true literal is left out, and it emits nothing
      obtain ⟨rfl, rfl⟩ := yields_of_literalTruth? hlit hl
      refine ⟨b, s₂, yields_folding.mpr (.inr ⟨hnone, ?_⟩), .right hb false⟩
      rw [Rendering.logical, render_expr, render_expr]
      simpa [hlit, BinaryOp.isOr] using hr
    · refine ⟨_, s₂, yields_folding.mpr (.inr ⟨hnone, ?_⟩), .joined ha hb⟩
      rw [Rendering.logical, render_expr, render_expr]
      simp only [BinaryOp.isOr, hlit, decide_false, Bool.and_false, Bool.false_and, Bool.not_false,
        Bool.false_eq_true, if_false, yields_joined, yields_groupedCondition]
      exact ⟨_, s₁, _, ⟨a, hl, rfl⟩, ⟨b, hr, rfl⟩, rfl⟩
  · have hconstant : Yields (constantCondition (.bool false) c) s never s :=
      yields_constantCondition.mpr ⟨false, rfl, rfl, rfl⟩
    exact ⟨never, s, yields_folding.mpr (.inl ⟨_, hfalse, hconstant⟩), .refuted b⟩
  · have hconstant : Yields (constantCondition (.bool y) c) s
        (parenthesised false (if y then [] else never)) s :=
      yields_constantCondition.mpr ⟨y, rfl, by cases y <;> rfl, rfl⟩
    exact ⟨_, s, yields_folding.mpr (.inl ⟨_, hy, hconstant⟩), .right hb false⟩

/-! ### Conjunctions of lists -/

variable {es : List Expr} {e : Expr}

theorem allOf_append_of_isHole (h : e.isHole = true) : allOf (es ++ [e]) = allOf es := by
  simp [allOf, joined, h]

theorem allOf_append_of_holes (hes : es.filter (fun c => !c.isHole) = []) (h : e.isHole = false) :
    allOf (es ++ [e]) = e := by
  simp [allOf, joined, List.filter_append, hes, h]

theorem allOf_append (hes : es.filter (fun c => !c.isHole) ≠ []) (h : e.isHole = false) :
    allOf (es ++ [e]) = binary .andAlso (allOf es) e := by
  obtain ⟨x, xs, hx⟩ := List.exists_cons_of_ne_nil hes
  simp [allOf, joined, List.filter_append, hx, h]

theorem isHole_allOf (es : List Expr) : (allOf es).isHole = false := by
  have fold : ∀ (cs : List Expr) (x : Expr), x.isHole = false →
      (cs.foldl (binary .andAlso) x).isHole = false := by
    intro cs
    induction cs with
    | nil => exact fun _ h => h
    | cons y cs ih => exact fun _ _ => ih _ rfl
  unfold allOf joined
  split
  · rfl
  · rename_i x cs hx
    have hmem : x ∈ es.filter fun c => !c.isHole := by
      rw [hx]
      exact List.mem_cons_self
    exact fold cs x (by simpa using (List.mem_filter.mp hmem).2)

/-- The conjunction of no conditions emits nothing. -/
theorem yields_allOf_nil (s : Slate) (hes : es.filter (fun c => !c.isHole) = []) :
    Yields (((allOf es).render st).condition c) s [] s := by
  have h : allOf es = value (.bool true) := by simp [allOf, joined, hes]
  have hconstant : Yields (constantCondition (.bool true) c) s [] s :=
    yields_constantCondition.mpr ⟨true, rfl, rfl, rfl⟩
  rw [h]
  exact hconstant

/-- **What a conjunction compiles to with one more condition.** -/
theorem joins_allOf {b : Text} (hes : Yields (((allOf es).render st).condition c) s a s₁)
    (he : (e.isHole = true ∧ b = []) ∨ Yields ((e.render st).condition c) s₁ b s₂)
    (ha : IsLegible a) (hb : IsLegible b) :
    ∃ t s', Yields (((allOf (es ++ [e])).render st).condition c) s t s' ∧
      Joins (allOf es).needsParens e.needsParens a b t := by
  cases hhole : e.isHole with
  | true =>
    rw [allOf_append_of_isHole hhole]
    obtain ⟨-, rfl⟩ | he := he
    · exact ⟨a, s₁, hes, .left ha false⟩
    · cases e with
      | hole =>
        have hy : Yields (Emit.unsupported hole c) s₁ b s₂ := he
        exact absurd hy not_yields_unsupported
      | _ => cases hhole
  | false =>
    obtain ⟨h, -⟩ | he := he
    · rw [hhole] at h
      cases h
    by_cases hholes : es.filter (fun c => !c.isHole) = []
    · obtain ⟨rfl, rfl⟩ := hes.unique (yields_allOf_nil s hholes)
      rw [allOf_append_of_holes hholes hhole]
      exact ⟨b, s₂, he, .right hb false⟩
    · rw [allOf_append hholes hhole]
      exact joins_andAlso hes he ha hb

end Expr

namespace Draft

/-- What a condition appends to the draft, if it compiles. -/
def conditionText? (d : Draft) (c : Clause) (e : Expr) : Option Text :=
  match d.compile e c [] with
  | (d', .ok ()) => some (d'.text.drop d.text.length)
  | _ => none

/-- The own text of a condition: what it appends once the conjunction of others is written. -/
def ownText? (d : Draft) (c : Clause) (before : List Expr) (e : Expr) : Option Text :=
  match d.compile (.allOf before) c [] with
  | (d', .ok ()) => d'.conditionText? c e
  | _ => none

/-- The own texts of conditions, each after the conjunction of all before it. -/
def ownTexts? (d : Draft) (c : Clause) : (before : List Expr) → List Expr → Option (List Text)
  | _, [] => some []
  | before, e :: es => do
    let t ← d.ownText? c before e
    let ts ← d.ownTexts? c (before ++ [e]) es
    return t :: ts

/-- Whether no bare `OR` stands beside an `AND` that joins the conditions. -/
def isSeparate (d : Draft) (c : Clause) : (before : List Expr) → List Expr → Bool
  | _, [] => true
  | before, e :: es =>
    (match d.conditionText? c (.allOf before), d.ownText? c before e with
      | some a, some b => isApart (Expr.allOf before).needsParens e.needsParens a b
      | _, _ => true) && d.isSeparate c (before ++ [e]) es

/-- What a text says about the own texts of the conditions it was joined from. It holds where all of
them hold. If the conditions are separate, all of them hold where it does. If they are not and no
atom stands twice, it holds somewhere where one of them does not. -/
structure Conjoins (separate : Bool) (own : List Text) (t : Text) : Prop where
  holds : ∀ v, (∀ x ∈ own, Sql.holds v x = true) → Sql.holds v t = true
  holds_own : separate = true → ∀ v, v never = false → Sql.holds v t = true →
    ∀ x ∈ own, Sql.holds v x = true
  exists_not_holds : separate = false → (atoms t).Nodup → never ∉ atoms t →
    ∃ v, v never = false ∧ Sql.holds v t = true ∧ ∃ x ∈ own, Sql.holds v x = false

theorem conjoins_nil : Conjoins true [] [] :=
  ⟨fun _ _ => rfl, fun _ _ _ _ => nofun, nofun⟩

/-- The own texts of a conjunction have no atoms that it does not have, unless it never holds. -/
def Covers (own : List Text) (t : Text) : Prop :=
  never ∈ atoms t ∨ ∀ x ∈ own, ∀ a ∈ atoms x, a ∈ atoms t

theorem Covers.append {p q : Bool} {own : List Text} {a b t : Text} (h : Covers own a)
    (hj : Joins p q a b t) : Covers (own ++ [b]) t := by
  rcases hj.atoms_eq with hnever | hatoms
  · exact .inl hnever
  rw [Covers, hatoms]
  rcases h with hnever | h
  · exact .inl (List.mem_append_left _ hnever)
  · refine .inr fun x hx y hy => List.mem_append.mpr ?_
    rcases List.mem_append.mp hx with hx | hx
    · exact .inl (h x hx y hy)
    · obtain rfl := List.mem_singleton.mp hx
      exact .inr hy

/-- A bare `OR` beside the `AND` makes the conjunction hold where one condition does not. -/
theorem Conjoins.exists_of_not_isApart {p q separate : Bool} {own : List Text} {a b t : Text}
    (h : Conjoins separate own a) (hj : Joins p q a b t) (hapart : isApart p q a b = false)
    (hn : (atoms t).Nodup) (hnever : never ∉ atoms t) :
    ∃ v, v never = false ∧ Sql.holds v t = true ∧ ∃ x ∈ own ++ [b], Sql.holds v x = false := by
  have hatoms := hj.atoms_eq.resolve_left hnever
  rw [hatoms, List.mem_append, not_or] at hnever
  rw [hatoms] at hn
  obtain ⟨-, -, hdisjoint⟩ := List.nodup_append.mp hn
  have hne : a ≠ [] ∧ b ≠ [] := by
    simp only [isApart, Bool.or_eq_false_iff, List.isEmpty_eq_false_iff] at hapart
    exact hapart.1
  rcases hj.holds_of_not_isApart hapart (by simp [hatoms, hnever]) with hleft | hright
  · -- only the atoms of the first condition hold
    refine ⟨fun x => decide (x ∈ atoms a), by simp [hnever.1], hleft _ (by simp), b, by simp, ?_⟩
    refine not_holds_of_forall hne.2 fun x hx => ?_
    have hxa : x ∉ atoms a := fun hxa => hdisjoint x hxa x hx rfl
    simp [hxa]
  · -- only the atoms of the second condition hold, and so one of the own texts of the first fails
    let v : Text → Bool := fun x => decide (x ∈ atoms b)
    have hfalse : Sql.holds v a = false := by
      refine not_holds_of_forall hne.1 fun x hx => ?_
      have hxb : x ∉ atoms b := fun hxb => hdisjoint x hx x hxb rfl
      simp [v, hxb]
    have hown : ¬ ∀ x ∈ own, Sql.holds v x = true := fun hall => by
      rw [h.holds v hall] at hfalse
      cases hfalse
    obtain ⟨x, hx, hxf⟩ : ∃ x ∈ own, Sql.holds v x = false := by simpa using hown
    exact ⟨v, by simp [v, hnever.2], hright v (by simp [v]), x, by simp [hx], hxf⟩

/-- Where the conjunction of the others holds too often, so does that with one more condition. -/
theorem Conjoins.exists_of_exists {p q separate : Bool} {own : List Text} {a b t : Text}
    (h : Conjoins separate own a) (hcovers : Covers own a) (hj : Joins p q a b t)
    (hseparate : separate = false) (hn : (atoms t).Nodup) (hnever : never ∉ atoms t) :
    ∃ v, v never = false ∧ Sql.holds v t = true ∧ ∃ x ∈ own ++ [b], Sql.holds v x = false := by
  have hatoms := hj.atoms_eq.resolve_left hnever
  rw [hatoms, List.mem_append, not_or] at hnever
  rw [hatoms] at hn
  obtain ⟨hna, -, hdisjoint⟩ := List.nodup_append.mp hn
  obtain ⟨v, hv, hva, x, hx, hxf⟩ := h.exists_not_holds hseparate hna hnever.1
  -- the atoms of the new condition are made true, the others keep their truth values
  let u : Text → Bool := fun y => decide (y ∈ atoms b) || v y
  have hagree : ∀ y ∈ atoms a, u y = v y := fun y hy => by
    have hyb : y ∉ atoms b := fun hyb => hdisjoint y hy y hyb rfl
    simp [u, hyb]
  have hsub := hcovers.resolve_left hnever.1
  refine ⟨u, by simp [u, hnever.2, hv], hj.holds ?_ ?_, x, by simp [hx], ?_⟩
  · rw [Sql.holds_congr hagree, hva]
  · exact holds_of_forall fun y hy => by simp [u, hy]
  · rw [Sql.holds_congr fun y hy => hagree y (hsub x hx y hy), hxf]

/-- **What a conjunction says with one more condition.** -/
theorem Conjoins.append {p q separate : Bool} {own : List Text} {a b t : Text}
    (h : Conjoins separate own a) (hcovers : Covers own a) (hj : Joins p q a b t) :
    Conjoins (separate && isApart p q a b) (own ++ [b]) t where
  holds v hall := by
    refine hj.holds (h.holds v fun x hx => hall x (by simp [hx])) (hall b (by simp))
  holds_own hseparate v hnever ht x hx := by
    rw [Bool.and_eq_true] at hseparate
    obtain ⟨ha, hb⟩ := hj.holds_of_isApart hseparate.2 hnever ht
    rcases List.mem_append.mp hx with hx | hx
    · exact h.holds_own hseparate.1 v hnever ha x hx
    · obtain rfl := List.mem_singleton.mp hx
      exact hb
  exists_not_holds hseparate hn hnever := by
    cases hapart : isApart p q a b with
    | false => exact h.exists_of_not_isApart hj hapart hn hnever
    | true =>
      rw [hapart, Bool.and_true] at hseparate
      exact h.exists_of_exists hcovers hj hseparate hn hnever

/-! ### Whole conjunctions -/

variable {d d' : Draft} {c : Clause} {e : Expr}

theorem conditionText?_of_yields {s : Slate} {t : Text} (hc : c.isCondition = true)
    (he : e.isHole = false) (h : Yields ((e.render d.settings).condition c) d.slate t s) :
    d.conditionText? c e = some t := by
  rw [conditionText?, compile_of_yields hc he h]
  simp

theorem yields_of_conditionText? {t : Text} (hc : c.isCondition = true)
    (h : d.conditionText? c e = some t) : ∃ s, (e.isHole = true ∧ t = []) ∨
      Yields ((e.render d.settings).condition c) d.slate t s := by
  unfold conditionText? at h
  split at h
  · rename_i d' hd
    obtain ⟨u, s, rfl, hu⟩ := compile_condition hc hd
    cases h
    simp only [List.drop_left]
    exact ⟨s, hu.imp (fun hu => ⟨hu.1, hu.2.1⟩) id⟩
  · cases h

/-- The own text of a condition is what it yields in the state that the others leave. -/
theorem yields_of_ownText? {before : List Expr} {s : Slate} {a b : Text} (hc : c.isCondition = true)
    (ha : Yields (((Expr.allOf before).render d.settings).condition c) d.slate a s)
    (h : d.ownText? c before e = some b) : ∃ s', (e.isHole = true ∧ b = []) ∨
      Yields ((e.render d.settings).condition c) s b s' := by
  rw [ownText?, compile_of_yields hc (Expr.isHole_allOf before) ha] at h
  exact yields_of_conditionText? hc h

/-- A text that a condition yields is legible. -/
theorem isLegible_of_yields {st : Settings} {s s' : Slate} {t : Text}
    (he : e.Named st (.readable st.quoted)) (hs : s.aliases.Within (.readable st.quoted))
    (h : (e.isHole = true ∧ t = []) ∨ Yields ((e.render st).condition c) s t s') : IsLegible t := by
  by_cases ht : t = []
  · exact .inl ht
  · rcases h with ⟨-, h⟩ | h
    · exact .inl h
    · exact .inr (Expr.legible_of_yields he hs h ht)

/-- What a conjunction says with more conditions, one after the other. -/
theorem exists_conjoins_append {before rest : List Expr} {own own' : List Text} {a : Text}
    {s : Slate} {separate : Bool} (hc : c.isCondition = true)
    (hnamed : ∀ e ∈ before ++ rest, e.Named d.settings (.readable d.settings.quoted))
    (hs : d.slate.aliases.Within (.readable d.settings.quoted))
    (hy : Yields (((Expr.allOf before).render d.settings).condition c) d.slate a s)
    (h : Conjoins separate own a) (hcovers : Covers own a)
    (hown : d.ownTexts? c before rest = some own') :
    ∃ t s', Yields (((Expr.allOf (before ++ rest)).render d.settings).condition c) d.slate t s' ∧
      Conjoins (separate && d.isSeparate c before rest) (own ++ own') t := by
  induction rest generalizing before own own' a s separate with
  | nil =>
    cases hown
    rw [List.append_nil, List.append_nil, isSeparate, Bool.and_true]
    exact ⟨a, s, hy, h⟩
  | cons e rest ih =>
    simp only [ownTexts?, Option.bind_eq_bind, Option.bind_eq_some_iff] at hown
    obtain ⟨b, hb, ts, hts, hown⟩ := hown
    cases hown
    have hbefore : (Expr.allOf before).Named d.settings (.readable d.settings.quoted) :=
      Expr.named_joined fun x hx => hnamed x (by simp [hx])
    obtain ⟨s₁, hs₁⟩ := yields_of_ownText? hc hy hb
    have hsa := ((Expr.lawful_render hbefore).condition c _ a s hs hy).1
    have hla : IsLegible a := isLegible_of_yields hbefore hs (.inr hy)
    have hlb : IsLegible b := isLegible_of_yields (hnamed e (by simp)) hsa hs₁
    obtain ⟨t, s₂, ht, hj⟩ := Expr.joins_allOf hy hs₁ hla hlb
    have happend := ih (by simpa using hnamed) ht (h.append hcovers hj) (hcovers.append hj) hts
    rw [isSeparate, conditionText?_of_yields hc (Expr.isHole_allOf before) hy, hb]
    simpa [Bool.and_assoc] using happend

/-- Where conditions are written: behind their keyword, unless they emit nothing. -/
theorem conditions_of_yields {conds : List Expr} {keyword t : Text} {s : Slate}
    (hc : c.isCondition = true) (hne : conds.isEmpty = false)
    (h : Yields (((Expr.allOf conds).render d.settings).condition c) d.slate t s) :
    d.conditions keyword conds c =
      .ok { d with text := d.text ++ (if t.isEmpty then [] else keyword ++ t), slate := s } := by
  have hclause : (d.write keyword).clause (.allOf conds) c [] =
      .ok { d with text := d.text ++ keyword ++ t, slate := s } := by
    have hcompile := compile_of_yields (d := d.write keyword) hc (Expr.isHole_allOf conds) h
    rw [clause, hcompile]
    rfl
  simp only [conditions, hne, hclause, Bool.false_eq_true, if_false]
  show Except.ok _ = Except.ok _
  cases t <;> simp [write]

/-- **What the conditions of a statement say.** If each of them compiles, so does their conjunction,
and the keyword stands before it unless it emits nothing. -/
theorem exists_conjoins {conds : List Expr} {own : List Text} (keyword : Text)
    (hc : c.isCondition = true)
    (hnamed : ∀ e ∈ conds, e.Named d.settings (.readable d.settings.quoted))
    (hs : d.slate.aliases.Within (.readable d.settings.quoted))
    (hown : d.ownTexts? c [] conds = some own) :
    ∃ d' t, d.conditions keyword conds c = .ok d' ∧
      d'.text = d.text ++ (if t.isEmpty then [] else keyword ++ t) ∧
      Conjoins (d.isSeparate c [] conds) own t := by
  cases hne : conds.isEmpty with
  | true =>
    obtain rfl : conds = [] := by simpa using hne
    cases hown
    exact ⟨d, [], rfl, by simp, conjoins_nil⟩
  | false =>
    have hcovers : Covers [] [] := .inr nofun
    have hnone : Yields (((Expr.allOf []).render d.settings).condition c) d.slate [] d.slate :=
      Expr.yields_allOf_nil d.slate rfl
    obtain ⟨t, s, hy, h⟩ := exists_conjoins_append hc hnamed hs hnone conjoins_nil hcovers hown
    exact ⟨_, t, conditions_of_yields hc hne hy, rfl, h⟩

end Draft

end QueryTree
