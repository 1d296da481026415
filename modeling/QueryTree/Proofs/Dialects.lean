import QueryTree.Proofs.DraftPairs
import QueryTree.Proofs.StatementMarks

/-!
# Dialects differ in text only

Compiled for two dialects, an expression or a statement fails with the same error in both, or it
succeeds in both with the same bound values in the same order, as many selected fields and the same
aliases. Nothing else can be said of the texts: names are quoted differently, placeholders and
functions are spelt differently, and rows and pages are written in other ways.

A statement is written clause by clause, and every step is one rule on pairs of drafts. The one
place where the text before a clause matters is a list that may turn out to be empty: a select list
and the assignments of an update stand after a keyword, never after the separator of a list.

## Main definitions

* `Draft.SameButText`: the same bound values, as many fields and the same aliases

## Main results

* `Pairing.Drafts.clause`, `Pairing.Drafts.conditions`: parts of statements
* `compile_sameButText`: expressions in every clause, and all statements
-/

namespace QueryTree

open Emit

theorem Outcomes.mapError {ε δ α β : Type} {R : α → β → Prop} {x : Attempt ε α} {y : Attempt ε β}
    (h : Outcomes R x y) (f : ε → δ) :
    Outcomes R (Attempt.mapError f x) (Attempt.mapError f y) := by
  cases h with
  | failed e =>
    cases e with
    | error e => exact .failed _
    | fault => exact .failed _
  | returned h => exact .returned h

/-- What both do before they differ decides nothing. -/
theorem Outcomes.bind_same {ε σ α β : Type} {R : α → β → Prop} (x : Except ε σ) {f : σ → Except ε α}
    {g : σ → Except ε β} (h : ∀ s, Outcomes R (f s) (g s)) : Outcomes R (x >>= f) (x >>= g) := by
  refine (Outcomes.refl (R := (· = ·)) (fun _ => rfl) x).bind ?_
  rintro s _ rfl
  exact h s

namespace Draft

theorem clause_eq_mapError (d : Draft) (e : Expr) (c : Clause) (ds : List Direction) :
    d.clause e c ds = Attempt.mapError .compile (outcome (d.compile e c ds)) := by
  unfold clause
  rcases d.compile e c ds with ⟨d', (_ | _) | _⟩ <;> rfl

/-- A text that ends with a keyword is no list. -/
theorem isTrimmed_write (d : Draft) {w : Text} (hlen : itemSeparator.length ≤ w.length)
    (h : w.hasSuffix itemSeparator = false) : (d.write w).IsTrimmed :=
  trimSuffix_append_of_not hlen h

end Draft

namespace Pairing

variable {P : Pairing} {st : Settings} {d d' : Draft}

/-! ### Parts of statements -/

theorem Drafts.clause (hd : P.Drafts st d d') (hex : P.IsExact) (e : Expr) (c : Clause)
    (ds : List Direction) (ht : c = .select ∨ c = .update → d.IsTrimmed ∧ d'.IsTrimmed) :
    Outcomes (P.Drafts st) (d.clause e c ds) (d'.clause e c ds) := by
  rw [Draft.clause_eq_mapError, Draft.clause_eq_mapError]
  exact (hd.compile hex e c ds ht).mapError _

theorem Drafts.clause_condition (hd : P.Drafts st d d') (e : Expr) {c : Clause}
    (hc : c.isCondition = true) :
    Outcomes (P.Extended st P.Conditions d d') (d.clause e c []) (d'.clause e c []) := by
  rw [Draft.clause_eq_mapError, Draft.clause_eq_mapError]
  exact (hd.compile_condition hc (.refl _ e) (Expr.binds_refl e)).mapError _

/-- A row has the same entity and the same alias. -/
theorem Drafts.source (hd : P.Drafts st d d') (p : Option Param) :
    Outcomes (fun a b => a.1 = b.1 ∧ a.2.1 = b.2.1 ∧ P.Drafts st a.2.2 b.2.2) (d.source p)
      (d'.source p) := by
  cases p with
  | none => exact .failed _
  | some p =>
    obtain ⟨hrow, hslate⟩ := hd.slates.bindRow st p
    simp only [Draft.source, Draft.bindRow, hd.first, hd.second, ← hrow]
    cases (d.slate.bindRow (P.first st) p).1 with
    | error e => exact .failed _
    | ok x => exact .returned ⟨rfl, rfl, rfl, rfl, hslate⟩

/-- A text is appended to both drafts, or both end where they ended before. -/
theorem Extended.length_iff {x x' : Draft} (h : P.Extended st P.Conditions d d' x x') :
    x.text.length = d.text.length ↔ x'.text.length = d'.text.length := by
  obtain ⟨t, t', ht, ht', hR⟩ := h.texts
  rw [ht, ht']
  simpa using hR.eq_nil_iff

theorem Drafts.conditions (hd : P.Drafts st d d') (keyword : Text) (conds : List Expr) {c : Clause}
    (hc : c.isCondition = true) :
    Outcomes (P.Drafts st) (d.conditions keyword conds c) (d'.conditions keyword conds c) := by
  unfold Draft.conditions
  split
  · exact .returned hd
  · refine ((hd.write keyword keyword).clause_condition (.allOf conds) hc).bind fun x x' hx => ?_
    refine .returned ?_
    by_cases hlen : x.text.length = (d.write keyword).text.length
    · rw [if_pos hlen, if_pos (hx.length_iff.mp hlen)]
      exact ⟨hx.first, hx.second, hx.slates⟩
    · rw [if_neg hlen, if_neg (mt hx.length_iff.mpr hlen)]
      exact hx.toDrafts

theorem Drafts.joinRefs (hd : P.Drafts st d d') (js : List Join) :
    Outcomes (fun a b => a.1.length = js.length ∧ b.1.length = js.length ∧ P.Drafts st a.2 b.2)
      (Select.joinRefs d js) (Select.joinRefs d' js) := by
  induction js generalizing d d' with
  | nil => exact .returned ⟨rfl, rfl, hd⟩
  | cons j js ih =>
    rw [Select.joinRefs, Select.joinRefs]
    refine (hd.source j.row).bind ?_
    rintro ⟨e, name, x⟩ ⟨_, _, x'⟩ ⟨rfl, rfl, hx⟩
    refine (ih hx).bind ?_
    rintro ⟨refs, y⟩ ⟨refs', y'⟩ ⟨hlen, hlen', hy⟩
    exact .returned ⟨by simp [hlen], by simp [hlen'], hy⟩

/-- A join writes its own condition or one that always holds; the tables are written in each
dialect's way. -/
theorem Drafts.writeJoins (hd : P.Drafts st d d') {js js' : List (Join × Text)}
    (hjs : js.map (·.1) = js'.map (·.1)) :
    Outcomes (P.Drafts st) (Select.writeJoins d js) (Select.writeJoins d' js') := by
  induction js generalizing d d' js' with
  | nil =>
    cases js' with
    | nil => exact .returned hd
    | cons => cases hjs
  | cons j js ih =>
    cases js' with
    | nil => cases hjs
    | cons j' js' =>
      obtain ⟨j, ref⟩ := j
      obtain ⟨j', ref'⟩ := j'
      obtain ⟨rfl, hrest⟩ : j = j' ∧ js.map (·.1) = js'.map (·.1) := by simpa using hjs
      rw [Select.writeJoins, Select.writeJoins]
      generalize (" " : Text) ++ j.kind.keywords ++ " " ++ ref ++ " ON " = w,
        (" " : Text) ++ j.kind.keywords ++ " " ++ ref' ++ " ON " = w'
      have hw := hd.write w w'
      have rest : ∀ x x', P.Extended st P.Conditions (d.write w) (d'.write w') x x' →
          Outcomes (P.Drafts st)
            (Select.writeJoins
              (if x.text.length = (d.write w).text.length then x.write "1 = 1" else x) js)
            (Select.writeJoins
              (if x'.text.length = (d'.write w').text.length then x'.write "1 = 1" else x')
              js') := by
        intro x x' hx
        refine ih ?_ hrest
        by_cases hlen : x.text.length = (d.write w).text.length
        · rw [if_pos hlen, if_pos (hx.length_iff.mp hlen)]
          exact hx.toDrafts.write _ _
        · rw [if_neg hlen, if_neg (mt hx.length_iff.mpr hlen)]
          exact hx.toDrafts
      split
      · exact rest _ _ ⟨hw, [], [], by simp, by simp, .same _⟩
      · exact (hw.clause_condition j.condition rfl).bind rest

theorem Drafts.writeOrders (hd : P.Drafts st d d') (hex : P.IsExact) (first : Bool)
    (orders : List (Expr × List Direction)) :
    Outcomes (P.Drafts st) (Select.writeOrders d first orders)
      (Select.writeOrders d' first orders) := by
  induction orders generalizing d d' first with
  | nil => exact .returned hd
  | cons o rest ih =>
    obtain ⟨e, ds⟩ := o
    rw [Select.writeOrders, Select.writeOrders]
    have hsep :
        P.Drafts st (if first then d else d.write ", ") (if first then d' else d'.write ", ") := by
      split
      · exact hd
      · exact hd.write _ _
    have hlisted := hsep.clause hex e .orderBy ds (by rintro (h | h) <;> cases h)
    exact hlisted.bind fun _ _ hx => ih hx false

theorem Drafts.writePage (hd : P.Drafts st d d') (s : Select) :
    P.Drafts st (s.writePage d) (s.writePage d') := by
  have order : ∀ (b b' : Bool) (t : Text),
      P.Drafts st (if b then d.write t else d) (if b' then d'.write t else d') := by
    intro b b' t
    cases b <;> cases b' <;> exact ⟨hd.first, hd.second, hd.slates⟩
  unfold Select.writePage
  split
  · exact (order _ _ _).write _ _
  · exact hd

/-! ### Statements -/

theorem drafts_select (hex : P.IsExact) (s : Select) :
    Outcomes (P.Drafts st) (s.write (.new (P.first st))) (s.write (.new (P.second st))) := by
  unfold Select.write
  split
  · exact .failed _
  · refine ((drafts_new st).source s.source).bind ?_
    rintro ⟨e, name, d⟩ ⟨_, _, d'⟩ ⟨rfl, rfl, hd⟩
    refine (hd.joinRefs s.joins).bind ?_
    rintro ⟨refs, d⟩ ⟨refs', d'⟩ ⟨hrefs, hrefs', hd⟩
    have keyword : ∀ x : Draft,
        (x.write (if s.distinct then "SELECT DISTINCT " else "SELECT ")).IsTrimmed := by
      intro x
      cases s.distinct with
      | true => exact x.isTrimmed_write (by decide) (by decide)
      | false => exact x.isTrimmed_write (by decide) (by decide)
    refine ((hd.write _ _).clause hex s.projection .select [] fun _ =>
      ⟨keyword d, keyword d'⟩).bind fun d d' hd => ?_
    have joins : (s.joins.zip refs).map (·.1) = (s.joins.zip refs').map (·.1) := by
      rw [List.map_fst_zip (Nat.le_of_eq hrefs.symm), List.map_fst_zip (Nat.le_of_eq hrefs'.symm)]
    refine ((hd.write _ _).writeJoins joins).bind fun d d' hd => ?_
    refine (hd.conditions " WHERE " s.wheres rfl).bind fun d d' hd => ?_
    have ordered : ∀ d d', P.Drafts st d d' → Outcomes (P.Drafts st)
        (do
          let d ← if s.orders.isEmpty then .ok d
            else Select.writeOrders (d.write " ORDER BY ") true s.orders
          return s.writePage d)
        (do
          let d ← if s.orders.isEmpty then .ok d'
            else Select.writeOrders (d'.write " ORDER BY ") true s.orders
          return s.writePage d) := by
      intro d d' hd
      split
      · exact .returned (hd.writePage s)
      · exact ((hd.write _ _).writeOrders hex true s.orders).bind fun _ _ hd =>
          .returned (hd.writePage s)
    cases s.groups.isEmpty with
    | true => exact (hd.conditions (c := .having) " HAVING " s.havings rfl).bind ordered
    | false =>
      exact ((hd.write _ _).clause hex _ .groupBy [] nofun).bind fun _ _ hd =>
        (hd.conditions (c := .having) " HAVING " s.havings rfl).bind ordered

/-- Statements that agree: both fail with the same error, or they leave agreeing states. -/
abbrev Statements (P : Pairing) (x y : Attempt StatementError Draft) : Prop :=
  Outcomes (fun d d' => P.Slates d.slate d'.slate) x y

theorem statements_select (hex : P.IsExact) (s : Select) (ts : List Transform) :
    P.Statements (s.compile ts (P.first st)) (s.compile ts (P.second st)) :=
  Outcomes.bind_same _ fun s => (drafts_select hex s).mono fun _ _ h => h.slates

theorem statements_aggregate (hex : P.IsExact) (s : Select) (fn : Clause) (target : Expr)
    (ts : List Transform) : P.Statements (s.compileAggregate fn target ts (P.first st))
      (s.compileAggregate fn target ts (P.second st)) := by
  unfold Select.compileAggregate
  split
  · exact .failed _
  · exact Outcomes.bind_same _ fun s => (drafts_select hex _).mono fun _ _ h => h.slates

theorem statements_insert (hex : P.IsExact) (s : Insert) (ts : List Transform) :
    P.Statements (s.compile ts (P.first st)) (s.compile ts (P.second st)) := by
  refine Outcomes.bind_same _ fun s => ?_
  refine (drafts_new { st with
    defaultType := s.target.bind fun p => p.type.map Ty.indirect
    includeNulls := s.includeNulls }).source s.target |>.bind ?_
  rintro ⟨e, name, d⟩ ⟨_, _, d'⟩ ⟨rfl, rfl, hd⟩
  exact ((hd.write _ _).clause hex _ .insert [] nofun).mono fun _ _ h => h.slates

theorem statements_update (hex : P.IsExact) (s : Update) (ts : List Transform) :
    P.Statements (s.compile ts (P.first st)) (s.compile ts (P.second st)) := by
  unfold Update.compile
  cases s.target with
  | none => exact .failed _
  | some p =>
    refine (drafts_new { st with
      defaultType := p.type.map Ty.indirect
      includeNulls := s.includeNulls
      singleTable := true }).source (some p) |>.bind ?_
    rintro ⟨e, name, d⟩ ⟨_, _, d'⟩ ⟨rfl, rfl, hd⟩
    refine Outcomes.bind_same _ fun s => Outcomes.bind_same _ fun s => ?_
    have keyword : ∀ (x : Draft) (w : Text), (x.write ("UPDATE " ++ w ++ " SET ")).IsTrimmed := by
      intro x w
      rw [← Draft.write_write]
      exact Draft.isTrimmed_write _ (by decide) (by decide)
    refine ((hd.write _ _).clause hex s.assigned .update [] fun _ =>
      ⟨keyword d _, keyword d' _⟩).bind fun d d' hd => ?_
    exact (hd.conditions " WHERE " s.wheres rfl).mono fun _ _ h => h.slates

theorem statements_delete (s : Delete) (ts : List Transform) :
    P.Statements (s.compile ts (P.first st)) (s.compile ts (P.second st)) := by
  unfold Delete.compile
  cases s.source with
  | none => exact .failed _
  | some p =>
    refine (drafts_new { st with singleTable := true }).source (some p) |>.bind ?_
    rintro ⟨e, name, d⟩ ⟨_, _, d'⟩ ⟨rfl, rfl, hd⟩
    refine Outcomes.bind_same _ fun s => Outcomes.bind_same _ fun s => ?_
    exact ((hd.write _ _).conditions " WHERE " s.wheres rfl).mono fun _ _ h => h.slates

theorem statements_compile (hex : P.IsExact) (s : Statement) (ts : List Transform) :
    P.Statements (s.compile ts (P.first st)) (s.compile ts (P.second st)) := by
  cases s with
  | select s => exact statements_select hex s ts
  | aggregate s fn target => exact statements_aggregate hex s fn target ts
  | insert s => exact statements_insert hex s ts
  | update s => exact statements_update hex s ts
  | delete s => exact statements_delete s ts

end Pairing

/-! ### All dialects -/

/-- The same bound values, as many selected fields and the same aliases. -/
structure Draft.SameButText (d d' : Draft) : Prop where
  params : d.slate.params = d'.slate.params
  fields : d.slate.fields.length = d'.slate.fields.length
  aliases : d.slate.aliases = d'.slate.aliases

/-- Where no string varies, agreeing states hold the same values. -/
theorem Pairing.Slates.sameButText {P : Pairing} (hex : P.IsExact) {d d' : Draft}
    (h : P.Slates d.slate d'.slate) : d.SameButText d' where
  params := by
    have hvalues : List.Forall₂ (· = ·) d.slate.params d'.slate.params :=
      h.params.imp fun b b' hb => by
      cases b
      cases b'
      simpa using ⟨hb.value.eq hex, hb.dataType⟩
    exact List.forall₂_eq_eq_eq ▸ hvalues
  fields := h.fields
  aliases := h.aliases

end QueryTree
