import QueryTree.Proofs.Closed
import QueryTree.Statement.Basic

/-!
# Lists that are compiled to nothing

Some items of a list of groups or orders have no text: empty lists of names, lists and shapes
without items, and functions that are inlined to one of these. Whether an item is one of them does
not depend on what was compiled before, on the aliases or on the directions that are left. So a list
emitter is silent or it is vocal, and a list of several items is silent exactly if all of its items
are.

## Main definitions

* `Emit.Silent`, `Emit.Vocal`, `Emit.Steady`
* `Expr.Silent`: the expressions that are compiled to nothing in the lists of a clause

## Main results

* `Expr.steady_render`: an expression is silent or vocal
* `Expr.fst_eq_nil_iff_forall_silent`: several items are silent where each of them is
-/

namespace QueryTree

open Emit

variable {st : Settings}

/-! ### Emitters of lists -/

namespace Emit

variable {m : List Direction → Emit (Text × List Direction)} {c : Clause}

/-- Where the list emitter does not stop, it emits nothing. -/
def Silent (m : List Direction → Emit (Text × List Direction)) : Prop :=
  ∀ ds s p s', Yields (m ds) s p s' → p.1 = []

/-- Where the list emitter does not stop, it emits a text. -/
def Vocal (m : List Direction → Emit (Text × List Direction)) : Prop :=
  ∀ ds s p s', Yields (m ds) s p s' → p.1 ≠ []

/-- Whether the list emitter emits a text does not depend on where it is run. -/
def Steady (m : List Direction → Emit (Text × List Direction)) : Prop := Silent m ∨ Vocal m

theorem steady_of_not_yields (h : ∀ ds s p s', ¬ Yields (m ds) s p s') : Steady m :=
  .inl fun ds s p s' hy => (h ds s p s' hy).elim

/-- Lists one after the other are silent where each of them is. -/
theorem fst_listings_eq_nil {ms : List (List Direction → Emit (Text × List Direction))}
    (h : ∀ m ∈ ms, Steady m) {ds : List Direction} {s s' : Slate}
    {p : Text × List Direction} (hy : Yields (listings ms ds) s p s') :
    p.1 = [] ↔ ∀ m ∈ ms, Silent m := by
  induction ms generalizing ds s p with
  | nil =>
    obtain ⟨rfl, -⟩ := yields_pure.mp hy
    simp
  | cons m ms ih =>
    simp only [listings, yields_bind, yields_after, yields_pure] at hy
    obtain ⟨⟨t, ds'⟩, s₁, hm, ⟨rest, ds''⟩, s₂, hms, rfl, rfl⟩ := hy
    have hrest := ih (fun m hm => h m (by simp [hm])) hms
    have hfirst : t = [] ↔ Silent m := by
      refine ⟨fun ht => ?_, fun hs => hs _ _ _ _ hm⟩
      exact (h m (by simp)).resolve_right fun hv => hv _ _ _ _ hm ht
    rw [List.forall_mem_cons, ← hfirst, ← hrest]
    exact List.append_eq_nil_iff

theorem steady_listings {ms : List (List Direction → Emit (Text × List Direction))}
    (h : ∀ m ∈ ms, Steady m) : Steady (listings ms) := by
  by_cases hall : ∀ m ∈ ms, Silent m
  · exact .inl fun _ _ _ _ hy => (fst_listings_eq_nil h hy).mpr hall
  · exact .inr fun _ _ _ _ hy ht => hall ((fst_listings_eq_nil h hy).mp ht)

theorem listItem_ne_nil (c : Clause) (ds : List Direction) (t : Text) : listItem c ds t ≠ [] := by
  have hsep : itemSeparator ≠ [] := by decide
  unfold listItem
  split <;> simp [hsep]

theorem steady_rawList (c : Clause) (t : Text) : Steady (rawList c t) := by
  have yields : ∀ {ds s p s'}, Yields (rawList c t ds) s p s' → ∃ items,
      Raw.items t (c = .orderBy) = .ok items ∧ p = rawListing c ds items := by
    intro ds s p s' hy
    simp only [rawList, bind_pure_comp, yields_map, yields_ofExcept] at hy
    obtain ⟨items, ⟨hi, -⟩, rfl⟩ := hy
    exact ⟨items, hi, rfl⟩
  by_cases hnone : Raw.items t (c = .orderBy) = .ok []
  · refine .inl fun ds s p s' hy => ?_
    obtain ⟨items, hi, rfl⟩ := yields hy
    obtain rfl := Except.ok.inj (hnone.symm.trans hi)
    rfl
  · refine .inr fun ds s p s' hy => ?_
    obtain ⟨items, hi, rfl⟩ := yields hy
    cases items with
    | nil => exact absurd hi hnone
    | cons i items =>
      exact fun h => listItem_ne_nil c ds i (List.append_eq_nil_iff.mp h).1

theorem steady_constantListing (v : Value) (c : Clause) : Steady (constantListing v c) := by
  have refused : ∀ {m : List Direction → Emit (Text × List Direction)} {e : CompileError},
      (m = fun _ => fail e) → Steady m := by
    rintro m e rfl
    exact steady_of_not_yields fun _ _ _ _ => not_yields_fail
  cases v with
  | string t => exact steady_rawList c t
  | nilSlice elem =>
    cases elem with
    | string => exact .inl fun ds s p s' hy => (yields_pure.mp hy).1 ▸ rfl
    | _ => exact refused rfl
  | slice elem items =>
    cases elem with
    | string =>
      refine steady_listings fun m hm => ?_
      obtain ⟨v, -, rfl⟩ := List.mem_map.mp hm
      cases v with
      | string t => exact steady_rawList c t
      | _ => exact steady_of_not_yields fun _ _ _ _ => not_yields_fault
    | _ => exact refused rfl
  | _ => exact refused rfl

end Emit

/-! ### Renderings -/

namespace Rendering

variable {c : Clause}

theorem steady_scalar (st : Settings) (e : Expr) (value condition : Clause → Emit Text)
    (isTest : Bool) (addends : Option (List (Clause → Emit Text))) :
    Steady ((scalar st e value condition isTest addends).listing c) := by
  refine .inr fun ds s p s' hy => ?_
  simp only [scalar, yields_bind, yields_setPending, yields_pure] at hy
  obtain ⟨t, s₁, -, _, s₂, -, rfl, -⟩ := hy
  exact listItem_ne_nil c ds t

theorem steady_unsupported (e : Expr) : Steady ((unsupported st e).listing c) :=
  steady_of_not_yields fun _ _ _ _ => not_yields_unsupported

theorem steady_shape {bindings : List (Text × Rendering)}
    (h : ∀ b ∈ bindings, Steady (b.2.listing c)) (whole : Expr) (type : Option Ty) :
    Steady ((shape st whole type bindings).listing c) := by
  refine steady_listings fun m hm => ?_
  obtain ⟨b, hb, rfl⟩ := List.mem_map.mp hm
  exact h b hb

theorem steady_items {es : List Rendering} (h : ∀ e ∈ es, Steady (e.listing c)) (whole : Expr) :
    Steady ((items st whole es).listing c) := by
  refine steady_listings fun m hm => ?_
  obtain ⟨e, he, rfl⟩ := List.mem_map.mp hm
  exact h e he

theorem steady_invocation {whole : Expr} {body : Unit → Except Expr.InlineError Rendering}
    (h : ∀ r, body () = .ok r → Steady (r.listing c)) :
    Steady ((invocation st whole body).listing c) := by
  show Steady fun ds => emitInlined body (·.listing c ds)
  unfold emitInlined
  cases hb : body () with
  | ok r => exact h r hb
  | error e => exact steady_of_not_yields fun _ _ _ _ => not_yields_fail

end Rendering

namespace Expr

variable {inlined : Expr → Rendering} {c : Clause}

mutual

/-- One case per construct: values are listed as one item, rows not at all, and lists as their items
are. -/
theorem steady_renderWith (hin : ∀ e, Steady ((inlined e).listing c)) :
    (e : Expr) → Steady ((renderWith st inlined e).listing c)
  | hole => Rendering.steady_unsupported hole
  | const v t => steady_constantListing v c
  | param p => (Rendering.steady_unsupported (.param p) :
      Steady ((Rendering.unsupported st (.param p)).listing c))
  | member .. | binary .. | call .. | cond .. => by
    rw [renderWith]
    exact Rendering.steady_scalar ..
  | unary op e t => by
    cases op with
    | quote =>
      rw [renderWith]
      exact steady_renderWith hin e
    | _ =>
      rw [renderWith_unary rfl]
      exact Rendering.steady_scalar ..
  | new t bs => Rendering.steady_shape (steady_renderBindings hin bs) _ t
  | init t bs => Rendering.steady_shape (steady_renderBindings hin bs) _ t
  | list t es => Rendering.steady_items (steady_renderAll hin es) _
  | array t es => Rendering.steady_items (steady_renderAll hin es) _
  | lambda body ps => steady_renderWith hin body
  | invoke target args => by
    rw [renderWith]
    refine Rendering.steady_invocation fun r hr => ?_
    cases hi : inline target args with
    | error e =>
      rw [hi] at hr
      cases hr
    | ok body =>
      rw [hi] at hr
      cases hr
      exact hin body

theorem steady_renderAll (hin : ∀ e, Steady ((inlined e).listing c)) :
    (es : List Expr) → ∀ r ∈ renderAll st inlined es, Steady (r.listing c)
  | [] => nofun
  | e :: es => by
    intro r hr
    rw [renderAll] at hr
    rcases List.mem_cons.mp hr with rfl | hr
    · exact steady_renderWith hin e
    · exact steady_renderAll hin es r hr

theorem steady_renderBindings (hin : ∀ e, Steady ((inlined e).listing c)) :
    (bs : List (Text × Expr)) → ∀ b ∈ renderBindings st inlined bs, Steady (b.2.listing c)
  | [] => nofun
  | (name, e) :: bs => by
    intro b hb
    rw [renderBindings] at hb
    rcases List.mem_cons.mp hb with rfl | hb
    · exact steady_renderWith hin e
    · exact steady_renderBindings hin bs b hb

end

theorem steady_renderTo : (depth : Nat) → (e : Expr) → Steady ((renderTo st depth e).listing c)
  | 0, _ => Rendering.steady_unsupported hole
  | depth + 1, e => steady_renderWith (steady_renderTo depth) e

/-- **Whether an expression is listed as nothing does not depend on the state** of the compilation,
nor on the directions that are left. -/
theorem steady_render (st : Settings) (e : Expr) (c : Clause) : Steady ((e.render st).listing c) :=
  steady_renderTo inlineDepth e

/-- In the lists of the clause the expression is compiled to nothing. -/
def Silent (st : Settings) (c : Clause) (e : Expr) : Prop := Emit.Silent ((e.render st).listing c)

/-- What is not given is never listed. -/
theorem isHole_of_yields_listing {e : Expr} {ds : List Direction} {s s' : Slate}
    {p : Text × List Direction} (hy : Yields ((e.render st).listing c ds) s p s') :
    e.isHole = false := by
  cases e with
  | hole =>
    have hy : Yields (Emit.unsupported hole c) s p s' := hy
    exact absurd hy not_yields_unsupported
  | _ => rfl

theorem silent_of_isHole {e : Expr} (he : e.isHole = true) : e.Silent st c := by
  intro ds s p s' hy
  rw [isHole_of_yields_listing hy] at he
  cases he

/-- What is listed is nothing where the expression is silent. -/
theorem fst_eq_nil_iff_silent {e : Expr} {ds : List Direction} {s s' : Slate}
    {p : Text × List Direction} (hy : Yields ((e.render st).listing c ds) s p s') :
    p.1 = [] ↔ e.Silent st c := by
  refine ⟨fun h => ?_, fun h => h ds s p s' hy⟩
  exact (steady_render st e c).resolve_right fun hv => hv ds s p s' hy h

/-- Several items are listed as nothing where each of them is. -/
theorem fst_eq_nil_iff_forall_silent {es : List Expr} {ds : List Direction} {s s' : Slate}
    {p : Text × List Direction} (hne : es ≠ [])
    (hy : Yields (((ofItems es).render st).listing c ds) s p s') :
    p.1 = [] ↔ ∀ e ∈ es, e.Silent st c := by
  match es with
  | [e] => simpa using fst_eq_nil_iff_silent (e := e) hy
  | e :: x :: xs =>
    obtain ⟨n, hn⟩ : ∃ n, inlineDepth = n + 1 := ⟨9999, rfl⟩
    have hrender : ∀ e : Expr, e.render st = renderWith st (renderTo st n) e := by
      intro e
      rw [render, hn]
      rfl
    have hy : Yields (((array none (e :: x :: xs)).render st).listing c ds) s p s' := hy
    rw [hrender, renderWith] at hy
    have hiff := fst_listings_eq_nil (fun m hm => ?_) hy
    · rw [hiff, renderAll_eq_map]
      simp only [List.map_map, List.forall_mem_map, Function.comp_apply, ← hrender]
      rfl
    · rw [renderAll_eq_map, List.map_map] at hm
      obtain ⟨y, -, rfl⟩ := List.mem_map.mp hm
      rw [Function.comp_apply, ← hrender]
      exact steady_render st y c

end Expr

end QueryTree
