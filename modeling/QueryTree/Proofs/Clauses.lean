import QueryTree.Proofs.RowTexts

/-!
# The text of a clause

What is compiled into a new draft is what the rendering emits in the clause, and little is done to
it afterwards: lists lose their last separator, and an empty list of columns selects everything. So
a kind of texts that holds of what is emitted holds of the text of the draft.

## Main definitions

* `Clause.isListing`
* `Rendering.Clausal`: what the rendering emits in a clause is of a kind

## Main results

* `Rendering.Lawful.clausal`: lawful renderings emit texts of every kind above their own
* `Draft.of_compile`: the text of a new draft is of the kind
-/

namespace QueryTree

open Emit

/-- Whether the clause is a list of groups or orders. -/
def Clause.isListing : Clause → Bool
  | .groupBy | .orderBy => true
  | _ => false

variable {st : Settings} {L : Lexicon} {K : TextKinds st L} {Q : Nat → Nat → Text → Prop}
  {c : Clause} {n m : Nat} {t : Text}

/-- What the rendering emits in the clause is of a kind; lists are of it up to their last
separator. -/
structure Rendering.Clausal (st : Settings) (L : Lexicon) (Q : Nat → Nat → Text → Prop) (c : Clause)
    (x : Rendering) : Prop where
  projection : c = .select → Emits L (ListOf Q) x.projection
  inserted : c = .insert →
    Emits L Q (do insertRows st (← ofAttempt (x.rows .insert (·.insertable))))
  assigned : c = .update →
    Emits L (ListOf Q) (do assignments st (← ofAttempt (x.rows .update (·.updatable))))
  condition : c.isCondition = true → Emits L Q (x.condition c)
  members : c = .in_ → Emits L Q x.members
  listing : c.isListing = true → ∀ ds, Emits L (fun n m p => ListOf Q n m p.1) (x.listing c ds)
  aggregate : c.isAggregate = true → Emits L Q (Rendering.aggregate c x)

/-! ### Lawful renderings -/

/-- The columns that an expression writes as rows of a clause are permitted. -/
def Expr.WritesNamed (st : Settings) (L : Lexicon) (e : Expr) : Clause → Prop
  | .insert => ∀ rows, (e.render st).rows .insert (·.insertable) = .ok rows → NamedRows L rows
  | .update => ∀ rows, (e.render st).rows .update (·.updatable) = .ok rows → NamedRows L rows
  | _ => True

/-- A kind of texts that values and conditions are of, and so is what they make up in a clause. -/
structure ClauseTexts (K : TextKinds st L) (Q : Nat → Nat → Text → Prop) : Prop
    extends RowTexts K Q where
  condition : ∀ {n m t}, K.Condition n m t → Q n m t
  item : ∀ {n m t}, ItemText st L K.Value n m t → Q n m t

/-- A list of items is a list of texts of a kind when items are of it and can be joined. -/
theorem ListText.listOf_of (hitem : ∀ {n m t}, ItemText st L K.Value n m t → Q n m t)
    (hjoin : ∀ {n k m a b}, Q n k a → Q k m b → Q n m (a ++ itemSeparator ++ b))
    (h : ListText st L K.Value n m t) : ListOf Q n m t := by
  induction h with
  | nil => exact .inl ⟨rfl, rfl⟩
  | @cons n k m a b ha _ ih => exact ListOf.append hjoin (.inr ⟨a, rfl, hitem ha⟩) ih

theorem ListText.listOf (hQ : ClauseTexts K Q) (h : ListText st L K.Value n m t) :
    ListOf Q n m t :=
  h.listOf_of hQ.item (hQ.join (by decide))

/-- **Lawful renderings emit texts of every kind above their own.** -/
theorem Rendering.Lawful.clausal {e : Expr} {raw : Prop} (hQ : ClauseTexts K Q)
    (h : (e.render st).Lawful K raw) (hraw : raw) (hw : e.WritesNamed st L c) :
    (e.render st).Clausal st L Q c where
  projection _ := h.projection.mono fun _ _ _ => ListText.listOf hQ
  inserted hc := by
    subst hc
    exact emits_rowsOf h hw fun _ => emits_insertRows hQ.toRowTexts
  assigned hc := by
    subst hc
    exact emits_rowsOf h hw fun _ => emits_assignments hQ.toRowTexts
  condition _ := (h.condition c).mono fun n k t ht => by
    rcases ht with ⟨rfl, rfl⟩ | ht
    · exact hQ.nil n
    · exact hQ.condition ht
  members _ := h.members.mono fun _ _ _ => hQ.value
  listing _ ds := (h.listing c ds).mono fun _ _ _ => ListText.listOf hQ
  aggregate _ := (Rendering.emits_aggregate (h.mono fun _ => hraw)).mono fun _ _ _ => hQ.value

/-! ### New drafts -/

namespace Draft

variable {d d' : Draft} {e : Expr} {ds : List Direction} {x : Emit Text}

/-- A draft after a run has what was emitted appended. -/
theorem run_eq_ok (h : d.run x = (d', .ok ())) :
    ∃ t s, Yields x d.slate t s ∧ d' = { d with text := d.text ++ t, slate := s } := by
  unfold run at h
  split at h
  · rename_i t s hr
    cases h
    exact ⟨t, s, hr, rfl⟩
  · cases h

/-- The text of the draft is of a kind, counted from the first parameter on. -/
def Holds (Q : Nat → Nat → Text → Prop) (d : Draft) : Prop := Q 0 d.slate.params.length d.text

theorem holds_run (hx : Emits L Q x) (h : (new st).run x = (d, .ok ())) : d.Holds Q := by
  obtain ⟨t, s, hy, rfl⟩ := run_eq_ok h
  exact (hx _ t s (AliasTable.within_empty _) hy).2

/-- A list is of the kind once it has lost its last separator. -/
theorem holds_run_list (hnil : ∀ n, Q n n []) (hx : Emits L (ListOf Q) x)
    (h : (new st).run x = (d, .ok ())) : (d.trimSuffix itemSeparator).Holds Q := by
  obtain ⟨t, s, hy, rfl⟩ := run_eq_ok h
  show Q 0 s.params.length (t.trimSuffix itemSeparator)
  rcases (hx _ t s (AliasTable.within_empty _) hy).2 with ⟨rfl, hn⟩ | ⟨u, rfl, hu⟩
  · have hn : (0 : Nat) = s.params.length := hn
    rw [← hn]
    exact hnil 0
  · rw [Text.trimSuffix_append]
    exact hu

theorem Holds.selectAll (hstar : ∀ {n m}, Q n m [] → Q n m "*") (h : d.Holds Q)
    (ht : d.text.length = 0) : d.selectAll.Holds Q := by
  obtain ⟨st, t, s⟩ := d
  obtain rfl : t = [] := List.length_eq_zero_iff.mp ht
  exact hstar h

theorem holds_compileHole (hnil : ∀ n, Q n n []) (hstar : ∀ {n m}, Q n m [] → Q n m "*")
    (hhole : Emits L Q (Rendering.aggregate c (.unsupported st .hole)))
    (h : (new st).compileHole c = (d, .ok ())) : d.Holds Q := by
  have hnew : (new st).Holds Q := hnil 0
  cases c with
  | select =>
    cases h
    exact hnew.selectAll hstar rfl
  | insert | update => cases h
  | max | min | avg | sum | count => exact holds_run hhole h
  | where_ | join | in_ | groupBy | having | orderBy | unknown =>
    cases h
    exact hnew

/-- **The text that an expression compiles to in a new draft is of the kind** that its rendering
emits in the clause. -/
theorem of_compile (hnil : ∀ n, Q n n []) (hstar : ∀ {n m}, Q n m [] → Q n m "*")
    (hhole : Emits L Q (Rendering.aggregate c (.unsupported st .hole)))
    (he : (e.render st).Clausal st L Q c) (h : (new st).compile e c ds = (d, .ok ())) :
    d.Holds Q := by
  have listing : c.isListing = true →
      Emits L (ListOf Q) (do return (← (e.render st).listing c ds).1) := by
    intro hc s t s' hs hy
    simp only [bind_pure_comp, yields_map] at hy
    obtain ⟨p, hp, rfl⟩ := hy
    exact he.listing hc ds s p s' hs hp
  unfold compile at h
  split at h
  · exact holds_compileHole hnil hstar hhole h
  · split at h
    · rename_i d₁ hrun
      cases c with
      | select =>
        have ht := holds_run_list hnil (he.projection rfl) hrun
        cases h
        split
        · rename_i hlength
          exact ht.selectAll hstar hlength
        · exact ht
      | insert =>
        cases h
        exact holds_run (he.inserted rfl) hrun
      | update =>
        have ht := holds_run_list hnil (he.assigned rfl) hrun
        simp only [finish] at h
        split at h
        · cases h
        · cases h
          exact ht
      | where_ | join | having =>
        cases h
        exact holds_run (he.condition rfl) hrun
      | in_ =>
        cases h
        exact holds_run (he.members rfl) hrun
      | groupBy | orderBy =>
        cases h
        exact holds_run_list hnil (listing rfl) hrun
      | max | min | avg | sum | count =>
        cases h
        exact holds_run (he.aggregate rfl) hrun
      | unknown =>
        cases h
        obtain ⟨t, s, hy, -⟩ := run_eq_ok hrun
        exact absurd hy not_yields_fail
    · rename_i hno
      exact absurd h (hno d ·)

end Draft

end QueryTree
