import QueryTree.Proofs.Emitted
import QueryTree.Statement.Compile

/-!
# The names of a statement

A statement holds the names of its expressions and rows. Transforms add conditions of their own: a
policy may bring any expression, soft deletion tests a member of a row, and a key condition compares
members of a row with values. `Transform.Named` says of a policy that it adds permitted names when
it is given rows with permitted names; the other transforms do so anyway.

## Main definitions

* `Select.Named`, `Insert.Named`, `Update.Named`, `Delete.Named`, `Transform.Named`
* `Insert.settings`, `Update.settings`, `Delete.settings`: what a statement is compiled with

## Main results

* `Select.Named.transformAll`, `Update.Named.transformAll`, `Delete.Named.transformAll`
* `named_keyCondition?`: key conditions add no names
-/

namespace QueryTree

variable {st : Settings} {L : Lexicon}

namespace Expr

/-! ### Conditions -/

theorem named_const (v : Value) (t : Option Ty) : (const v t).Named st L := trivial

theorem named_field {p : Param} (h : p.Named st L) (name : Text) : (field p name).Named st L := by
  unfold field memberOf
  split <;> exact h

theorem named_foldl {op : BinaryOp} {cs : List Expr} {c : Expr} (hc : c.Named st L)
    (h : ∀ e ∈ cs, e.Named st L) : (cs.foldl (binary op) c).Named st L := by
  induction cs generalizing c with
  | nil => exact hc
  | cons e cs ih => exact ih ⟨hc, h e (by simp)⟩ fun e he => h e (by simp [he])

theorem named_joined {op : BinaryOp} {empty : Bool} {conds : List Expr}
    (h : ∀ e ∈ conds, e.Named st L) : (joined op empty conds).Named st L := by
  have hf : ∀ e ∈ conds.filter fun c => !c.isHole, e.Named st L := fun e he =>
    h e (List.mem_filter.mp he).1
  unfold joined
  split
  · exact named_const _ _
  · rename_i c cs hcs
    rw [hcs] at hf
    exact named_foldl (hf c (by simp)) fun e he => hf e (by simp [he])

theorem named_array {t : Option Ty} {es : List Expr} (h : ∀ e ∈ es, e.Named st L) :
    (array t es).Named st L := by
  have hall : ∀ (raw inlined : Expr → Prop) (es : List Expr),
      (∀ e ∈ es, NamedWith st L raw inlined e) → NamedAll st L raw inlined es := by
    intro raw inlined es
    induction es with
    | nil => exact fun _ => trivial
    | cons e es ih => exact fun h => ⟨h e (by simp), ih fun e he => h e (by simp [he])⟩
  exact hall _ _ es h

theorem named_ofItems {es : List Expr} (h : ∀ e ∈ es, e.Named st L) : (ofItems es).Named st L := by
  unfold ofItems
  split
  · trivial
  · exact h _ (by simp)
  · exact named_array h

end Expr

/-- Key conditions add no names. -/
theorem named_keyCondition? {e : Entity} {p : Param} {v : Value} {c : Expr} (hp : p.Named st L)
    (h : keyCondition? e p v = some c) : c.Named st L := by
  unfold keyCondition? at h
  split at h
  · cases h
  · cases h
    refine Expr.named_joined fun x hx => ?_
    obtain ⟨k, -, rfl⟩ := List.mem_map.mp hx
    exact ⟨Expr.named_field hp k.member, trivial⟩

/-! ### Transforms -/

/-- The conditions that a transform adds for rows with permitted names have permitted names. -/
def Transform.Named (st : Settings) (L : Lexicon) : Transform → Prop
  | .policy pol => ∀ p table conds, p.Named st L → pol.rules table = .ok conds →
      ∀ c ∈ conds, (Policy.apply p c).Named st L
  | _ => True

theorem mem_of_mem_mappedRows {r : Registry} {rows : List Param} {x : Param × Entity}
    (h : x ∈ mappedRows r rows) : x.1 ∈ rows := by
  obtain ⟨p, hp, hx⟩ := List.mem_filterMap.mp h
  split at hx
  · cases hx
  · split at hx
    · cases hx
      exact hp
    · cases hx

theorem SoftDelete.named_conditions {s : SoftDelete} {rows : List Param}
    (h : ∀ p ∈ rows, p.Named st L) : ∀ c ∈ s.conditions rows, c.Named st L := by
  intro c hc
  obtain ⟨⟨p, e⟩, hx, hc⟩ := List.mem_filterMap.mp hc
  simp only at hc
  split at hc
  · cases hc
    exact ⟨Expr.named_field (h p (mem_of_mem_mappedRows hx)) _, trivial⟩
  · cases hc

theorem Policy.named_conditions {pol : Policy} {rows : List Param} {conds : List Expr}
    (hpol : (Transform.policy pol).Named st L) (hrows : ∀ p ∈ rows, p.Named st L)
    (h : pol.conditions rows = .ok conds) : ∀ c ∈ conds, c.Named st L := by
  unfold Policy.conditions at h
  obtain ⟨css, hcss, h⟩ := bind_eq_ok.mp h
  cases h
  have hall : ∀ cs ∈ css, ∀ c ∈ cs, c.Named st L := by
    refine of_mapM_eq_ok hcss ?_
    rintro ⟨p, e⟩ hx cs hcs
    simp only at hcs
    split at hcs
    · rename_i rules hrules
      cases hcs
      intro c hc
      obtain ⟨x, hx', rfl⟩ := List.mem_map.mp hc
      exact hpol p e.table rules (hrows p (mem_of_mem_mappedRows hx)) hrules x hx'
    · cases hcs
  intro c hc
  obtain ⟨cs, hcs, hc⟩ := List.mem_flatten.mp hc
  exact hall cs hcs c hc

/-- What every transform keeps holds after all of them. -/
theorem transformAll_induction {σ : Type} {f : σ → Transform → Except StatementError σ}
    {P : σ → Prop} {ts : List Transform} {s s' : σ} (hs : P s)
    (step : ∀ t ∈ ts, ∀ s s', P s → f s t = .ok s' → P s')
    (h : transformAll f ts s = .ok s') : P s' := by
  have fold : ∀ (ts : List Transform) (s : σ), P s →
      (∀ t ∈ ts, ∀ s s', P s → f s t = .ok s' → P s') → ts.foldlM f s = .ok s' → P s' := by
    intro ts
    induction ts with
    | nil =>
      intro s hs _ h
      cases h
      exact hs
    | cons t ts ih =>
      intro s hs step h
      rw [List.foldlM_cons] at h
      obtain ⟨s₁, h₁, h⟩ := bind_eq_ok.mp h
      exact ih s₁ (step t (by simp) s s₁ hs h₁) (fun t ht => step t (by simp [ht])) h
  unfold transformAll at h
  split at h
  · rename_i hfold
    cases h
    exact fold ts s hs step hfold
  · cases h

/-! ### Selections -/

/-- The names of a join are permitted. -/
def Join.Named (st : Settings) (L : Lexicon) (j : Join) : Prop :=
  (∀ p ∈ j.row, p.Named st L) ∧ j.condition.Named st L

/-- The names of a selection are permitted. -/
structure Select.Named (st : Settings) (L : Lexicon) (s : Select) : Prop where
  source : ∀ p ∈ s.source, p.Named st L
  joins : ∀ j ∈ s.joins, j.Named st L
  projection : s.projection.Named st L
  wheres : ∀ e ∈ s.wheres, e.Named st L
  groups : ∀ e ∈ s.groups, e.Named st L
  havings : ∀ e ∈ s.havings, e.Named st L
  orders : ∀ o ∈ s.orders, o.1.Named st L

theorem Select.Named.rows {s : Select} (h : s.Named st L) : ∀ p ∈ s.rows, p.Named st L := by
  intro p hp
  rcases List.mem_append.mp hp with hp | hp
  · exact h.source p (by simpa using hp)
  · obtain ⟨j, hj, hjp⟩ := List.mem_filterMap.mp hp
    exact (h.joins j hj).1 p hjp

theorem Select.Named.addWheres {s : Select} (h : s.Named st L) {conds : List Expr}
    (hc : ∀ c ∈ conds, c.Named st L) : Select.Named st L { s with wheres := s.wheres ++ conds } :=
  { h with
    wheres := fun e he => by
      rcases List.mem_append.mp he with he | he
      · exact h.wheres e he
      · exact hc e he }

theorem Select.Named.transform {s s' : Select} {t : Transform} (h : s.Named st L)
    (ht : t.Named st L) (hs : Transform.select s t = .ok s') : s'.Named st L := by
  cases t with
  | identity =>
    cases hs
    exact h
  | refuse => cases hs
  | softDelete d =>
    cases hs
    exact h.addWheres (SoftDelete.named_conditions h.rows)
  | policy p =>
    obtain ⟨conds, hconds, hs⟩ := bind_eq_ok.mp hs
    cases hs
    exact h.addWheres (Policy.named_conditions ht h.rows hconds)

theorem Select.Named.transformAll {s s' : Select} {ts : List Transform} (h : s.Named st L)
    (hts : ∀ t ∈ ts, t.Named st L) (hs : transformAll Transform.select ts s = .ok s') :
    s'.Named st L :=
  transformAll_induction h (fun t ht _ _ hs hst => hs.transform (hts t ht) hst) hs

/-- Transforms do not look at the projection. -/
theorem Transform.select_projection {s s' : Select} {t : Transform} (e : Expr)
    (h : Transform.select s t = .ok s') :
    Transform.select { s with projection := e } t = .ok { s' with projection := e } := by
  cases t with
  | identity | softDelete =>
    cases h
    rfl
  | refuse => cases h
  | policy p =>
    obtain ⟨conds, hconds, h⟩ := bind_eq_ok.mp h
    cases h
    exact bind_eq_ok.mpr ⟨conds, hconds, rfl⟩

theorem Select.Named.transformAll_projection {s s' : Select} {ts : List Transform} {e : Expr}
    (h : Select.Named st L { s with projection := e }) (hts : ∀ t ∈ ts, t.Named st L)
    (hs : QueryTree.transformAll Transform.select ts s = .ok s') :
    Select.Named st L { s' with projection := e } :=
  transformAll_induction (P := fun x => Select.Named st L { x with projection := e }) h
    (fun t ht _ _ hs hst => hs.transform (hts t ht) (Transform.select_projection e hst)) hs

/-! ### Insertions, updates and deletions -/

/-- What an insertion is compiled with: rows of unnamed types are rows of the target. -/
def Insert.settings (s : Insert) (st : Settings) : Settings :=
  { st with
    defaultType := s.target.bind fun p => p.type.map Ty.indirect
    includeNulls := s.includeNulls }

/-- What an update of the rows of a parameter is compiled with. -/
def Update.settings (s : Update) (p : Param) (st : Settings) : Settings :=
  { st with
    defaultType := p.type.map Ty.indirect
    includeNulls := s.includeNulls
    singleTable := true }

/-- What a deletion is compiled with. -/
def Delete.settings (st : Settings) : Settings := { st with singleTable := true }

/-- The names of an insertion are permitted. -/
structure Insert.Named (st : Settings) (L : Lexicon) (s : Insert) : Prop where
  target : ∀ p ∈ s.target, p.Named st L
  values : ∀ e ∈ s.values, e.Named st L

/-- The names of an update are permitted. -/
structure Update.Named (st : Settings) (L : Lexicon) (s : Update) : Prop where
  target : ∀ p ∈ s.target, p.Named st L
  assigned : s.assigned.Named st L
  wheres : ∀ e ∈ s.wheres, e.Named st L

/-- The names of a deletion are permitted. -/
structure Delete.Named (st : Settings) (L : Lexicon) (s : Delete) : Prop where
  source : ∀ p ∈ s.source, p.Named st L
  wheres : ∀ e ∈ s.wheres, e.Named st L

/-- An insertion is compiled as it is, unless a transform refuses it. -/
theorem Insert.transformAll_eq {s s' : Insert} {ts : List Transform}
    (h : transformAll Transform.insert ts s = .ok s') : s' = s := by
  refine transformAll_induction (P := fun x => x = s) rfl (fun t _ s₁ s₂ hs hst => ?_) h
  cases t with
  | refuse => cases hst
  | identity | softDelete | policy =>
    cases hst
    exact hs

theorem Update.Named.transformAll {s s' : Update} {ts : List Transform} (h : s.Named st L)
    (hts : ∀ t ∈ ts, t.Named st L) (hs : transformAll Transform.update ts s = .ok s') :
    s'.Named st L ∧ s'.assigned = s.assigned := by
  refine transformAll_induction (P := fun x => x.Named st L ∧ x.assigned = s.assigned) ⟨h, rfl⟩
    (fun t ht s s' hs hst => ?_) hs
  obtain ⟨hs, ha⟩ := hs
  cases t with
  | identity | softDelete =>
    cases hst
    exact ⟨hs, ha⟩
  | refuse => cases hst
  | policy p =>
    obtain ⟨conds, hconds, hst⟩ := bind_eq_ok.mp hst
    cases hst
    refine ⟨{ hs with wheres := fun e he => ?_ }, ha⟩
    rcases List.mem_append.mp he with he | he
    · exact hs.wheres e he
    · exact Policy.named_conditions (hts _ ht) (by simpa using hs.target) hconds e he

theorem Delete.Named.transformAll {s s' : Delete} {ts : List Transform} (h : s.Named st L)
    (hts : ∀ t ∈ ts, t.Named st L) (hs : transformAll Transform.delete ts s = .ok s') :
    s'.Named st L := by
  refine transformAll_induction h (fun t ht s s' hs hst => ?_) hs
  cases t with
  | identity | softDelete =>
    cases hst
    exact hs
  | refuse => cases hst
  | policy p =>
    obtain ⟨conds, hconds, hst⟩ := bind_eq_ok.mp hst
    cases hst
    refine { hs with wheres := fun e he => ?_ }
    rcases List.mem_append.mp he with he | he
    · exact hs.wheres e he
    · exact Policy.named_conditions (hts _ ht) (by simpa using hs.source) hconds e he

theorem Update.Named.keyed {s s' : Update} {e : Entity} {p : Param} (h : s.Named st L)
    (hp : p.Named st L) (hs : s.keyed e p = .ok s') :
    s'.Named st L ∧ s'.assigned = s.assigned := by
  unfold Update.keyed at hs
  split at hs
  · split at hs
    · split at hs
      · cases hs
      · rename_i hc
        cases hs
        exact ⟨{ h with wheres := by simpa using named_keyCondition? hp hc }, rfl⟩
    · cases hs
      exact ⟨h, rfl⟩
  · cases hs
    exact ⟨h, rfl⟩

theorem Delete.Named.keyed {s s' : Delete} {e : Entity} {p : Param} (h : s.Named st L)
    (hp : p.Named st L) (hs : s.keyed e p = .ok s') : s'.Named st L := by
  unfold Delete.keyed at hs
  split at hs
  · cases hs
    exact h
  · obtain ⟨conds, hconds, hs⟩ := bind_eq_ok.mp hs
    cases hs
    have hall : ∀ c ∈ conds, c.Named st L := by
      refine of_mapM_eq_ok hconds fun v _ c hc => ?_
      split at hc
      · cases hc
      · split at hc
        · cases hc
        · rename_i hk
          cases hc
          exact named_keyCondition? hp hk
    refine { h with wheres := fun x hx => ?_ }
    rcases List.mem_append.mp hx with hx | hx
    · exact h.wheres x hx
    · obtain rfl := List.mem_singleton.mp hx
      exact Expr.named_joined hall

end QueryTree
