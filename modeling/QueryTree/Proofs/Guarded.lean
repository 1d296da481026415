import QueryTree.Proofs.Conjunction

/-!
# Guarded statements

A policy and soft deletion guard statements: they add conditions to those that a selection, update
or deletion has, and all of them are written as one conjunction behind `WHERE`. So a guard is worth
what that conjunction is worth: where no bare `OR` stands beside an `AND`, a row that meets the
`WHERE` of the statement meets every guard.

## Main definitions

* `Transform.guards`: the conditions that a transform adds to a statement
* `Statement.Readable`: the names of a statement are quoted or cannot be taken for keywords

## Main results

* `Statement.exists_conditions`: where a statement writes its conditions
* `where_conjoins_iff`: what the conditions of a statement say
-/

namespace QueryTree

open Sql Emit

variable {st : Settings} {d d' : Draft}

namespace Draft

/-! ### Aliases -/

/-- The draft is compiled with the settings, and its aliases are readable names. -/
structure Readable (st : Settings) (d : Draft) : Prop where
  settings : d.settings = st
  aliases : d.slate.aliases.Within (.readable st.quoted)

theorem readable_new (st : Settings) : Readable st (.new st) := ⟨rfl, AliasTable.within_empty _⟩

theorem Readable.write (h : Readable st d) (t : Text) : Readable st (d.write t) :=
  ⟨h.settings, h.aliases⟩

theorem Readable.run {Q : Nat → Nat → Text → Prop} {x : Emit Text} (hd : Readable st d)
    (hx : Emits (.readable st.quoted) Q x) (h : d.run x = (d', .ok ())) : Readable st d' := by
  obtain ⟨t, s, hy, rfl⟩ := run_eq_ok h
  exact ⟨hd.settings, (hx _ t s hd.aliases hy).1⟩

theorem Readable.source {p : Option Param} {e : Entity} {name : Text} (hd : Readable st d)
    (hp : ∀ q ∈ p, q.Named st (.readable st.quoted)) (h : d.source p = .ok (e, name, d')) :
    Readable st d' := by
  obtain ⟨q, rfl, he, rfl, rfl⟩ := source_eq_ok h
  obtain ⟨hname, hentity⟩ := hp q rfl
  rw [hd.settings] at he
  exact ⟨hd.settings, (hd.aliases.bind hname fun h => .inr ((hentity e he).1 h)).2⟩

/-- Assignments keep aliases within a lexicon. -/
theorem emits_assignments_of_lawful {L : Lexicon} {K : TextKinds st L} {rows : List Row}
    {w : Column → Bool} (h : ∀ r ∈ rows, r.Lawful K w) :
    Emits L (fun _ _ _ => True) (assignments st rows) := by
  have concat : ∀ ms : List (Emit Text), (∀ x ∈ ms, Emits L (fun _ _ _ => True) x) →
      Emits L (fun _ _ _ => True) (Emit.concat ms) := by
    intro ms
    induction ms with
    | nil => exact fun _ => emits_pure fun _ => trivial
    | cons x ms ih =>
      exact fun h => (h x (by simp)).join (ih fun x hx => h x (by simp [hx]))
        fun _ _ _ _ _ _ _ => trivial
  unfold assignments
  split
  · rename_i r
    refine concat _ fun x hx => ?_
    obtain ⟨cell, hcell, rfl⟩ := List.mem_map.mp hx
    exact (emits_content ((h r (by simp)).contents cell hcell) cell.column).enclose
      fun _ _ _ _ => trivial
  · exact emits_fail

/-- The clauses that stand before `WHERE` keep aliases readable. -/
theorem Readable.compile {e : Expr} {c : Clause} {ds : List Direction} (hd : Readable st d)
    (he : e.Named st (.readable st.quoted))
    (hc : c = .select ∨ c = .update ∨ c.isCondition = true)
    (h : d.compile e c ds = (d', .ok ())) : Readable st d' := by
  have hl := Expr.lawful_render he
  unfold Draft.compile at h
  split at h
  · rcases hc with rfl | rfl | hc
    · cases h
      exact ⟨hd.settings, hd.aliases⟩
    · cases h
    · cases c <;> first | cases hc; done | (cases h; exact hd)
  · split at h
    · rename_i d₁ hrun
      rw [hd.settings] at hrun
      rcases hc with rfl | rfl | hc
      · have hd₁ := hd.run hl.projection hrun
        cases h
        split
        · exact ⟨hd₁.settings, hd₁.aliases⟩
        · exact ⟨hd₁.settings, hd₁.aliases⟩
      · have hrows : Emits (.readable st.quoted) (fun _ _ _ => True)
            (emitted st e .update ds) := by
          intro s t s' hs hy
          obtain ⟨rows, s₁, hr, hy'⟩ := yields_bind.mp hy
          obtain ⟨hrows, rfl⟩ := yields_ofAttempt.mp hr
          exact emits_assignments_of_lawful (hl.rows _ _ rows hrows) _ t s' hs hy'
        have hd₁ := hd.run hrows hrun
        simp only [finish] at h
        split at h
        · cases h
        · cases h
          exact ⟨hd₁.settings, hd₁.aliases⟩
      · cases c <;> first | cases hc; done | (cases h; exact hd.run (hl.condition _) hrun)
    · rename_i hno
      exact absurd h (hno d' ·)

theorem Readable.clause {e : Expr} {c : Clause} {ds : List Direction} (hd : Readable st d)
    (he : e.Named st (.readable st.quoted))
    (hc : c = .select ∨ c = .update ∨ c.isCondition = true)
    (h : d.clause e c ds = .ok d') : Readable st d' := hd.compile he hc (clause_eq_ok h)

/-! ### What is written stays -/

theorem prefix_write (d : Draft) (t : Text) : d.text <+: (d.write t).text := List.prefix_append _ _

/-- A separator is only taken away from what was written last. -/
theorem prefix_trimSuffix {t u : Text} (hu : itemSeparator.length ≤ u.length) :
    t <+: Text.trimSuffix (t ++ u) itemSeparator := by
  unfold Text.trimSuffix
  split
  · have hlen : t.length ≤ (t ++ u).length - itemSeparator.length := by
      rw [List.length_append]
      omega
    exact List.prefix_take_iff.mpr ⟨List.prefix_append t u, hlen⟩
  · exact List.prefix_append t u

/-- A list of groups or orders only takes away from what was written behind its keyword. -/
theorem prefix_clause {e : Expr} {c : Clause} {ds : List Direction} {keyword : Text}
    (hk : itemSeparator.length ≤ keyword.length) (hc : c = .groupBy ∨ c = .orderBy)
    (h : (d.write keyword).clause e c ds = .ok d') : d.text <+: d'.text := by
  have h := clause_eq_ok h
  unfold Draft.compile at h
  split at h
  · rcases hc with rfl | rfl <;> (cases h; exact prefix_write d keyword)
  · split at h
    · rename_i d₁ hrun
      obtain ⟨t, s, -, rfl⟩ := run_eq_ok hrun
      have htrim : d.text <+: Text.trimSuffix (d.text ++ (keyword ++ t)) itemSeparator :=
        prefix_trimSuffix (by rw [List.length_append]; omega)
      rw [← List.append_assoc] at htrim
      rcases hc with rfl | rfl <;> (cases h; exact htrim)
    · rename_i hno
      exact absurd h (hno d' ·)

theorem prefix_conditions {keyword : Text} {conds : List Expr} {c : Clause}
    (hc : c.isCondition = true) (h : d.conditions keyword conds c = .ok d') :
    d.text <+: d'.text := by
  unfold conditions at h
  split at h
  · cases h
    exact List.prefix_rfl
  · obtain ⟨d₁, h₁, h⟩ := bind_eq_ok.mp h
    obtain ⟨t, s, rfl, -⟩ := compile_condition hc (clause_eq_ok h₁)
    cases h
    split
    · exact List.prefix_rfl
    · simp only [write, List.append_assoc]
      exact List.prefix_append _ _

end Draft

/-! ### Selections -/

namespace Select

open Draft

theorem prefix_writeOrders {os : List (Expr × List Direction)}
    (h : writeOrders d false os = .ok d') : d.text <+: d'.text := by
  induction os generalizing d with
  | nil =>
    cases h
    exact List.prefix_rfl
  | cons o os ih =>
    obtain ⟨e, ds⟩ := o
    rw [writeOrders] at h
    obtain ⟨d₁, h₁, h⟩ := bind_eq_ok.mp h
    exact (prefix_clause (by decide) (.inr rfl) h₁).trans (ih h)

theorem prefix_writeFirst {os : List (Expr × List Direction)}
    (h : writeOrders (d.write " ORDER BY ") true os = .ok d') : d.text <+: d'.text := by
  cases os with
  | nil =>
    cases h
    exact prefix_write d _
  | cons o os =>
    obtain ⟨e, ds⟩ := o
    rw [writeOrders] at h
    obtain ⟨d₁, h₁, h⟩ := bind_eq_ok.mp h
    exact (prefix_clause (by decide) (.inr rfl) h₁).trans (prefix_writeOrders h)

theorem prefix_writePage (s : Select) (d : Draft) : d.text <+: (s.writePage d).text := by
  unfold writePage
  split
  · simp only
    split
    · exact (prefix_write _ _).trans (prefix_write _ _)
    · exact prefix_write _ _
  · exact List.prefix_rfl

/-- The clauses of a selection behind its groups. -/
theorem prefix_writeTail {s : Select} (h : (do
      let d ← d.conditions " HAVING " s.havings .having
      let d ← if s.orders.isEmpty then .ok d
        else writeOrders (d.write " ORDER BY ") true s.orders
      return s.writePage d) = .ok d') : d.text <+: d'.text := by
  obtain ⟨d₁, h₁, h⟩ := bind_eq_ok.mp h
  refine (prefix_conditions rfl h₁).trans ?_
  split at h
  · obtain ⟨d₂, h₂, h⟩ := bind_eq_ok.mp h
    cases h₂
    cases h
    exact prefix_writePage s d₁
  · obtain ⟨d₂, h₂, h⟩ := bind_eq_ok.mp h
    cases h
    refine .trans ?_ (prefix_writePage s d₂)
    exact prefix_writeFirst h₂

theorem readable_joinRefs {js : List Join} {refs : List Text} (hd : Draft.Readable st d)
    (hj : ∀ j ∈ js, j.Named st (.readable st.quoted)) (h : joinRefs d js = .ok (refs, d')) :
    Draft.Readable st d' := by
  induction js generalizing d refs with
  | nil =>
    cases h
    exact hd
  | cons j js ih =>
    rw [joinRefs] at h
    obtain ⟨⟨e, name, d₁⟩, h₁, h⟩ := bind_eq_ok.mp h
    obtain ⟨⟨rest, d₂⟩, h₂, h⟩ := bind_eq_ok.mp h
    cases h
    exact ih (hd.source (hj j (by simp)).1 h₁) (fun j hj' => hj j (by simp [hj'])) h₂

theorem readable_writeJoins {js : List (Join × Text)} (hd : Draft.Readable st d)
    (hj : ∀ x ∈ js, x.1.Named st (.readable st.quoted)) (h : writeJoins d js = .ok d') :
    Draft.Readable st d' := by
  induction js generalizing d with
  | nil =>
    cases h
    exact hd
  | cons x js ih =>
    obtain ⟨j, ref⟩ := x
    have ih' : ∀ {d}, Draft.Readable st d → writeJoins d js = .ok d' → Draft.Readable st d' :=
      fun hd h => ih hd (fun x hx => hj x (by simp [hx])) h
    have next : ∀ {d : Draft} {n : Nat}, Draft.Readable st d →
        Draft.Readable st (if d.text.length = n then d.write "1 = 1" else d) := by
      intro d n hd
      split
      · exact hd.write _
      · exact hd
    rw [writeJoins] at h
    split at h
    · obtain ⟨d₁, h₁, h⟩ := bind_eq_ok.mp h
      cases h₁
      exact ih' (next (hd.write _)) h
    · obtain ⟨d₁, h₁, h⟩ := bind_eq_ok.mp h
      have hd₁ := (hd.write _).clause (hj (j, ref) (by simp)).2 (.inr (.inr rfl)) h₁
      exact ih' (next hd₁) h

/-- Where a selection writes its conditions. -/
theorem exists_conditions {s : Select} (hd : Draft.Readable st d)
    (hs : s.Named st (.readable st.quoted)) (h : s.write d = .ok d') :
    ∃ before after, Draft.Readable st before ∧
      before.conditions " WHERE " s.wheres .where_ = .ok after ∧ after.text <+: d'.text := by
  unfold Select.write at h
  split at h
  · cases h
  · obtain ⟨⟨e, name, d₁⟩, h₁, h⟩ := bind_eq_ok.mp h
    have hd₁ := hd.source hs.source h₁
    obtain ⟨⟨refs, d₂⟩, h₂, h⟩ := bind_eq_ok.mp h
    have hd₂ := readable_joinRefs hd₁ hs.joins h₂
    obtain ⟨d₃, h₃, h⟩ := bind_eq_ok.mp h
    have hd₃ := (hd₂.write _).clause hs.projection (.inl rfl) h₃
    obtain ⟨d₄, h₄, h⟩ := bind_eq_ok.mp h
    have hd₄ := readable_writeJoins (hd₃.write _)
      (fun x hx => hs.joins _ (List.of_mem_zip hx).1) h₄
    obtain ⟨d₅, h₅, h⟩ := bind_eq_ok.mp h
    refine ⟨d₄, d₅, hd₄, h₅, ?_⟩
    by_cases hg : s.groups.isEmpty = true
    · rw [if_pos hg] at h
      obtain ⟨d₆, h₆, h⟩ := bind_eq_ok.mp h
      cases h₆
      exact prefix_writeTail h
    · rw [if_neg hg] at h
      obtain ⟨d₆, h₆, h⟩ := bind_eq_ok.mp h
      exact (prefix_clause (by decide) (.inl rfl) h₆).trans (prefix_writeTail h)

end Select

/-! ### Guards -/

/-- The conditions that a transform adds for rows. Soft deletion guards selections only. -/
def Transform.guardsFor (isSelection : Bool) (rows : List Param) : Transform → List Expr
  | policy p => match p.conditions rows with
    | .ok conds => conds
    | .error _ => []
  | softDelete s => if isSelection then s.conditions rows else []
  | _ => []

namespace Statement

/-- The rows that a statement reads or changes under conditions. -/
def rows : Statement → List Param
  | select s | aggregate s _ _ => s.rows
  | insert _ => []
  | update s => s.target.toList
  | delete s => s.source.toList

/-- The conditions that a statement has of its own. -/
def wheres : Statement → List Expr
  | select s | aggregate s _ _ => s.wheres
  | insert _ => []
  | update s => s.wheres
  | delete s => s.wheres

def isSelection : Statement → Bool
  | select _ | aggregate .. => true
  | _ => false

def isInsertion : Statement → Bool
  | insert _ => true
  | _ => false

/-- The names of a statement with conditions are readable. -/
def Readable (st : Settings) : Statement → Prop
  | select s => s.Named st (.readable st.quoted)
  | aggregate s fn target =>
    Select.Named st (.readable st.quoted) { s with projection := Select.aggregateCall fn target }
  | insert _ => True
  | update s => ∀ p ∈ s.target, s.Named (s.settings p st) (.readable st.quoted)
  | delete s => s.Named (Delete.settings st) (.readable st.quoted)

end Statement

/-- The conditions that a transform adds to a statement. -/
def Transform.guards (s : Statement) (t : Transform) : List Expr := t.guardsFor s.isSelection s.rows

/-- The conditions that a transform adds to a statement have readable names. -/
def Transform.Readable (st : Settings) (s : Statement) (t : Transform) : Prop :=
  match s with
  | .select _ | .aggregate .. => t.Named st (.readable st.quoted)
  | .insert _ => True
  | .update s => ∀ p ∈ s.target, t.Named (s.settings p st) (.readable st.quoted)
  | .delete _ => t.Named (Delete.settings st) (.readable st.quoted)

/-- Transforms that only add guards add all of them. -/
theorem guards_of_transformAll {σ : Type} {f : σ → Transform → Except StatementError σ}
    (rows : σ → List Param) (wheres : σ → List Expr) {isSelection : Bool}
    (step : ∀ t s s', f s t = .ok s' →
      rows s' = rows s ∧ wheres s' = wheres s ++ t.guardsFor isSelection (rows s))
    {ts : List Transform} {s s' : σ} (h : transformAll f ts s = .ok s') :
    (∀ e ∈ wheres s, e ∈ wheres s') ∧
      ∀ t ∈ ts, ∀ e ∈ t.guardsFor isSelection (rows s), e ∈ wheres s' := by
  have hfold : ts.foldlM f s = .ok s' := by
    unfold transformAll at h
    split at h
    · rename_i hfold
      cases h
      exact hfold
    · cases h
  clear h
  induction ts generalizing s with
  | nil =>
    cases hfold
    exact ⟨fun _ he => he, nofun⟩
  | cons t ts ih =>
    rw [List.foldlM_cons] at hfold
    obtain ⟨s₁, h₁, hfold⟩ := bind_eq_ok.mp hfold
    obtain ⟨hrows, hwheres⟩ := step t s s₁ h₁
    obtain ⟨hkept, hguards⟩ := ih hfold
    rw [hwheres] at hkept
    rw [hrows] at hguards
    refine ⟨fun e he => hkept e (by simp [he]), fun t' ht e he => ?_⟩
    rcases List.mem_cons.mp ht with rfl | ht
    · exact hkept e (by simp [he])
    · exact hguards t' ht e he

theorem Policy.guardsFor_eq {p : Policy} {rows : List Param} {conds : List Expr}
    (h : p.conditions rows = .ok conds) (isSelection : Bool) :
    (Transform.policy p).guardsFor isSelection rows = conds := by
  simp only [Transform.guardsFor, h]

theorem Select.guards_transformAll {s s' : Select} {ts : List Transform}
    (h : transformAll Transform.select ts s = .ok s') : (∀ e ∈ s.wheres, e ∈ s'.wheres) ∧
      ∀ t ∈ ts, ∀ e ∈ t.guardsFor true s.rows, e ∈ s'.wheres := by
  refine guards_of_transformAll Select.rows Select.wheres ?_ h
  intro t s s' hs
  cases t with
  | identity =>
    cases hs
    exact ⟨rfl, (List.append_nil _).symm⟩
  | refuse => cases hs
  | softDelete d =>
    cases hs
    exact ⟨rfl, rfl⟩
  | policy p =>
    obtain ⟨conds, hconds, hs⟩ := bind_eq_ok.mp hs
    cases hs
    rw [Policy.guardsFor_eq hconds]
    exact ⟨rfl, rfl⟩

theorem Update.guards_transformAll {s s' : Update} {ts : List Transform}
    (h : transformAll Transform.update ts s = .ok s') : (∀ e ∈ s.wheres, e ∈ s'.wheres) ∧
      ∀ t ∈ ts, ∀ e ∈ t.guardsFor false s.target.toList, e ∈ s'.wheres := by
  refine guards_of_transformAll (fun s => s.target.toList) Update.wheres ?_ h
  intro t s s' hs
  cases t with
  | identity | softDelete =>
    cases hs
    exact ⟨rfl, (List.append_nil _).symm⟩
  | refuse => cases hs
  | policy p =>
    obtain ⟨conds, hconds, hs⟩ := bind_eq_ok.mp hs
    cases hs
    rw [Policy.guardsFor_eq hconds]
    exact ⟨rfl, rfl⟩

theorem Delete.guards_transformAll {s s' : Delete} {ts : List Transform}
    (h : transformAll Transform.delete ts s = .ok s') : (∀ e ∈ s.wheres, e ∈ s'.wheres) ∧
      ∀ t ∈ ts, ∀ e ∈ t.guardsFor false s.source.toList, e ∈ s'.wheres := by
  refine guards_of_transformAll (fun s => s.source.toList) Delete.wheres ?_ h
  intro t s s' hs
  cases t with
  | identity | softDelete =>
    cases hs
    exact ⟨rfl, (List.append_nil _).symm⟩
  | refuse => cases hs
  | policy p =>
    obtain ⟨conds, hconds, hs⟩ := bind_eq_ok.mp hs
    cases hs
    rw [Policy.guardsFor_eq hconds]
    exact ⟨rfl, rfl⟩

/-- A key condition is added to those that an update has. -/
theorem Update.wheres_keyed {s s' : Update} {e : Entity} {p : Param} (h : s.keyed e p = .ok s') :
    s'.target = s.target ∧ ∀ x ∈ s.wheres, x ∈ s'.wheres := by
  unfold Update.keyed at h
  split at h
  · rename_i hw _
    rw [hw]
    split at h
    · split at h
      · cases h
      · cases h
        exact ⟨rfl, nofun⟩
    · cases h
      exact ⟨rfl, nofun⟩
  · cases h
    exact ⟨rfl, fun _ hx => hx⟩

/-- Key conditions are added to those that a deletion has. -/
theorem Delete.wheres_keyed {s s' : Delete} {e : Entity} {p : Param} (h : s.keyed e p = .ok s') :
    s'.source = s.source ∧ ∀ x ∈ s.wheres, x ∈ s'.wheres := by
  unfold Delete.keyed at h
  split at h
  · cases h
    exact ⟨rfl, fun _ hx => hx⟩
  · obtain ⟨conds, -, h⟩ := bind_eq_ok.mp h
    cases h
    exact ⟨rfl, fun x hx => List.mem_append_left _ hx⟩

/-! ### Where conditions are written -/

/-- A statement writes its own conditions and those of its guards as one conjunction behind
`WHERE`. -/
structure Statement.Writes (s : Statement) (ts : List Transform) (d before after : Draft)
    (conds : List Expr) : Prop where
  conditions : before.conditions " WHERE " conds .where_ = .ok after
  text : after.text <+: d.text
  wheres : ∀ e ∈ s.wheres, e ∈ conds
  guards : ∀ t ∈ ts, ∀ e ∈ t.guards s, e ∈ conds

/-- The names in conditions and the aliases in a draft are readable. -/
structure Draft.ReadsNames (d : Draft) (conds : List Expr) : Prop where
  aliases : d.slate.aliases.Within (.readable d.settings.quoted)
  named : ∀ e ∈ conds, e.Named d.settings (.readable d.settings.quoted)

theorem Draft.Readable.readsNames {conds : List Expr} (hd : d.Readable st)
    (h : ∀ e ∈ conds, e.Named st (.readable st.quoted)) : d.ReadsNames conds := by
  obtain rfl := hd.settings
  exact ⟨hd.aliases, h⟩

namespace Statement

variable {ts : List Transform}

theorem writes_select {s : Select} (hs : s.Named st (.readable st.quoted))
    (hts : ∀ t ∈ ts, t.Named st (.readable st.quoted)) (h : s.compile ts st = .ok d) :
    ∃ before after conds, (select s).Writes ts d before after conds ∧ before.ReadsNames conds := by
  obtain ⟨s', h', h⟩ := bind_eq_ok.mp h
  have hs' := hs.transformAll hts h'
  obtain ⟨hwheres, hguards⟩ := Select.guards_transformAll h'
  obtain ⟨before, after, hb, hc, hp⟩ := Select.exists_conditions (Draft.readable_new st) hs' h
  exact ⟨before, after, s'.wheres, ⟨hc, hp, hwheres, hguards⟩, hb.readsNames hs'.wheres⟩

theorem writes_aggregate {s : Select} {fn : Clause} {target : Expr}
    (hs : Select.Named st (.readable st.quoted)
      { s with projection := Select.aggregateCall fn target })
    (hts : ∀ t ∈ ts, t.Named st (.readable st.quoted))
    (h : s.compileAggregate fn target ts st = .ok d) : ∃ before after conds,
      (aggregate s fn target).Writes ts d before after conds ∧ before.ReadsNames conds := by
  unfold Select.compileAggregate at h
  split at h
  · cases h
  · obtain ⟨s', h', h⟩ := bind_eq_ok.mp h
    have hs' := hs.transformAll_projection hts h'
    obtain ⟨hwheres, hguards⟩ := Select.guards_transformAll h'
    obtain ⟨before, after, hb, hc, hp⟩ := Select.exists_conditions (Draft.readable_new st) hs' h
    exact ⟨before, after, s'.wheres, ⟨hc, hp, hwheres, hguards⟩, hb.readsNames hs'.wheres⟩

theorem writes_update {s : Update} {p : Param} (hp : s.target = some p)
    (hs : s.Named (s.settings p st) (.readable st.quoted))
    (hts : ∀ t ∈ ts, t.Named (s.settings p st) (.readable st.quoted))
    (h : s.compile ts st = .ok d) : ∃ before after conds,
      (update s).Writes ts d before after conds ∧ before.ReadsNames conds := by
  unfold Update.compile at h
  rw [hp] at h
  obtain ⟨⟨e, name, d₁⟩, h₁, h⟩ := bind_eq_ok.mp h
  have hpn : ∀ q ∈ some p, q.Named (s.settings p st) (.readable st.quoted) := by
    rw [← hp]
    exact hs.target
  have hd₁ := (Draft.readable_new (s.settings p st)).source hpn h₁
  obtain ⟨s₁, hk, h⟩ := bind_eq_ok.mp h
  obtain ⟨hs₁, ha₁⟩ := hs.keyed (hpn p rfl) hk
  obtain ⟨s₂, ht, h⟩ := bind_eq_ok.mp h
  obtain ⟨hs₂, ha₂⟩ := hs₁.transformAll hts ht
  obtain ⟨hwheres, hguards⟩ := Update.guards_transformAll ht
  obtain ⟨d₂, h₂, h⟩ := bind_eq_ok.mp h
  rw [ha₂, ha₁] at h₂
  have hd₂ := (hd₁.write _).clause hs.assigned (.inr (.inl rfl)) h₂
  obtain ⟨htarget, hkept⟩ := Update.wheres_keyed hk
  rw [htarget] at hguards
  exact ⟨d₂, d, s₂.wheres, ⟨h, List.prefix_rfl, fun x hx => hwheres x (hkept x hx), hguards⟩,
    hd₂.readsNames hs₂.wheres⟩

theorem writes_delete {s : Delete} (hs : s.Named (Delete.settings st) (.readable st.quoted))
    (hts : ∀ t ∈ ts, t.Named (Delete.settings st) (.readable st.quoted))
    (h : s.compile ts st = .ok d) : ∃ before after conds,
      (delete s).Writes ts d before after conds ∧ before.ReadsNames conds := by
  unfold Delete.compile at h
  split at h
  · cases h
  · rename_i p hp
    obtain ⟨⟨e, name, d₁⟩, h₁, h⟩ := bind_eq_ok.mp h
    have hpn : ∀ q ∈ some p, q.Named (Delete.settings st) (.readable st.quoted) := by
      rw [← hp]
      exact hs.source
    have hd₁ := (Draft.readable_new (Delete.settings st)).source hpn h₁
    obtain ⟨s₁, hk, h⟩ := bind_eq_ok.mp h
    obtain ⟨s₂, ht, h⟩ := bind_eq_ok.mp h
    have hs₂ := (hs.keyed (hpn p rfl) hk).transformAll hts ht
    obtain ⟨hwheres, hguards⟩ := Delete.guards_transformAll ht
    obtain ⟨hsource, hkept⟩ := Delete.wheres_keyed hk
    rw [hsource] at hguards
    exact ⟨_, d, s₂.wheres, ⟨h, List.prefix_rfl, fun x hx => hwheres x (hkept x hx), hguards⟩,
      (hd₁.write _).readsNames hs₂.wheres⟩

/-- **Where a statement writes its conditions and its guards.** -/
theorem exists_writes {s : Statement} (hi : s.isInsertion = false) (hs : s.Readable st)
    (hts : ∀ t ∈ ts, t.Readable st s) (h : s.compile ts st = .ok d) : ∃ before after conds,
      s.Writes ts d before after conds ∧ before.ReadsNames conds := by
  cases s with
  | select s => exact writes_select hs hts h
  | aggregate s fn target => exact writes_aggregate hs hts h
  | insert s => cases hi
  | update s =>
    cases hp : s.target with
    | none =>
      simp only [Statement.compile, Update.compile, hp] at h
      cases h
    | some p => exact writes_update hp (hs p hp) (fun t ht => hts t ht p hp) h
  | delete s => exact writes_delete hs hts h

end Statement

/-! ### What conditions and guards say -/

theorem Draft.length_ownTexts? {c : Clause} {before conds : List Expr} {own : List Text}
    (h : d.ownTexts? c before conds = some own) : own.length = conds.length := by
  induction conds generalizing before own with
  | nil =>
    cases h
    rfl
  | cons e conds ih =>
    simp only [ownTexts?, Option.bind_eq_bind, Option.bind_eq_some_iff] at h
    obtain ⟨t, -, ts, hts, h⟩ := h
    cases h
    rw [List.length_cons, List.length_cons, ih hts]

/-- **When the conditions of a statement say what each of them says.** Conditions that compile one
by one compile together. Their text holds where the own texts of all of them hold, and the converse
is true if no bare `OR` stands beside an `AND`. Otherwise, if no atom stands twice, the text holds
somewhere where one of the own texts does not. A selection, update or deletion writes its own
conditions and those of policies and soft deletion as one such text behind `WHERE`. -/
theorem where_conjoins_iff (st : Settings) :
    (∀ (d : Draft) (c : Clause) (keyword : Text) (conds : List Expr) (own : List Text),
      c.isCondition = true → d.ReadsNames conds → d.ownTexts? c [] conds = some own →
      ∃ d' t, d.conditions keyword conds c = .ok d' ∧
        d'.text = d.text ++ (if t.isEmpty then [] else keyword ++ t) ∧
        Draft.Conjoins (d.isSeparate c [] conds) own t) ∧
    ∀ (s : Statement) (ts : List Transform) (d : Draft), s.isInsertion = false → s.Readable st →
      (∀ t ∈ ts, t.Readable st s) → s.compile ts st = .ok d →
      ∃ before after conds, s.Writes ts d before after conds ∧
        ∀ own, before.ownTexts? .where_ [] conds = some own →
          ∃ t, after.text = before.text ++ (if t.isEmpty then [] else " WHERE " ++ t) ∧
            Draft.Conjoins (before.isSeparate .where_ [] conds) own t ∧
            (before.isSeparate .where_ [] conds = true → ∀ v, v never = false →
              Sql.holds v t = true → ∀ tr ∈ ts, ∀ e ∈ tr.guards s,
                ∃ x, (e, x) ∈ conds.zip own ∧ Sql.holds v x = true) := by
  refine ⟨fun d c keyword conds own hc hn hown =>
    Draft.exists_conjoins keyword hc hn.named hn.aliases hown, ?_⟩
  intro s ts d hi hs hts h
  obtain ⟨before, after, conds, hw, hn⟩ := Statement.exists_writes hi hs hts h
  refine ⟨before, after, conds, hw, fun own hown => ?_⟩
  obtain ⟨d', t, hd', ht, hj⟩ :=
    Draft.exists_conjoins (c := .where_) " WHERE " rfl hn.named hn.aliases hown
  rw [hw.conditions] at hd'
  cases hd'
  refine ⟨t, ht, hj, fun hsep v hv hholds tr htr e he => ?_⟩
  obtain ⟨i, hconds, hget⟩ := List.getElem_of_mem (hw.guards tr htr e he)
  have hlen : i < own.length := by
    rw [Draft.length_ownTexts? hown]
    exact hconds
  have hzip : i < (conds.zip own).length := by
    rw [List.length_zip]
    omega
  refine ⟨own[i], ?_, hj.holds_own hsep v hv hholds _ (List.getElem_mem hlen)⟩
  rw [← hget, ← List.getElem_zip]
  exact List.getElem_mem hzip

/-! ### A guard beside a bare `OR` -/

namespace Sample

/-- An age, or else being active. -/
def agedOrActive : Expr := .binary .or (hasAge 1) isActive

/-- A row of customers that a policy is about. -/
def guardedRow : Param := ⟨2, "q", some customer⟩

/-- The policy that customers have a name. -/
def namePolicy : Transform :=
  .policy
    { rules := fun _ => .ok
        [.lambda (.binary .equal (.field guardedRow "Name") (.value (.string "x"))) [guardedRow]]
      registry := .standard }

/-- What a statement is compiled to, if it compiles. -/
def statementText? (s : Statement) (ts : List Transform) (st : Settings) : Option Text :=
  match s.compile ts st with
  | .ok d => some d.text
  | _ => none

end Sample

theorem Sample.compile_of_statementText? {s : Statement} {ts : List Transform} {t : Text}
    (h : statementText? s ts st = some t) : ∃ d, s.compile ts st = .ok d ∧ d.text = t := by
  unfold statementText? at h
  split at h
  · rename_i d hd
    cases h
    exact ⟨d, hd, rfl⟩
  · cases h

open Sample

theorem where_conjoins_iff_customers :
    (∃ d t, (Draft.new (.standard .sqlServer world)).conditions " WHERE "
        [agedOrActive, hasName "x"] .where_ = .ok d ∧
      Draft.Conjoins false ["c.age = @p1 OR c.active = 1", "c.name = @p2"] t) ∧
    ∃ d before after conds, (Statement.select (customersWith [agedOrActive])).compile
        [.softDelete (.standard .standard)] (.standard .sqlServer world) = .ok d ∧
      (Statement.select (customersWith [agedOrActive])).Writes
        [.softDelete (.standard .standard)] d before after conds := by
  have row := customerRow_readable .sqlServer
  have aged : agedOrActive.Named (.standard .sqlServer world) (.readable false) :=
    ⟨⟨row, trivial⟩, row⟩
  have named : (hasName "x").Named (.standard .sqlServer world) (.readable false) :=
    ⟨row, trivial⟩
  have select : (customersWith [agedOrActive]).Named (.standard .sqlServer world)
      (.readable false) := by
    refine ⟨?_, nofun, trivial, ?_, nofun, nofun, nofun⟩
    · rintro p ⟨⟩
      exact row
    · simpa [customersWith] using aged
  have own : (Draft.new (.standard .sqlServer world)).ownTexts? .where_ []
      [agedOrActive, hasName "x"] =
        some (["c.age = @p1 OR c.active = 1", "c.name = @p2"] : List Text) := by
    decide +kernel
  have separate : (Draft.new (.standard .sqlServer world)).isSeparate .where_ []
      [agedOrActive, hasName "x"] = false := by
    decide +kernel
  have text : statementText? (.select (customersWith [agedOrActive]))
      [.softDelete (.standard .standard)] (.standard .sqlServer world) = some
        ("SELECT * FROM customers AS c WHERE c.age = @p1 OR c.active = 1 AND c.deleted_at IS NULL" :
          Text) := by
    decide +kernel
  obtain ⟨hconditions, hstatement⟩ := where_conjoins_iff (.standard .sqlServer world)
  obtain ⟨d, hd, -⟩ := compile_of_statementText? text
  refine ⟨?_, ?_⟩
  · obtain ⟨d', t, hd', -, hj⟩ := hconditions _ .where_ " WHERE " _ _ rfl
      ⟨AliasTable.within_empty _, by simpa using ⟨aged, named⟩⟩ own
    rw [separate] at hj
    exact ⟨d', t, hd', hj⟩
  · obtain ⟨before, after, conds, hw, -⟩ := hstatement
      (.select (customersWith [agedOrActive])) [.softDelete (.standard .standard)] d rfl select
      (by simp [Transform.Readable, Transform.Named]) hd
    exact ⟨d, before, after, conds, hd, hw⟩

/-- **A row that meets the conditions of a statement without meeting its guard**: the row has the
age and not the name that the policy asks for. -/
theorem exists_where_without_guard :
    ∃ d, (Statement.select (customersWith [agedOrActive])).compile [namePolicy]
        (.standard .sqlServer world) = .ok d ∧
      d.text = "SELECT * FROM customers AS c WHERE c.age = @p1 OR c.active = 1 AND c.name = @p2" ∧
      (Draft.new (.standard .sqlServer world)).ownTexts? .where_ []
        (agedOrActive :: namePolicy.guards (.select (customersWith [agedOrActive]))) =
          some (["c.age = @p1 OR c.active = 1", "c.name = @p2"] : List Text) ∧
      ∃ v, v never = false ∧
        Sql.holds v "c.age = @p1 OR c.active = 1 AND c.name = @p2" = true ∧
        Sql.holds v "c.name = @p2" = false := by
  have text : statementText? (.select (customersWith [agedOrActive])) [namePolicy]
      (.standard .sqlServer world) = some
        ("SELECT * FROM customers AS c WHERE c.age = @p1 OR c.active = 1 AND c.name = @p2" :
          Text) := by
    decide +kernel
  obtain ⟨d, hd, ht⟩ := compile_of_statementText? text
  refine ⟨d, hd, ht, by decide +kernel, fun a => a = ("c.age = @p1" : Text), ?_⟩
  decide +kernel

end QueryTree
