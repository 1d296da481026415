import Mathlib.Data.List.Nodup
import QueryTree.Proofs.Denied
import QueryTree.Proofs.Escapes

/-!
# What holds in every session

A session keeps its entities, the table of each, the aliases that are bound and the statement that
is being built side by side, and every command that starts, joins or clears has to keep them in
step. That they are in step is an invariant of the moves that commands are made of: every move
keeps it, so it holds after every run, whichever of its lines were refused.

Two entities may have the same fields. Their types differ all the same, because the first field of
a type is tagged with the name of the entity, names are told apart when an entity is defined, and
different names are quoted differently in the tag.

## Main definitions

* `Declared.IsMarked`: types that carry the names of their entities
* `Session.Staged`: the invariant of all moves
* `Session.Coherent`: what follows from it in every session

## Main results

* `Session.Moves.staged`: every move keeps the invariant
* `Session.coherent_of_run`: every session that commands lead to is coherent
-/

namespace QueryTree

namespace Registry

/-- The table of a record without a name is the one it is bound to. -/
theorem table_record {r : Registry} {fields : List (Field Ty)} {table : Text} :
    r.table (some (.record fields)) = .ok table ↔
      r.tables.lookup (.record fields) = some table := by
  have hindirect : (Ty.record fields).indirect = .record fields := rfl
  cases hl : r.tables.lookup (.record fields) with
  | none => simp [Registry.table, entity, hindirect, isEntityType, isBound, hl, Except.map]
  | some t =>
    simp [Registry.table, entity, hindirect, isEntityType, isBound, tableOf, hl, Except.map]

theorem table_register_self (r : Registry) (fields : List (Field Ty)) (table : Text) :
    (r.register (some (.record fields)) table).table (some (.record fields)) = .ok table := by
  rw [table_record]
  exact List.lookup_cons_self

theorem lookup_filter_ne {tables : List (Ty × Text)} {t u : Ty} (h : u ≠ t) :
    (tables.filter fun b => b.1 ≠ t).lookup u = tables.lookup u := by
  induction tables with
  | nil => rfl
  | cons b tables ih =>
    by_cases hb : b.1 = t
    · have hu : (u == b.1) = false := by simpa [hb] using h
      rw [List.filter_cons_of_neg (by simpa using hb), ih, List.lookup_cons, hu]
    · rw [List.filter_cons_of_pos (by simpa using hb), List.lookup_cons, List.lookup_cons, ih]

/-- Binding another type leaves the table of a record alone. -/
theorem table_register_of_ne {r : Registry} {t : Ty} {fields : List (Field Ty)} {table own : Text}
    (ht : t.indirect ≠ .record fields) (h : r.table (some (.record fields)) = .ok own) :
    (r.register (some t) table).table (some (.record fields)) = .ok own := by
  rw [table_record] at h ⊢
  have hother : (Ty.record fields == t.indirect) = false := by simpa using ht.symm
  show ((t.indirect, table) :: r.tables.filter fun b => b.1 ≠ t.indirect).lookup _ = _
  rw [List.lookup_cons, hother, lookup_filter_ne ht.symm, h]

end Registry

namespace Shell

variable {s s' s₁ : Session} {e : Declared} {d : EntityDef} {p : Param}
  {name args t : Text}

/-! ### Types that carry names -/

/-- The first field of the type is tagged with the name of the entity. -/
def Declared.IsMarked (e : Declared) : Prop :=
  ∃ fields, e.type = .record (⟨(markerField e.name).1, (markerField e.name).2.1,
    (markerField e.name).2.2, false, true⟩ :: fields)

theorem declare_eq_ok (h : d.declare = .ok e) : e.name = d.name ∧ e.IsMarked := by
  unfold EntityDef.declare at h
  split at h
  · cases h
  · split at h
    · cases h
    · rename_i ms _ t ht
      cases h
      refine ⟨rfl, ?_⟩
      unfold Ty.recordOf? at ht
      dsimp only at ht
      split at ht
      · cases ht
        exact ⟨_, rfl⟩
      · cases ht

/-- Entities with the same type have the same name. -/
theorem Declared.IsMarked.name_eq {e e' : Declared} (h : e.IsMarked) (h' : e'.IsMarked)
    (ht : e.type = e'.type) : e.name = e'.name := by
  obtain ⟨fields, hf⟩ := h
  obtain ⟨fields', hf'⟩ := h'
  rw [hf, hf'] at ht
  have htag : (markerField e.name).2.2 = (markerField e'.name).2.2 :=
    congrArg Field.tag (List.cons.inj (Ty.record.inj ht)).1
  exact Text.quoted_injective (List.append_cancel_left htag)

namespace Session

/-! ### The invariant -/

/-- Entities are told apart by their names, which their types carry, and have their own tables. -/
structure Catalogued (s : Session) : Prop where
  names : s.entities.Pairwise fun e e' => e.name ≠ e'.name
  marked : ∀ e ∈ s.entities, e.IsMarked
  tables : ∀ e ∈ s.entities, s.registry.table (some e.type) = .ok e.table

/-- Aliases stand for different rows, each of the type of its entity. -/
structure Aliased (s : Session) : Prop where
  names : (s.aliases.map (·.1)).Nodup
  ids : (s.aliases.map (·.2.1.id)).Nodup
  older : ∀ a ∈ s.aliases, a.2.1.id < s.fresh
  bound : ∀ a ∈ s.aliases, a.2.1.name = a.1 ∧ a.2.1.type = some a.2.2.type ∧ a.2.2 ∈ s.entities

/-- The entities, the aliases and the statement are in step. -/
structure Staged (s : Session) : Prop where
  catalogued : s.Catalogued
  aliased : s.Aliased
  rows : ∀ q ∈ s.pending, q.rows = s.aliases.map fun a => some a.2.1
  inserted : ∀ q ∈ s.pending, ∀ r ∈ q.inserted, ∃ p, r = some p ∧
    ∃ e ∈ s.entities, p.type = some e.type

theorem staged_new (d : Dialect) : (new d).Staged where
  catalogued := ⟨.nil, nofun, nofun⟩
  aliased := ⟨.nil, .nil, nofun, nofun⟩
  rows := nofun
  inserted := nofun

theorem Staged.of_sameScene (hs : s.Staged) (h : s.SameScene s') : s'.Staged := by
  obtain ⟨hentities, hregistry, haliases, hpending, hfresh⟩ := h
  refine ⟨⟨?_, ?_, ?_⟩, ⟨?_, ?_, ?_, ?_⟩, ?_, ?_⟩
  · rw [hentities]
    exact hs.catalogued.names
  · rw [hentities]
    exact hs.catalogued.marked
  · rw [hentities, hregistry]
    exact hs.catalogued.tables
  · rw [haliases]
    exact hs.aliased.names
  · rw [haliases]
    exact hs.aliased.ids
  · rw [haliases]
    exact fun a ha => Nat.lt_of_lt_of_le (hs.aliased.older a ha) hfresh
  · rw [haliases, hentities]
    exact hs.aliased.bound
  · rw [haliases, hpending]
    exact hs.rows
  · rw [hentities, hpending]
    exact hs.inserted

theorem Staged.cleared (hs : s.Staged) : s.cleared.Staged where
  catalogued := ⟨hs.catalogued.names, hs.catalogued.marked, hs.catalogued.tables⟩
  aliased := ⟨.nil, .nil, nofun, nofun⟩
  rows := nofun
  inserted := nofun

/-- A new alias stands for a row that no other alias stands for. -/
theorem Aliased.bind (hs : s.Aliased) (he : e ∈ s.entities) (h : s.bind e name = .ok (p, s₁)) :
    s₁.Aliased := by
  obtain ⟨hfree, hp, hs₁⟩ := bind_eq h
  have hname : name ∉ s.aliases.map (·.1) := by
    intro hmem
    obtain ⟨a, ha, rfl⟩ := List.mem_map.mp hmem
    simpa using List.lookup_eq_none_iff.mp hfree a ha
  subst hp
  subst hs₁
  refine ⟨?_, ?_, fun a ha => ?_, fun a ha => ?_⟩
  · rw [List.map_append, List.nodup_append]
    refine ⟨hs.names, List.nodup_singleton _, fun x hx y hy => ?_⟩
    rw [List.mem_singleton.mp hy]
    rintro rfl
    exact hname hx
  · rw [List.map_append, List.nodup_append]
    refine ⟨hs.ids, List.nodup_singleton _, fun x hx y hy => ?_⟩
    obtain ⟨a, ha, rfl⟩ := List.mem_map.mp hx
    rw [List.mem_singleton.mp hy]
    exact Nat.ne_of_lt (hs.older a ha)
  · rcases List.mem_append.mp ha with ha | ha
    · exact Nat.lt_succ_of_lt (hs.older a ha)
    · rw [List.mem_singleton.mp ha]
      exact Nat.lt_succ_self _
  · rcases List.mem_append.mp ha with ha | ha
    · exact hs.bound a ha
    · rw [List.mem_singleton.mp ha]
      exact ⟨rfl, rfl, he⟩

/-- An entity whose name is new gets a type and a table of its own. -/
theorem Catalogued.define (hs : s.Catalogued) (hnew : s.entity? d.name = none)
    (hd : d.declare = .ok e) :
    Catalogued { s with
      entities := s.entities ++ [e]
      registry := s.registry.register (some e.type) e.table } := by
  obtain ⟨hname, hmarked⟩ := declare_eq_ok hd
  have hother : ∀ e' ∈ s.entities, e'.name ≠ e.name := by
    rintro e' he' heq
    have hdiffers := List.find?_eq_none.mp hnew e' he'
    rw [heq, hname] at hdiffers
    exact hdiffers (by simp)
  refine ⟨?_, fun e' he' => ?_, fun e' he' => ?_⟩
  · rw [List.pairwise_append]
    refine ⟨hs.names, List.pairwise_singleton _ _, fun e' he' x hx => ?_⟩
    rw [List.mem_singleton.mp hx]
    exact hother e' he'
  · rcases List.mem_append.mp he' with he' | he'
    · exact hs.marked e' he'
    · rwa [List.mem_singleton.mp he']
  · rcases List.mem_append.mp he' with he' | he'
    · obtain ⟨fields, hfields⟩ := hs.marked e' he'
      have htype : e.type ≠ e'.type := fun ht =>
        hother e' he' (hmarked.name_eq (hs.marked e' he') ht).symm
      have htable := hs.tables e' he'
      rw [hfields] at htable htype ⊢
      refine Registry.table_register_of_ne ?_ htable
      obtain ⟨own, hown⟩ := hmarked
      rw [hown] at htype ⊢
      exact htype
    · rw [List.mem_singleton.mp he']
      obtain ⟨own, hown⟩ := hmarked
      rw [hown]
      exact Registry.table_register_self _ _ _

/-- **Every move keeps the entities, the aliases and the statement in step.** -/
theorem Moves.staged (h : s.Moves s') (hs : s.Staged) : s'.Staged := by
  induction h with
  | settles _ _ h => exact hs.of_sameScene h
  | clears => exact hs.cleared
  | @defines s d e hnew hd =>
    have hkept : ∀ {e' : Declared}, e' ∈ s.entities → e' ∈ s.entities ++ [e] :=
      List.mem_append_left [e]
    refine ⟨hs.catalogued.define hnew hd, ⟨hs.aliased.names, hs.aliased.ids, hs.aliased.older,
      fun a ha => ?_⟩, hs.rows, fun q hq r hr => ?_⟩
    · obtain ⟨hname, htype, he⟩ := hs.aliased.bound a ha
      exact ⟨hname, htype, hkept he⟩
    · obtain ⟨p, hp, e', he', htype⟩ := hs.inserted q hq r hr
      exact ⟨p, hp, e', hkept he', htype⟩
  | starts he hempty hbind hrows hinserted _ =>
    have haliased := hs.aliased.bind he hbind
    obtain ⟨-, rfl, rfl⟩ := bind_eq hbind
    refine ⟨⟨hs.catalogued.names, hs.catalogued.marked, hs.catalogued.tables⟩,
      ⟨haliased.names, haliased.ids, haliased.older, haliased.bound⟩, fun q hq => ?_,
      fun q hq r hr => ?_⟩
    · cases hq
      rw [hrows, hempty]
      rfl
    · cases hq
      rw [hinserted] at hr
      cases hr
  | @inserts s e he hempty values =>
    refine ⟨⟨hs.catalogued.names, hs.catalogued.marked, hs.catalogued.tables⟩,
      ⟨hs.aliased.names, hs.aliased.ids, fun a ha => Nat.lt_succ_of_lt (hs.aliased.older a ha),
        hs.aliased.bound⟩, fun q hq => ?_, fun q hq r hr => ?_⟩
    · cases hq
      show [] = s.aliases.map _
      rw [hempty]
      rfl
    · cases hq
      rw [List.mem_singleton.mp hr]
      exact ⟨_, rfl, _, he, rfl⟩
  | @joins s s₁ e name p q he hq hbind kind on =>
    have haliased := hs.aliased.bind he hbind
    have hrows := hs.rows _ hq
    obtain ⟨-, rfl, rfl⟩ := bind_eq hbind
    refine ⟨⟨hs.catalogued.names, hs.catalogued.marked, hs.catalogued.tables⟩,
      ⟨haliased.names, haliased.ids, haliased.older, haliased.bound⟩, fun q' hq' => ?_,
      fun q' hq' r hr => ?_⟩
    · cases hq'
      show _ = (s.aliases ++ [_]).map _
      rw [List.map_append, ← hrows]
      simp [Pending.rows, Select.addJoin]
    · cases hq'
      cases hr
  | alters hq hrows hinserted _ =>
    refine ⟨⟨hs.catalogued.names, hs.catalogued.marked, hs.catalogued.tables⟩,
      ⟨hs.aliased.names, hs.aliased.ids, hs.aliased.older, hs.aliased.bound⟩, fun q' hq' => ?_,
      fun q' hq' => ?_⟩
    · cases hq'
      rw [hrows]
      exact hs.rows _ hq
    · cases hq'
      rw [hinserted]
      exact hs.inserted _ hq
  | trans _ _ ih ih' => exact ih' (ih hs)

/-- The plugins are not part of the invariant. -/
theorem sameScene_softDelete (h : s.softDelete args = .ok (s', t)) : s.SameScene s' := by
  unfold softDelete at h
  split at h
  · split at h
    · cases h
      exact ⟨rfl, rfl, rfl, rfl, Nat.le_refl _⟩
    · cases h
  · obtain ⟨⟨rule, status⟩, -, h⟩ := bind_eq_ok.mp h
    cases h
    exact ⟨rfl, rfl, rfl, rfl, Nat.le_refl _⟩

theorem sameScene_addFilter {condition : Text} (h : s.addFilter e condition = .ok (s', t)) :
    s.SameScene s' := by
  obtain ⟨x, -, h⟩ := bind_eq_ok.mp h
  cases h
  exact ⟨rfl, rfl, rfl, rfl, Nat.le_succ _⟩

theorem sameScene_policy (h : s.policy args = .ok (s', t)) : s.SameScene s' := by
  unfold policy at h
  extract_lets other at h
  have filter : ∀ words, other words = .ok (s', t) → s.SameScene s' := by
    intro words hw
    simp only [other] at hw
    split at hw
    · obtain ⟨e, -, hw⟩ := bind_eq_ok.mp hw
      exact sameScene_addFilter hw
    · cases hw
  split at h
  · rename_i word _
    split at h
    · cases h
      exact ⟨rfl, rfl, rfl, rfl, Nat.le_refl _⟩
    · exact filter [word] h
  · rename_i word name _
    split at h
    · obtain ⟨e, -, h⟩ := bind_eq_ok.mp h
      cases h
      exact ⟨rfl, rfl, rfl, rfl, Nat.le_refl _⟩
    · exact filter [word, name] h
  · exact filter _ h

/-- A line moves a session, or leaves its scene alone. -/
theorem moves_or_sameScene {line : Text} {o : Outcome} (h : (s.runLine line).CanEnd o) :
    s.Moves o.session ∨ s.SameScene o.session := by
  unfold Session.runLine at h
  split at h
  · cases h
    exact .inl (.refl s)
  · cases h
    exact .inl (.refl s)
  · rename_i c _
    obtain ⟨verb, args⟩ := c
    by_cases hsoft : verb = .softDelete
    · subst hsoft
      cases h
      cases hstop : s.softDelete args with
      | error => exact .inl (.refl s)
      | ok x => exact .inr (sameScene_softDelete hstop)
    · by_cases hpolicy : verb = .policy
      · subst hpolicy
        cases h
        cases hstop : s.policy args with
        | error => exact .inl (.refl s)
        | ok x => exact .inr (sameScene_policy hstop)
      · exact .inl (moves_run hsoft hpolicy h)

theorem Staged.runLine {line : Text} {o : Outcome} (hs : s.Staged)
    (h : (s.runLine line).CanEnd o) : o.session.Staged :=
  (moves_or_sameScene h).elim (·.staged hs) hs.of_sameScene

theorem Staged.run {xs : List Step} (hs : s.Staged) (h : Run s xs s') : s'.Staged :=
  h.induction (fun x _ hx => hx.runLine x.carried) hs

/-! ### Sessions that commands lead to -/

/-- The entities, the aliases and the statement of a session belong together. -/
structure Coherent (s : Session) : Prop where
  /-- An alias stands for one row and one entity, which is defined and has the type of the row. -/
  aliases : (s.aliases.map (·.1)).Nodup ∧ ∀ name p e, s.resolve name = .ok (p, e) →
    p.name = name ∧ p.type = some e.type ∧ e ∈ s.entities
  /-- The rows of a selection are those that aliases stand for, and no row occurs twice. -/
  selection : ∀ q, s.pending = some (.select q) →
    q.source :: q.joins.map (·.row) = (s.aliases.map fun a => some a.2.1) ∧
      (s.aliases.map (·.2.1.id)).Nodup
  /-- Entities have different types. -/
  types : (s.entities.map (·.type)).Nodup
  /-- The registry maps each entity to its own table. -/
  tables : ∀ e ∈ s.entities, s.registry.table (some e.type) = .ok e.table
  /-- The row that an insertion is about has the type of exactly one entity. -/
  target : ∀ q, s.pending = some (.insert q) → ∃ p, q.target = some p ∧
    ∃! e, e ∈ s.entities ∧ p.type = some e.type
  /-- No row of a statement is missing. -/
  given : ∀ q, s.pending = some q → none ∉ q.rows ++ q.inserted
  /-- The entity that further values are for is found. -/
  values : ∀ args, s.values args ≠ .fault

theorem Catalogued.types (hs : s.Catalogued) : (s.entities.map (·.type)).Nodup :=
  List.pairwise_map.mpr <| hs.names.imp_of_mem fun he he' hname htype =>
    hname ((hs.marked _ he).name_eq (hs.marked _ he') htype)

/-- Further values are only refused, if at all. -/
theorem Staged.values_ne_fault (hs : s.Staged) (args : Text) : s.values args ≠ .fault := by
  unfold values
  split
  · rename_i q hq
    obtain ⟨p, hp, e, he, htype⟩ := hs.inserted _ hq q.target (List.mem_singleton_self _)
    split
    · rename_i hnone
      have hmissed := List.find?_eq_none.mp hnone e he
      rw [hp] at hmissed
      exact absurd (by simpa using htype) hmissed
    · split
      · nofun
      · nofun
  · nofun

theorem Staged.coherent (hs : s.Staged) : s.Coherent where
  aliases := by
    refine ⟨hs.aliased.names, fun name p e h => ?_⟩
    unfold resolve at h
    split at h
    · rename_i hfound
      cases h
      exact hs.aliased.bound _ (AliasTable.mem_of_lookup hfound)
    · cases h
  selection q hq := ⟨hs.rows _ hq, hs.aliased.ids⟩
  types := hs.catalogued.types
  tables := hs.catalogued.tables
  target q hq := by
    obtain ⟨p, hp, e, he, htype⟩ := hs.inserted _ hq q.target (List.mem_singleton_self _)
    refine ⟨p, hp, e, ⟨he, htype⟩, fun e' ⟨he', htype'⟩ => ?_⟩
    exact List.inj_on_of_nodup_map hs.catalogued.types he' he
      (Option.some.inj (htype'.symm.trans htype))
  given q hq := by
    intro hmem
    rcases List.mem_append.mp hmem with hmem | hmem
    · rw [hs.rows q hq] at hmem
      simp at hmem
    · obtain ⟨p, hp, -⟩ := hs.inserted q hq none hmem
      cases hp
  values := hs.values_ne_fault

/-- **Every session that commands lead to is coherent**, whichever of them were refused. -/
theorem coherent_of_run {d₀ : Dialect} {xs : List Step} (h : Run (.new d₀) xs s) : s.Coherent :=
  ((staged_new d₀).run h).coherent

end Session

end Shell

end QueryTree
