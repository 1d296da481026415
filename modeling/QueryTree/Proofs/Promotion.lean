import Mathlib.Data.List.Induction
import QueryTree.Mapping.Registry
import QueryTree.Sample.Types
import QueryTree.Type.Member

/-!
# Promoted members

A name stands for the field at the shortest path, through embedded records, to a field of the name,
provided that no other path to one is as short. The search for it goes level by level and leaves
out records that it has been to, and marks records that one level holds more than once; what it
finds is nevertheless decided by the paths alone.

The columns of a record follow the fields in order, and of two fields with one name the first that
is met has the column. That field is the member of its name exactly if every other path to a field
of the name is longer. A record that embeds another one before a field of its own can have it
otherwise: the column is then that of a field which the name does not stand for.

## Main definitions

* `Ty.Leads`, `Ty.Holds`: paths through embedded records, and paths to fields
* `Ty.Selects`: the only shortest path to a field of a name
* `Ty.Frontier`, `Ty.Merged`: what is known of a level before and after its records are merged

## Main results

* `Ty.member?_eq_some_iff`: the field that a name stands for
* `Mapping.holds_of_mem_columnsOf`: the path of a column leads to its member
* `Registry.column_path_eq_member_path_iff`: when a column is that of the member of its name
* `Registry.exists_column_unlike_member`: records with a column that is not
-/

namespace QueryTree

namespace Ty

/-! ### Paths -/

/-- Records have fields, and times. -/
theorem under_of_ownFields? {t : Ty} {fs : List (Field Ty)} (h : t.ownFields? = some fs) :
    t.under = .record fs ∨ t.under = .time ∧ fs = timeFields := by
  rw [ownFields?.eq_def] at h
  split at h
  · rename_i hu
    exact .inl (by rw [hu, Option.some.inj h])
  · rename_i hu
    exact .inr ⟨hu, (Option.some.inj h).symm⟩
  · cases h

/-- The type behind a pointer, if it is one. -/
def behindPtr : Ty → Ty
  | ptr t => t
  | t => t

/-- The record type whose fields a field lends, behind a pointer or not. -/
def lent? (f : Field Ty) : Option Ty :=
  if f.embedded && (behindPtr f.type).ownFields?.isSome then some (behindPtr f.type) else none

/-- A path of fields that lend theirs leads from a type to a record type. -/
inductive Leads (t : Ty) : List Nat → Ty → Prop
  | nil : Leads t [] t
  | snoc {path : List Nat} {u v : Ty} {i : Nat} {f : Field Ty} (h : Leads t path u)
    (hf : u.ownFields[i]? = some f) (hv : lent? f = some v) : Leads t (path ++ [i]) v

/-- A path leads to a field of a name. -/
def Holds (t : Ty) (name : Text) (path : List Nat) (f : Field Ty) : Prop :=
  ∃ front u i, path = front ++ [i] ∧ t.Leads front u ∧ u.ownFields[i]? = some f ∧ f.name = name

/-- A path to a field of a name such that all other paths to one are longer. -/
def Selects (t : Ty) (name : Text) (path : List Nat) (f : Field Ty) : Prop :=
  t.Holds name path f ∧
    ∀ path' f', t.Holds name path' f' → path' = path ∨ path.length < path'.length

variable {t u v : Ty} {name : Text} {path path' : List Nat} {f f' : Field Ty} {k : Nat}

theorem leads_nil (h : t.Leads [] u) : u = t := by
  generalize hp : [] = p at h
  cases h with
  | nil => rfl
  | snoc => simp at hp

theorem leads_snoc {i : Nat} (h : t.Leads (path ++ [i]) v) :
    ∃ u f, t.Leads path u ∧ u.ownFields[i]? = some f ∧ lent? f = some v := by
  generalize hp : path ++ [i] = p at h
  cases h with
  | nil => simp at hp
  | snoc h hf hv =>
    obtain ⟨rfl, hi⟩ := List.append_inj' hp rfl
    cases hi
    exact ⟨_, _, h, hf, hv⟩

/-- A path leads to one type. -/
theorem Leads.unique (h : t.Leads path u) (h' : t.Leads path v) : u = v := by
  induction h generalizing v with
  | nil => exact (leads_nil h').symm
  | snoc _ hf hv ih =>
    obtain ⟨u', f', h', hf', hv'⟩ := leads_snoc h'
    cases ih h'
    cases hf.symm.trans hf'
    exact Option.some.inj (hv.symm.trans hv')

/-- A path leads to one field. -/
theorem Holds.unique (h : t.Holds name path f) (h' : t.Holds name path f') : f = f' := by
  obtain ⟨front, u, i, rfl, hu, hf, -⟩ := h
  obtain ⟨front', u', i', heq, hu', hf', -⟩ := h'
  obtain ⟨rfl, hi⟩ := List.append_inj' heq rfl
  cases hi
  cases hu.unique hu'
  exact Option.some.inj (hf.symm.trans hf')

theorem Selects.unique (h : t.Selects name path f) (h' : t.Selects name path' f') :
    path = path' ∧ f = f' := by
  rcases h.2 _ _ h'.1 with rfl | hlt
  · exact ⟨rfl, h.1.unique h'.1⟩
  · rcases h'.2 _ _ h.1 with rfl | hlt'
    · exact ⟨rfl, h.1.unique h'.1⟩
    · omega

/-- Only record types have paths to fields. -/
theorem Holds.isSome_ownFields? (h : t.Holds name path f) : t.ownFields?.isSome = true := by
  obtain ⟨front, u, i, rfl, hu, hget, -⟩ := h
  have hne : u.ownFields ≠ [] := List.ne_nil_of_mem (List.mem_of_getElem? hget)
  have hroot : t.ownFields ≠ [] := by
    clear hget
    induction hu with
    | nil => exact hne
    | snoc _ hf _ ih => exact ih (List.ne_nil_of_mem (List.mem_of_getElem? hf))
  rw [Option.isSome_iff_ne_none]
  intro hnone
  exact hroot (by rw [ownFields, hnone, Option.getD_none])

/-- A path below an embedded field is one below the record. -/
theorem Leads.cons {i : Nat} (hf : t.ownFields[i]? = some f) (hv : lent? f = some v)
    (h : v.Leads path u) : t.Leads (i :: path) u := by
  induction h with
  | nil => exact Leads.nil.snoc hf hv
  | snoc _ hf' hv' ih => exact ih.snoc hf' hv'

theorem Holds.cons {i : Nat} (hf : t.ownFields[i]? = some f) (hv : lent? f = some v)
    (h : v.Holds name path f') : t.Holds name (i :: path) f' := by
  obtain ⟨front, u, j, rfl, hu, hget, hname⟩ := h
  exact ⟨i :: front, u, j, rfl, hu.cons hf hv, hget, hname⟩

/-! ### Depth -/

theorem depth_under (t : Ty) : t.under.depth = t.depth := by
  induction t using Ty.under.induct with
  | case1 _ t ih => rw [under, depth, ih]
  | case2 t h => rw [under.eq_2 t h]

theorem depth_le_depthFields {fs : List (Field Ty)} (h : f ∈ fs) :
    f.type.depth ≤ depthFields fs := by
  induction fs with
  | nil => cases h
  | cons g fs ih =>
    obtain ⟨n, u, tag, e, x⟩ := g
    rw [depthFields]
    rcases List.mem_cons.mp h with rfl | h
    · exact Nat.le_max_left _ _
    · exact Nat.le_trans (ih h) (Nat.le_max_right _ _)

/-- A record lies deeper than what is embedded in it. -/
theorem depth_lt_of_mem (h : f ∈ u.ownFields) : f.type.depth < u.depth := by
  rw [ownFields, ownFields?.eq_def] at h
  split at h
  · rename_i fs hu
    rw [← depth_under u, hu, depth]
    exact Nat.lt_succ_of_le (depth_le_depthFields h)
  · rename_i hu
    rw [← depth_under u, hu, depth]
    revert f
    decide
  · cases h

theorem depth_behindPtr (t : Ty) : (behindPtr t).depth = t.depth := by
  cases t <;> rfl

theorem lent?_eq_some_iff : lent? f = some v ↔
    f.embedded = true ∧ v.ownFields?.isSome = true ∧ behindPtr f.type = v := by
  rw [lent?, Option.ite_none_right_eq_some, Bool.and_eq_true, Option.some.injEq]
  constructor
  · rintro ⟨⟨he, hfields⟩, rfl⟩
    exact ⟨he, hfields, rfl⟩
  · rintro ⟨he, hfields, rfl⟩
    exact ⟨⟨he, hfields⟩, rfl⟩

theorem depth_lent (h : lent? f = some v) : v.depth = f.type.depth := by
  rw [← (lent?_eq_some_iff.mp h).2.2, depth_behindPtr]

theorem Leads.depth (h : t.Leads path u) : path.length + u.depth ≤ t.depth := by
  induction h with
  | nil => simp
  | snoc _ hf hv ih =>
    have hlt := depth_lt_of_mem (List.mem_of_getElem? hf)
    rw [← depth_lent hv] at hlt
    rw [List.length_append, List.length_singleton]
    omega

theorem Holds.length_le (h : t.Holds name path f) : path.length ≤ t.depth := by
  obtain ⟨front, u, i, rfl, hu, hf, -⟩ := h
  have hlt := depth_lt_of_mem (List.mem_of_getElem? hf)
  have hle := hu.depth
  rw [List.length_append, List.length_singleton]
  omega

/-! ### Levels -/

/-- Two paths of one length lead to the type. -/
def Twice (t : Ty) (k : Nat) (u : Ty) : Prop :=
  ∃ path path', path ≠ path' ∧ path.length = k ∧ path'.length = k ∧ t.Leads path u ∧ t.Leads path' u

/-- A level holds the type with a mark, or on two paths. -/
def Doubled (level : List Reached) (u : Ty) : Prop :=
  (∃ r ∈ level, r.type = u ∧ r.repeated = true) ∨
    ∃ r ∈ level, ∃ r' ∈ level, r.path ≠ r'.path ∧ r.type = u ∧ r'.type = u

/-- What is known of the records on paths of length `k` when all shorter paths have been searched
without success, before they are merged. -/
structure Frontier (t : Ty) (name : Text) (k : Nat) (seen : List Ty) (level : List Reached) :
    Prop where
  leads : ∀ r ∈ level, t.Leads r.path r.type ∧ r.path.length = k
  paths : level.Pairwise fun r r' => r.path ≠ r'.path
  flags : ∀ r ∈ level, r.repeated = true → t.Twice k r.type
  twice : ∀ u, u ∉ seen → t.Twice k u → Doubled level u
  covers : ∀ path u, t.Leads path u → path.length = k → u ∈ seen ∨ u ∈ level.map (·.type)
  barren : ∀ u ∈ seen, ∀ f ∈ u.ownFields, f.name ≠ name
  closed : ∀ u ∈ seen, ∀ f ∈ u.ownFields, ∀ v, lent? f = some v →
    v ∈ seen ∨ v ∈ level.map (·.type)
  above : ∀ path u, t.Leads path u → path.length < k → ∀ f ∈ u.ownFields, f.name ≠ name

/-- The same after they are merged: every record is there once, and its mark is right. -/
structure Merged (t : Ty) (name : Text) (k : Nat) (seen : List Ty) (level : List Reached) :
    Prop where
  leads : ∀ r ∈ level, t.Leads r.path r.type ∧ r.path.length = k
  fresh : ∀ r ∈ level, r.type ∉ seen
  types : level.Pairwise fun r r' => r.type ≠ r'.type
  flags : ∀ r ∈ level, r.repeated = true ↔ t.Twice k r.type
  covers : ∀ path u, t.Leads path u → path.length = k → u ∈ seen ∨ u ∈ level.map (·.type)
  barren : ∀ u ∈ seen, ∀ f ∈ u.ownFields, f.name ≠ name
  closed : ∀ u ∈ seen, ∀ f ∈ u.ownFields, ∀ v, lent? f = some v →
    v ∈ seen ∨ v ∈ level.map (·.type)
  above : ∀ path u, t.Leads path u → path.length < k → ∀ f ∈ u.ownFields, f.name ≠ name

variable {seen : List Ty} {level : List Reached}

/-- The level that the search begins with. -/
theorem frontier_root (t : Ty) (name : Text) : Frontier t name 0 [] [⟨t, [], false⟩] where
  leads r hr := by
    rw [List.mem_singleton.mp hr]
    exact ⟨.nil, rfl⟩
  paths := List.pairwise_singleton _ _
  flags r hr h := by
    rw [List.mem_singleton.mp hr] at h
    cases h
  twice u _ := by
    rintro ⟨path, path', hne, hp, hp', -⟩
    rw [List.length_eq_zero_iff.mp hp, List.length_eq_zero_iff.mp hp'] at hne
    exact absurd rfl hne
  covers path u h hp := by
    rw [List.length_eq_zero_iff.mp hp] at h
    exact .inr (by simp [leads_nil h])
  barren := nofun
  closed := nofun
  above _ _ _ h := absurd h (Nat.not_lt_zero _)

/-! #### Merging -/

/-- What a level is merged into. -/
structure MergedInto (rs ms : List Reached) : Prop where
  types : ms.Pairwise fun r r' => r.type ≠ r'.type
  comes : ∀ r ∈ ms, ∃ r' ∈ rs, r'.type = r.type ∧ r'.path = r.path
  flags : ∀ r ∈ ms, r.repeated = true ↔ Doubled rs r.type
  keeps : ∀ r ∈ rs, r.type ∈ ms.map (·.type)

theorem doubled_snoc_of_ne {rs : List Reached} {r : Reached} (h : r.type ≠ u) :
    Doubled (rs ++ [r]) u ↔ Doubled rs u := by
  simp only [Doubled, List.mem_append, List.mem_singleton]
  grind

/-- The record with a mark if it is of the type. -/
def markIf (u : Ty) (s : Reached) : Reached :=
  if s.type = u then { s with repeated := true } else s

theorem markIf_type (u : Ty) (s : Reached) : (markIf u s).type = s.type := by
  unfold markIf
  split <;> rfl

theorem markIf_path (u : Ty) (s : Reached) : (markIf u s).path = s.path := by
  unfold markIf
  split <;> rfl

/-- A record that is there already marks the one that is there. -/
theorem MergedInto.mark {rs ms : List Reached} (h : MergedInto rs ms) {r : Reached}
    (hr : r.type ∈ ms.map (·.type)) (hpath : ∀ r' ∈ rs, r'.path ≠ r.path) :
    MergedInto (rs ++ [r]) (ms.map (markIf r.type)) where
  types := by
    rw [List.pairwise_map]
    exact h.types.imp fun hne => by rwa [markIf_type, markIf_type]
  comes := by
    simp only [List.forall_mem_map, markIf_type, markIf_path]
    intro s hs
    obtain ⟨r', hr', hsame⟩ := h.comes s hs
    exact ⟨r', List.mem_append_left _ hr', hsame⟩
  flags := by
    simp only [List.forall_mem_map, markIf_type]
    intro s hs
    by_cases hs' : s.type = r.type
    · obtain ⟨r', hr', htype, -⟩ := h.comes s hs
      have hmark : (markIf r.type s).repeated = true := by
        rw [markIf, if_pos hs']
      refine ⟨fun _ => .inr ⟨r', by simp [hr'], r, by simp, hpath r' hr', htype, hs'.symm⟩,
        fun _ => hmark⟩
    · rw [markIf, if_neg hs', doubled_snoc_of_ne (Ne.symm hs')]
      exact h.flags s hs
  keeps := by
    have hmap : (ms.map (markIf r.type)).map (·.type) = ms.map (·.type) := by
      rw [List.map_map]
      exact List.map_congr_left fun s _ => markIf_type _ s
    rw [hmap]
    exact List.forall_mem_append.mpr ⟨h.keeps, List.forall_mem_singleton.mpr hr⟩

/-- A record of another type than those that are there comes behind them. -/
theorem MergedInto.append {rs ms : List Reached} (h : MergedInto rs ms) {r : Reached}
    (hr : r.type ∉ ms.map (·.type)) : MergedInto (rs ++ [r]) (ms ++ [r]) where
  types := by
    rw [List.pairwise_append]
    refine ⟨h.types, List.pairwise_singleton _ _, fun s hs x hx => ?_⟩
    rw [List.mem_singleton.mp hx]
    exact fun heq => hr (heq ▸ List.mem_map_of_mem hs)
  comes := by
    refine List.forall_mem_append.mpr ⟨fun s hs => ?_, List.forall_mem_singleton.mpr
      ⟨r, by simp, rfl, rfl⟩⟩
    obtain ⟨r', hr', hsame⟩ := h.comes s hs
    exact ⟨r', List.mem_append_left _ hr', hsame⟩
  flags := by
    refine List.forall_mem_append.mpr ⟨fun s hs => ?_, List.forall_mem_singleton.mpr ?_⟩
    · rw [doubled_snoc_of_ne fun heq => hr (heq ▸ List.mem_map_of_mem hs)]
      exact h.flags s hs
    · have hfirst : ∀ r' ∈ rs, r'.type ≠ r.type := fun r' hr' heq => hr (heq ▸ h.keeps r' hr')
      simp only [Doubled, List.mem_append, List.mem_singleton]
      grind
  keeps := by
    rw [List.map_append]
    exact List.forall_mem_append.mpr ⟨fun r' hr' => List.mem_append_left _ (h.keeps r' hr'),
      List.forall_mem_singleton.mpr (by simp)⟩

theorem mergedInto_mergeLevel {rs : List Reached}
    (h : rs.Pairwise fun r r' => r.path ≠ r'.path) : MergedInto rs (mergeLevel rs) := by
  induction rs using List.reverseRecOn with
  | nil => exact ⟨.nil, nofun, nofun, nofun⟩
  | append_singleton rs r ih =>
    rw [List.pairwise_append] at h
    have hmerged := ih h.1
    have hother : ∀ r' ∈ rs, r'.path ≠ r.path := fun r' hr' => h.2.2 r' hr' r (by simp)
    rw [mergeLevel, List.foldl_append, ← mergeLevel, List.foldl_cons, List.foldl_nil, addReached]
    split
    · rename_i hany
      exact hmerged.mark (by simpa using hany) hother
    · rename_i hany
      exact hmerged.append (by simpa using hany)

/-- The records of a level that have not been searched yet, merged. -/
theorem Frontier.merged (h : Frontier t name k seen level) :
    Merged t name k seen ((mergeLevel level).filter fun r => !seen.contains r.type) := by
  have hmerged := mergedInto_mergeLevel h.paths
  have hmem : ∀ u, u ∈ level.map (·.type) → u ∈ seen ∨
      u ∈ ((mergeLevel level).filter fun r => !seen.contains r.type).map (·.type) := by
    intro u hu
    by_cases hseen : u ∈ seen
    · exact .inl hseen
    · obtain ⟨r, hr, rfl⟩ := List.mem_map.mp hu
      obtain ⟨s, hs, htype⟩ := List.mem_map.mp (hmerged.keeps r hr)
      refine .inr (List.mem_map.mpr ⟨s, List.mem_filter.mpr ⟨hs, ?_⟩, htype⟩)
      simpa [htype] using hseen
  refine ⟨fun r hr => ?_, fun r hr => ?_, hmerged.types.filter _, fun r hr => ?_,
    fun path u hu hlen => (h.covers path u hu hlen).elim .inl (hmem u), h.barren,
    fun u hu f hf v hv => (h.closed u hu f hf v hv).elim .inl (hmem v), h.above⟩
  · obtain ⟨s, hs, htype, hpath⟩ := hmerged.comes r (List.mem_filter.mp hr).1
    rw [← htype, ← hpath]
    exact h.leads s hs
  · simpa using (List.mem_filter.mp hr).2
  · obtain ⟨hr, hfresh⟩ := List.mem_filter.mp hr
    rw [hmerged.flags r hr]
    refine ⟨fun hdouble => ?_, h.twice r.type (by simpa using hfresh)⟩
    rcases hdouble with ⟨s, hs, htype, hmark⟩ | ⟨s, hs, s', hs', hne, htype, htype'⟩
    · rw [← htype]
      exact h.flags s hs hmark
    · obtain ⟨hlead, hlen⟩ := h.leads s hs
      obtain ⟨hlead', hlen'⟩ := h.leads s' hs'
      rw [htype] at hlead
      rw [htype'] at hlead'
      exact ⟨_, _, hne, hlen, hlen', hlead, hlead'⟩

/-! #### Hits -/

/-- The hits of a level with the marks of their records. -/
def hitsOf (name : Text) (level : List Reached) : List (Bool × Field Ty × List Nat) :=
  level.flatMap fun r => (hitsIn name r).map fun hit => (r.repeated, hit)

theorem mem_hitsIn {r : Reached} : (f, path) ∈ hitsIn name r ↔
    ∃ i, r.type.ownFields[i]? = some f ∧ f.name = name ∧ path = r.path ++ [i] := by
  simp only [hitsIn, List.mem_filterMap, Option.ite_none_right_eq_some, Option.some.injEq,
    Prod.mk.injEq, Prod.exists, List.mem_zipIdx_iff_getElem?]
  constructor
  · rintro ⟨g, i, hg, hname, rfl, rfl⟩
    exact ⟨i, hg, hname, rfl⟩
  · rintro ⟨i, hf, hname, rfl⟩
    exact ⟨f, i, hf, hname, rfl, rfl⟩

theorem mem_hitsOf {b : Bool} : (b, f, path) ∈ hitsOf name level ↔ ∃ r ∈ level, ∃ i,
    r.repeated = b ∧ r.type.ownFields[i]? = some f ∧ f.name = name ∧ path = r.path ++ [i] := by
  simp only [hitsOf, List.mem_flatMap, List.mem_map, Prod.mk.injEq]
  constructor
  · rintro ⟨r, hr, ⟨g, p⟩, hhit, hb, hg⟩
    cases hg
    obtain ⟨i, hi⟩ := mem_hitsIn.mp hhit
    exact ⟨r, hr, i, hb, hi⟩
  · rintro ⟨r, hr, i, hb, hi⟩
    exact ⟨r, hr, (f, path), mem_hitsIn.mpr ⟨i, hi⟩, hb, rfl⟩

theorem embeddedIn_eq (name : Text) (r : Reached) : embeddedIn name r =
    r.type.ownFields.zipIdx.filterMap fun (f, i) =>
      if f.embedded && f.name ≠ name && (behindPtr f.type).ownFields?.isSome then
        some ⟨behindPtr f.type, r.path ++ [i], r.repeated⟩
      else none := rfl

theorem mem_embeddedIn {r s : Reached} : s ∈ embeddedIn name r ↔ ∃ i g,
    r.type.ownFields[i]? = some g ∧ g.name ≠ name ∧ lent? g = some s.type ∧
      s.path = r.path ++ [i] ∧ s.repeated = r.repeated := by
  obtain ⟨u, p, b⟩ := s
  simp only [embeddedIn_eq, List.mem_filterMap, Prod.exists, List.mem_zipIdx_iff_getElem?,
    Option.ite_none_right_eq_some, Bool.and_eq_true, decide_eq_true_eq, Option.some.injEq,
    Reached.mk.injEq, lent?_eq_some_iff]
  constructor
  · rintro ⟨g, i, hg, ⟨⟨he, hname⟩, hfields⟩, rfl, rfl, rfl⟩
    exact ⟨i, g, hg, hname, ⟨he, hfields, rfl⟩, rfl, rfl⟩
  · rintro ⟨i, g, hg, hname, ⟨he, hfields, rfl⟩, rfl, rfl⟩
    exact ⟨g, i, hg, ⟨⟨he, hname⟩, hfields⟩, rfl, rfl, rfl⟩

/-- What is met at different positions of a record stands at the end of different paths. -/
theorem pairwise_positions {α β : Type} {l : List β} {g : β × Nat → Option α}
    {pathOf : α → List Nat} (front : List Nat)
    (hg : ∀ x y, g x = some y → pathOf y = front ++ [x.2]) :
    (l.zipIdx.filterMap g).Pairwise fun a b => pathOf a ≠ pathOf b := by
  have hindices : l.zipIdx.Pairwise fun x y => x.2 ≠ y.2 := by
    rw [← List.pairwise_map, List.zipIdx_map_snd]
    exact List.nodup_range'
  refine List.pairwise_filterMap.mpr (hindices.imp fun hne a ha b hb => ?_)
  rw [hg _ _ ha, hg _ _ hb]
  exact fun heq => hne (by simpa using heq)

/-- So does what is met in different records of a merged level. -/
theorem Merged.pairwise_flatMap (h : Merged t name k seen level) {α : Type}
    {g : Reached → List α} {pathOf : α → List Nat}
    (hin : ∀ r ∈ level, (g r).Pairwise fun a b => pathOf a ≠ pathOf b)
    (hpath : ∀ r ∈ level, ∀ x ∈ g r, ∃ i, pathOf x = r.path ++ [i]) :
    (level.flatMap g).Pairwise fun a b => pathOf a ≠ pathOf b := by
  refine List.pairwise_flatMap.mpr ⟨hin, h.types.imp_of_mem fun hr hr' hne x hx y hy heq => ?_⟩
  obtain ⟨i, hi⟩ := hpath _ hr x hx
  obtain ⟨j, hj⟩ := hpath _ hr' y hy
  rw [hi, hj] at heq
  have hfront := (List.append_inj' heq rfl).1
  have hlead := (h.leads _ hr).1
  rw [hfront] at hlead
  exact hne (hlead.unique (h.leads _ hr').1)

theorem Merged.pairwise_hitsOf (h : Merged t name k seen level) :
    (hitsOf name level).Pairwise fun a b => a.2.2 ≠ b.2.2 := by
  refine h.pairwise_flatMap (fun r _ => ?_) fun r _ x hx => ?_
  · rw [List.pairwise_map]
    refine pairwise_positions r.path fun x y hxy => ?_
    rw [← Option.some.inj ((Option.ite_none_right_eq_some ..).mp hxy).2]
  · obtain ⟨⟨g, p⟩, hhit, rfl⟩ := List.mem_map.mp hx
    obtain ⟨i, -, -, hp⟩ := mem_hitsIn.mp hhit
    exact ⟨i, hp⟩

theorem Merged.pairwise_embedded (h : Merged t name k seen level) :
    (level.flatMap (embeddedIn name)).Pairwise fun r r' => r.path ≠ r'.path := by
  refine h.pairwise_flatMap (fun r _ => ?_) fun r _ x hx => ?_
  · rw [embeddedIn_eq]
    refine pairwise_positions r.path fun x y hxy => ?_
    rw [← Option.some.inj ((Option.ite_none_right_eq_some ..).mp hxy).2]
  · obtain ⟨i, g, -, -, -, hp, -⟩ := mem_embeddedIn.mp hx
    exact ⟨i, hp⟩

/-- Paths to fields of the name are longer than those that have been searched. -/
theorem Merged.length_of_holds (h : Merged t name k seen level) (hf : t.Holds name path f) :
    k < path.length := by
  obtain ⟨front, u, i, rfl, hu, hget, hname⟩ := hf
  rw [List.length_append, List.length_singleton]
  by_contra hlt
  exact h.above front u hu (by omega) f (List.mem_of_getElem? hget) hname

/-- A field of the name in a record of the level is a hit, whichever path leads to the record. -/
theorem Merged.exists_hit (h : Merged t name k seen level) (hf : t.Holds name path f)
    (hlen : path.length = k + 1) : ∃ r ∈ level, ∃ i, (r.repeated, f, r.path ++ [i]) ∈
      hitsOf name level ∧ (path = r.path ++ [i] ∨ r.repeated = true) := by
  obtain ⟨front, u, i, rfl, hu, hget, hname⟩ := hf
  rw [List.length_append, List.length_singleton, Nat.add_right_cancel_iff] at hlen
  rcases h.covers front u hu hlen with hseen | hmem
  · exact absurd hname (h.barren u hseen f (List.mem_of_getElem? hget))
  · obtain ⟨r, hr, rfl⟩ := List.mem_map.mp hmem
    refine ⟨r, hr, i, mem_hitsOf.mpr ⟨r, hr, i, rfl, hget, hname, rfl⟩, ?_⟩
    by_cases hpath : front = r.path
    · exact .inl (by rw [hpath])
    · obtain ⟨hlead, hlead'⟩ := h.leads r hr
      exact .inr ((h.flags r hr).mpr ⟨front, r.path, hpath, hlen, hlead', hu, hlead⟩)

theorem Merged.holds_of_mem_hitsOf (h : Merged t name k seen level) {b : Bool}
    (hmem : (b, f, path) ∈ hitsOf name level) : t.Holds name path f ∧ path.length = k + 1 := by
  obtain ⟨r, hr, i, -, hget, hname, rfl⟩ := mem_hitsOf.mp hmem
  obtain ⟨hlead, hlen⟩ := h.leads r hr
  exact ⟨⟨_, _, i, rfl, hlead, hget, hname⟩, by simp [hlen]⟩

/-- A single hit in a record that the level holds once is the only shortest path. -/
theorem Merged.selects_of_hit (h : Merged t name k seen level)
    (hhits : hitsOf name level = [(false, f, path)]) : t.Selects name path f := by
  obtain ⟨hholds, hlen⟩ := h.holds_of_mem_hitsOf (b := false) (by rw [hhits]; exact .head _)
  refine ⟨hholds, fun path' f' hf' => ?_⟩
  have hlonger := h.length_of_holds hf'
  by_cases hsame : path'.length = k + 1
  · obtain ⟨r, -, i, hmem, hpath⟩ := h.exists_hit hf' hsame
    rw [hhits, List.mem_singleton, Prod.mk.injEq, Prod.mk.injEq] at hmem
    obtain ⟨hmark, -, rfl⟩ := hmem
    refine .inl (hpath.resolve_right ?_)
    rw [hmark]
    exact Bool.false_ne_true
  · exact .inr (by omega)

/-- Of two paths to fields of the name, none is the only shortest one if nothing is shorter. -/
theorem Merged.not_selects_of_two (h : Merged t name k seen level) {path₁ path₂ : List Nat}
    {f₁ f₂ : Field Ty} (hne : path₁ ≠ path₂) (hf₁ : t.Holds name path₁ f₁)
    (hf₂ : t.Holds name path₂ f₂) (hlen₁ : path₁.length = k + 1) (hlen₂ : path₂.length = k + 1) :
    ¬ t.Selects name path f := by
  intro hselects
  have hlonger := h.length_of_holds hselects.1
  rcases hselects.2 _ _ hf₁ with rfl | hlt
  · rcases hselects.2 _ _ hf₂ with rfl | hlt
    · exact hne rfl
    · omega
  · omega

/-- Several hits, or one in a record that the level holds more than once, cancel each other. -/
theorem Merged.not_selects_of_hits (h : Merged t name k seen level)
    {hit : Bool × Field Ty × List Nat} {hits : List (Bool × Field Ty × List Nat)}
    (hhits : hitsOf name level = hit :: hits) (hmany : hits = [] → hit.1 = true) :
    ¬ t.Selects name path f := by
  obtain ⟨b, g, p⟩ := hit
  obtain ⟨hg, hlen⟩ := h.holds_of_mem_hitsOf (b := b) (by rw [hhits]; exact .head _)
  cases hits with
  | nil =>
    -- two paths lead to the record, and hence to its field
    obtain ⟨r, hr, i, hb, hget, hname, rfl⟩ := mem_hitsOf.mp (by rw [hhits]; exact .head _)
    obtain ⟨front, front', hne, hfront, hfront', hlead, hlead'⟩ :=
      (h.flags r hr).mp (hb.trans (hmany rfl))
    have hg₁ : t.Holds name (front ++ [i]) g := ⟨_, _, _, rfl, hlead, hget, hname⟩
    have hg₂ : t.Holds name (front' ++ [i]) g := ⟨_, _, _, rfl, hlead', hget, hname⟩
    exact h.not_selects_of_two (fun heq => hne (List.append_inj' heq rfl).1) hg₁ hg₂
      (by simp [hfront]) (by simp [hfront'])
  | cons hit' hits =>
    obtain ⟨b', g', p'⟩ := hit'
    have hmem : (b', g', p') ∈ hitsOf name level := by
      rw [hhits]
      exact .tail _ (.head _)
    obtain ⟨hg', hlen'⟩ := h.holds_of_mem_hitsOf hmem
    have hpaths := h.pairwise_hitsOf
    rw [hhits, List.pairwise_cons] at hpaths
    exact h.not_selects_of_two (hpaths.1 _ (.head _)) hg hg' hlen hlen'

/-! #### The next level -/

theorem Merged.ne_of_no_hits (h : hitsOf name level = []) :
    ∀ r ∈ level, ∀ f ∈ r.type.ownFields, f.name ≠ name := by
  intro r hr f hf hname
  obtain ⟨i, hi⟩ := List.mem_iff_getElem?.mp hf
  have hmem := mem_hitsOf.mpr ⟨r, hr, i, rfl, hi, hname, rfl⟩
  rw [h] at hmem
  cases hmem

/-- What is embedded in a record of the level is in the next one. -/
theorem Merged.exists_embedded (h : hitsOf name level = []) {r : Reached} (hr : r ∈ level) {i : Nat}
    (hf : r.type.ownFields[i]? = some f) (hv : lent? f = some v) :
    ⟨v, r.path ++ [i], r.repeated⟩ ∈ level.flatMap (embeddedIn name) :=
  List.mem_flatMap.mpr ⟨r, hr, mem_embeddedIn.mpr
    ⟨i, f, hf, ne_of_no_hits h r hr f (List.mem_of_getElem? hf), hv, rfl, rfl⟩⟩

/-- A record at the end of a longer path has been met before, or is embedded in one of the level. -/
theorem Merged.exists_last (h : Merged t name k seen level) (hv : t.Leads path v)
    (hlen : path.length = k + 1) : v ∈ seen ++ level.map (·.type) ∨
      ∃ front i f, ∃ r ∈ level, path = front ++ [i] ∧ front.length = k ∧ t.Leads front r.type ∧
        r.type.ownFields[i]? = some f ∧ lent? f = some v := by
  cases hv with
  | nil => cases hlen
  | @snoc front u _ i f hu hf hv =>
    rw [List.length_append, List.length_singleton, Nat.add_right_cancel_iff] at hlen
    rcases h.covers front u hu hlen with hseen | hmem
    · exact .inl (List.mem_append.mpr (h.closed u hseen f (List.mem_of_getElem? hf) v hv))
    · obtain ⟨r, hr, rfl⟩ := List.mem_map.mp hmem
      exact .inr ⟨front, i, f, r, hr, rfl, hlen, hu, hf, hv⟩

theorem Merged.next (h : Merged t name k seen level) (hhits : hitsOf name level = []) :
    Frontier t name (k + 1) (seen ++ level.map (·.type)) (level.flatMap (embeddedIn name)) where
  leads s hs := by
    obtain ⟨r, hr, hs⟩ := List.mem_flatMap.mp hs
    obtain ⟨i, g, hget, -, hlent, hpath, -⟩ := mem_embeddedIn.mp hs
    obtain ⟨hlead, hlen⟩ := h.leads r hr
    rw [hpath]
    exact ⟨hlead.snoc hget hlent, by simp [hlen]⟩
  paths := h.pairwise_embedded
  flags s hs hmark := by
    obtain ⟨r, hr, hs⟩ := List.mem_flatMap.mp hs
    obtain ⟨i, g, hget, -, hlent, -, hsame⟩ := mem_embeddedIn.mp hs
    obtain ⟨front, front', hne, hfront, hfront', hlead, hlead'⟩ :=
      (h.flags r hr).mp (hsame.symm.trans hmark)
    exact ⟨front ++ [i], front' ++ [i], fun heq => hne (List.append_inj' heq rfl).1,
      by simp [hfront], by simp [hfront'], hlead.snoc hget hlent, hlead'.snoc hget hlent⟩
  twice v hv := by
    rintro ⟨path, path', hne, hlen, hlen', hlead, hlead'⟩
    obtain ⟨front, i, f, r, hr, rfl, hfront, hu, hf, hlent⟩ :=
      (h.exists_last hlead hlen).resolve_left hv
    obtain ⟨front', i', f', r', hr', rfl, hfront', hu', hf', hlent'⟩ :=
      (h.exists_last hlead' hlen').resolve_left hv
    have hmem := exists_embedded hhits hr hf hlent
    have hmem' := exists_embedded hhits hr' hf' hlent'
    by_cases hpath : r.path ++ [i] = r'.path ++ [i']
    · obtain ⟨hsame, hi⟩ := List.append_inj' hpath rfl
      cases hi
      -- one record of the level, to which both paths lead
      have hlead := (h.leads r hr).1
      rw [hsame] at hlead
      rw [← hlead.unique (h.leads r' hr').1] at hu'
      have htwice : t.Twice k r.type :=
        ⟨front, front', fun heq => hne (by rw [heq]), hfront, hfront', hu, hu'⟩
      exact .inl ⟨_, hmem, rfl, (h.flags r hr).mpr htwice⟩
    · exact .inr ⟨_, hmem, _, hmem', hpath, rfl, rfl⟩
  covers path v hv hlen := by
    rcases h.exists_last hv hlen with hseen | ⟨_, i, f, r, hr, -, -, -, hf, hlent⟩
    · exact .inl hseen
    · exact .inr (List.mem_map.mpr ⟨_, exists_embedded hhits hr hf hlent, rfl⟩)
  barren u hu f hf := by
    rcases List.mem_append.mp hu with hu | hu
    · exact h.barren u hu f hf
    · obtain ⟨r, hr, rfl⟩ := List.mem_map.mp hu
      exact ne_of_no_hits hhits r hr f hf
  closed u hu f hf v hv := by
    rcases List.mem_append.mp hu with hu | hu
    · exact .inl (List.mem_append.mpr (h.closed u hu f hf v hv))
    · obtain ⟨r, hr, rfl⟩ := List.mem_map.mp hu
      obtain ⟨i, hi⟩ := List.mem_iff_getElem?.mp hf
      exact .inr (List.mem_map.mpr ⟨_, exists_embedded hhits hr hi hv, rfl⟩)
  above path u hu hlen f hf := by
    by_cases hlt : path.length < k
    · exact h.above path u hu hlt f hf
    · rcases h.covers path u hu (by omega) with hseen | hmem
      · exact h.barren u hseen f hf
      · obtain ⟨r, hr, rfl⟩ := List.mem_map.mp hmem
        exact ne_of_no_hits hhits r hr f hf

/-! ### The search -/

/-- Nothing is found below a level without records. -/
theorem Frontier.not_holds_of_nil (h : Frontier t name k seen []) : ¬ t.Holds name path f := by
  have hseen : ∀ {path u}, t.Leads path u → k ≤ path.length → u ∈ seen := by
    intro path u hu
    induction hu with
    | nil =>
      intro hlen
      exact (h.covers [] t .nil (Nat.le_zero.mp hlen).symm).resolve_right nofun
    | @snoc path u v i f hu hf hv ih =>
      intro hlen
      rcases Nat.lt_or_ge path.length k with hlt | hge
      · refine (h.covers (path ++ [i]) v (hu.snoc hf hv) ?_).resolve_right nofun
        rw [List.length_append, List.length_singleton] at hlen ⊢
        omega
      · exact (h.closed u (ih hge) f (List.mem_of_getElem? hf) v hv).resolve_right nofun
  rintro ⟨front, u, i, rfl, hu, hget, hname⟩
  rcases Nat.lt_or_ge front.length k with hlt | hge
  · exact h.above front u hu hlt f (List.mem_of_getElem? hget) hname
  · exact h.barren u (hseen hu hge) f (List.mem_of_getElem? hget) hname

/-- The search finds the only shortest path, if there is one. -/
theorem Frontier.searchLevels_eq_some_iff {fuel : Nat} (h : Frontier t name k seen level)
    (hfuel : t.depth ≤ k + fuel) :
    searchLevels name fuel seen level = some (f, path) ↔ t.Selects name path f := by
  induction fuel generalizing k seen level with
  | zero =>
    rw [searchLevels]
    refine ⟨nofun, fun hselects => ?_⟩
    obtain ⟨front, u, i, rfl, hu, hget, hname⟩ := hselects.1
    have hle := hselects.1.length_le
    rw [List.length_append, List.length_singleton] at hle
    exact absurd hname (h.above front u hu (by omega) f (List.mem_of_getElem? hget))
  | succ fuel ih =>
    cases level with
    | nil =>
      rw [searchLevels]
      exact ⟨nofun, fun hselects => absurd hselects.1 h.not_holds_of_nil⟩
    | cons r rs =>
      have hmerged := h.merged
      rw [searchLevels]
      split
      · rename_i hit hhits
        obtain ⟨g, p⟩ := hit
        have hselects := hmerged.selects_of_hit hhits
        rw [Option.some.injEq, Prod.mk.injEq]
        constructor
        · rintro ⟨rfl, rfl⟩
          exact hselects
        · intro hselects'
          obtain ⟨hpath, hfield⟩ := hselects.unique hselects'
          exact ⟨hfield, hpath⟩
      · rename_i hit hits hone hhits
        refine ⟨nofun, fun hselects => ?_⟩
        refine absurd hselects (hmerged.not_selects_of_hits hhits fun hnil => ?_)
        obtain ⟨b, hit⟩ := hit
        cases b with
        | true => rfl
        | false => exact (hone hit rfl hnil).elim
      · rename_i hhits
        exact ih (hmerged.next hhits) (by omega)

/-- **The field that a name stands for** in a record type is the one at the only shortest path to a
field of the name. -/
theorem member?_eq_some_iff (ht : t.ownFields?.isSome = true) (hname : name ≠ []) :
    t.member? name = some (f, path) ↔ t.Selects name path f := by
  have hsome : t.ownFields?.isNone = false := by simpa [Option.isSome_iff_ne_none] using ht
  rw [member?, if_neg (by simp [hsome, hname])]
  exact (frontier_root t name).searchLevels_eq_some_iff (by omega)

/-! ### Embedded types -/

mutual

/-- Whether no field with a pointer to a pointer is embedded in the type, at any depth. -/
def embedsOnce : Ty → Bool
  | ptr t => t.embedsOnce
  | named _ t => t.embedsOnce
  | record fs => embedsOnceFields fs
  | _ => true

/-- The same of the fields of a record. -/
def embedsOnceFields : List (Field Ty) → Bool
  | [] => true
  | ⟨_, t, _, e, _⟩ :: fs =>
    (!e || !(behindPtr t).isPtr) && t.embedsOnce && embedsOnceFields fs

end

theorem embedsOnce_under (t : Ty) : t.under.embedsOnce = t.embedsOnce := by
  induction t using Ty.under.induct with
  | case1 _ t ih => rw [under, embedsOnce, ih]
  | case2 t h => rw [under.eq_2 t h]

theorem embedsOnce_behindPtr (t : Ty) : (behindPtr t).embedsOnce = t.embedsOnce := by
  cases t <;> rfl

theorem embedsOnce_indirect (t : Ty) : t.indirect.embedsOnce = t.embedsOnce := by
  fun_induction indirect t with
  | case1 t ih => rw [ih, embedsOnce]
  | case2 n t e h ih => rw [ih, embedsOnce]
  | case3 | case4 => rfl

theorem embedsOnce_of_mem (h : t.embedsOnce = true) (hf : f ∈ t.ownFields) :
    (f.embedded = true → (behindPtr f.type).isPtr = false) ∧ f.type.embedsOnce = true := by
  have hfields : ∀ fs, embedsOnceFields fs = true → f ∈ fs →
      (f.embedded = true → (behindPtr f.type).isPtr = false) ∧ f.type.embedsOnce = true := by
    intro fs hfs hmem
    induction fs with
    | nil => cases hmem
    | cons g fs ih =>
      obtain ⟨n, u, tag, e, x⟩ := g
      simp only [embedsOnceFields, Bool.and_eq_true, Bool.or_eq_true, Bool.not_eq_true'] at hfs
      rcases List.mem_cons.mp hmem with rfl | hmem
      · exact ⟨fun he => hfs.1.1.resolve_left (by simp [show e = true from he]), hfs.1.2⟩
      · exact ih hfs.2 hmem
  rw [ownFields, ownFields?.eq_def] at hf
  split at hf
  · rename_i fs hu
    rw [← embedsOnce_under, hu, embedsOnce] at h
    exact hfields fs h hf
  · exact hfields timeFields (by decide) hf
  · cases hf

end Ty

/-! ### Columns -/

namespace Mapping

open Ty

variable {rule : NameRule} {c : Column} {cs : List Column} {at_ : List Nat}

theorem typeColumns_behindPtr (rule : NameRule) (at_ : List Nat) (t : Ty) :
    typeColumns rule at_ (behindPtr t) = typeColumns rule at_ t := by
  cases t <;> simp only [behindPtr, typeColumns]

/-- A type that is no pointer has columns if it has fields, which are those of its fields. -/
theorem typeColumns_eq_some {t : Ty} (ht : t.isPtr = false)
    (h : typeColumns rule at_ t = some cs) (hc : c ∈ cs) :
    c ∈ fieldColumns rule at_ 0 t.ownFields := by
  induction t using Ty.under.induct with
  | case1 n t ih =>
    rw [typeColumns] at h
    exact ih ht h
  | case2 t hplain =>
    cases t with
    | record fs =>
      rw [typeColumns, Option.some.injEq] at h
      rwa [← h] at hc
    | time =>
      rw [typeColumns, Option.some.injEq] at h
      rw [← h] at hc
      cases hc
    | ptr => cases ht
    | named n t => exact absurd rfl (hplain n t)
    | _ => cases h

/-- The columns of fields: their own, and those of what is embedded. -/
theorem exists_of_mem_fieldColumns {fs : List (Field Ty)} {i : Nat}
    (h : c ∈ fieldColumns rule at_ i fs) : ∃ j f, fs[j]? = some f ∧
      (columnOf? rule f (at_ ++ [i + j]) = some c ∨
        f.embedded = true ∧ ∃ cs, typeColumns rule (at_ ++ [i + j]) f.type = some cs ∧ c ∈ cs) := by
  induction fs generalizing i with
  | nil => cases h
  | cons f fs ih =>
    obtain ⟨n, t, g, e, x⟩ := f
    rw [fieldColumns, List.mem_append] at h
    rcases h with h | h
    · refine ⟨0, _, rfl, ?_⟩
      split at h
      · rename_i hflat
        cases hcs : typeColumns rule (at_ ++ [i]) t with
        | none =>
          rw [hcs] at h
          exact .inl (Option.mem_toList.mp h)
        | some cs =>
          rw [hcs] at h
          exact .inr ⟨(Bool.and_eq_true_iff.mp hflat).1, cs, rfl, h⟩
      · exact .inl (Option.mem_toList.mp h)
    · obtain ⟨j, f, hf, hcase⟩ := ih h
      refine ⟨j + 1, f, hf, ?_⟩
      rwa [Nat.add_right_comm, Nat.add_assoc] at hcase

/-- The path of a column of fields leads to its member. -/
theorem holds_of_mem_fieldColumns {t : Ty} (honce : t.embedsOnce = true)
    (h : c ∈ fieldColumns rule at_ 0 t.ownFields) :
    ∃ path f, c.path = at_ ++ path ∧ t.Holds c.member path f := by
  induction hdepth : t.depth using Nat.strongRecOn generalizing t at_ with
  | ind n ih =>
    obtain ⟨j, f, hf, hcase⟩ := exists_of_mem_fieldColumns h
    rw [Nat.zero_add] at hcase
    have hmem := List.mem_of_getElem? hf
    rcases hcase with hown | ⟨hembedded, cs, hcs, hc⟩
    · unfold columnOf? at hown
      dsimp only at hown
      split at hown
      · cases hown
      · cases hown
        exact ⟨[j], f, rfl, [], t, j, rfl, .nil, hf, rfl⟩
    · obtain ⟨hplain, hbelow⟩ := embedsOnce_of_mem honce hmem
      have hptr := hplain hembedded
      rw [← typeColumns_behindPtr] at hcs
      have hfields := typeColumns_eq_some hptr hcs hc
      have hlent : lent? f = some (behindPtr f.type) := by
        refine lent?_eq_some_iff.mpr ⟨hembedded, ?_, rfl⟩
        rw [Option.isSome_iff_ne_none]
        intro hnone
        rw [ownFields, hnone] at hfields
        cases hfields
      have hlt : (behindPtr f.type).depth < n := by
        rw [← hdepth, depth_behindPtr]
        exact depth_lt_of_mem hmem
      obtain ⟨path, g, hpath, hholds⟩ := ih _ hlt
        (by rw [embedsOnce_behindPtr]; exact hbelow) hfields rfl
      exact ⟨j :: path, g, by rw [hpath, List.append_assoc, List.singleton_append],
        hholds.cons hf hlent⟩

theorem mem_of_mem_firstOfEach {columns : List Column} (h : c ∈ firstOfEach columns) :
    c ∈ columns := by
  have fold : ∀ kept : List Column, c ∈ columns.foldl
      (fun kept c => if kept.any (·.member == c.member) then kept else kept ++ [c]) kept →
      c ∈ kept ∨ c ∈ columns := by
    clear h
    induction columns with
    | nil => exact fun _ => .inl
    | cons d columns ih =>
      intro kept h
      rw [List.foldl_cons] at h
      rcases ih _ h with h | h
      · split at h
        · exact .inl h
        · rcases List.mem_append.mp h with h | h
          · exact .inl h
          · exact .inr (List.mem_singleton.mp h ▸ List.mem_cons_self)
      · exact .inr (List.mem_cons_of_mem d h)
  exact (fold [] h).resolve_left nofun

/-- The path of a column of a record type leads to its member. -/
theorem holds_of_mem_columnsOf {t : Ty} (ht : t.isPtr = false) (honce : t.embedsOnce = true)
    (h : c ∈ columnsOf rule t) : ∃ f, t.Holds c.member c.path f := by
  have hmem := mem_of_mem_firstOfEach h
  cases hcs : typeColumns rule [] t with
  | none =>
    rw [hcs] at hmem
    cases hmem
  | some cs =>
    rw [hcs] at hmem
    obtain ⟨path, f, hpath, hholds⟩ :=
      holds_of_mem_fieldColumns honce (typeColumns_eq_some ht hcs hmem)
    rw [List.nil_append] at hpath
    exact ⟨f, hpath ▸ hholds⟩

end Mapping

theorem Registry.isPtr_of_isEntityType {r : Registry} {t : Ty} (h : r.isEntityType t = true) :
    t.isPtr = false := by
  unfold isEntityType at h
  split at h
  · rfl
  · rfl
  · rw [Ty.fields?.eq_def] at h
    split at h
    · rename_i hu
      rw [Ty.isPtr, hu]
    · cases h

/-- The member of a record type has the type of the field that its name stands for. -/
theorem Ty.memberType_of_member? {t : Ty} {name : Text} {f : Field Ty} {path : List Nat}
    (ht : t.indirect.ownFields?.isSome = true) (h : t.indirect.member? name = some (f, path)) :
    t.memberType name = some (f.type, t.indirect) := by
  obtain ⟨fs, hfs⟩ := Option.isSome_iff_exists.mp ht
  rw [memberType]
  rcases under_of_ownFields? hfs with hu | ⟨hu, -⟩
  all_goals
    dsimp only
    rw [hu]
    dsimp only
    rw [h, Option.map_some]

/-- **When a column is that of the member of its name.** Take any record type, with records or
pointers to records embedded in it at any depth, and any member with a column. The path of the
column leads to a field of the name. The field that the name stands for, which gives the member its
type, is the one at the path of the column exactly if every other path to a field of the name is
longer. -/
theorem Registry.column_path_eq_member_path_iff {r : Registry} {t : Ty} {e : Entity} {m : Text}
    {c : Column} (he : r.entity (some t) = .ok e) (hc : e.column? m = some c) (hm : m ≠ [])
    (honce : t.embedsOnce = true) :
    (∃ f, e.type.Holds m c.path f) ∧
    ((∃ f, e.type.member? m = some (f, c.path) ∧ t.memberType m = some (f.type, e.type)) ↔
      ∀ path f, e.type.Holds m path f → path = c.path ∨ c.path.length < path.length) := by
  have hmem : c ∈ e.columns := List.mem_of_find?_eq_some hc
  have hmember : c.member = m := by simpa using List.find?_some hc
  rw [entity, Option.map_some] at he
  dsimp only at he
  split at he
  · rename_i hentity
    cases he
    obtain ⟨f, hf⟩ := Mapping.holds_of_mem_columnsOf (isPtr_of_isEntityType hentity)
      ((Ty.embedsOnce_indirect t).trans honce) hmem
    rw [hmember] at hf
    have hfields := hf.isSome_ownFields?
    refine ⟨⟨f, hf⟩, ?_⟩
    constructor
    · rintro ⟨f', hf', -⟩
      exact ((Ty.member?_eq_some_iff hfields hm).mp hf').2
    · intro hshortest
      have hselected := (Ty.member?_eq_some_iff hfields hm).mpr ⟨hf, hshortest⟩
      exact ⟨f, hselected, Ty.memberType_of_member? hfields hselected⟩
  · cases he

/-- A record embedded before a field of its own name has the column of the name, although the name
stands for the field; of two embedded records with the member the first has the column, although
the name stands for neither. -/
theorem Registry.exists_column_unlike_member :
    (∃ t e c f, Registry.standard.entity (some t) = .ok e ∧ t.embedsOnce = true ∧
      e.column? "Name" = some c ∧ c.path = [0, 0] ∧
      e.type.member? "Name" = some (f, [1])) ∧
    ∃ t e c, Registry.standard.entity (some t) = .ok e ∧ t.embedsOnce = true ∧
      e.column? "Name" = some c ∧ c.path = [0, 0] ∧ e.type.member? "Name" = none :=
  ⟨⟨Sample.declared "Employee" [Sample.embedded "Person" Sample.person,
      Sample.plain "Name" .string], _, _, _, rfl, by decide, rfl, by decide, rfl⟩,
    ⟨Sample.declared "Label" [Sample.embedded "Person" Sample.person,
      Sample.embedded "Tag" Sample.tag], _, _, rfl, by decide, rfl, by decide, by decide⟩⟩

end QueryTree
