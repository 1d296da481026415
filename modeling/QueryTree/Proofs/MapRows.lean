import Mathlib.Data.List.Nodup
import QueryTree.Proofs.Written

/-!
# Rows from maps and from shapes

A shape without a name of its own and a map with texts for keys are both read as rows of the default
entity. A shape is read member by member. A map is read column by column: a column takes the value
under its member or else the value under its own name, and what it has taken is gone.

So a map with members for keys is read like the shape with these members unless a column that is
given nothing has the name of a member that is given a value, and stands before the column of that
member. The first such column takes the value of the other.

## Main definitions

* `Column.Takes`: a column takes the value of a member of another column
* `Entity.KeepsKeys`: no column takes the value of a column behind it

## Main results

* `Row.takeEntries_append`: the columns up to the first one that takes the value of another
* `map_row_perm_shape_row`: rows from maps and from shapes
* `exists_map_row_unlike_shape_row`: a book with a title and a column of this name
-/

namespace QueryTree

/-- The column is given nothing, and its name is a member that is given a value. -/
def Column.Takes (names : List Text) (c d : Column) : Prop :=
  c.member ∉ names ∧ d.member ∈ names ∧ c.name = d.member

instance {names : List Text} {c d : Column} : Decidable (c.Takes names d) :=
  inferInstanceAs (Decidable (_ ∧ _ ∧ _))

/-- No column takes the value that is given for a column behind it. -/
def Entity.KeepsKeys (e : Entity) (names : List Text) : Prop :=
  e.columns.Pairwise fun c d => ¬ c.Takes names d

instance {e : Entity} {names : List Text} : Decidable (e.KeepsKeys names) :=
  inferInstanceAs (Decidable (List.Pairwise _ _))

namespace Row

variable {st : Settings} {e : Entity} {w : Column → Bool} {given : List (Text × Value)}
  {columns pre rest : List Column} {c : Column} {v : Value}

/-! ### Values by member -/

/-- The entries of a map whose keys are members. -/
def keyed (given : List (Text × Value)) : List (MapKey × Value) :=
  given.map fun x => (.string x.1, x.2)

/-- The columns that are given a value, in their order, each with the value of its member. -/
def picked (columns : List Column) (given : List (Text × Value)) : List (Column × Value) :=
  columns.filterMap fun c => (given.find? fun x => x.1 = c.member).map fun x => (c, x.2)

/-- The given values with their columns. -/
def placed (e : Entity) (given : List (Text × Value)) : List (Column × Value) :=
  given.filterMap fun x => (e.column? x.1).map fun c => (c, x.2)

/-- What is found under a key is what is given for it, when no key is given twice. -/
theorem find?_eq_some_iff {κ : Type} [DecidableEq κ] {given : List (κ × Value)}
    (h : (given.map Prod.fst).Nodup) {k : κ} {x : κ × Value} :
    (given.find? fun y => y.1 = k) = some x ↔ x ∈ given ∧ x.1 = k := by
  constructor
  · intro hx
    exact ⟨List.mem_of_find?_eq_some hx, by simpa using List.find?_some hx⟩
  · rintro ⟨hx, rfl⟩
    cases hfind : given.find? fun y => y.1 = x.1 with
    | none => simpa using List.find?_eq_none.mp hfind x hx
    | some y =>
      have hy : y.1 = x.1 := by simpa using List.find?_some hfind
      rw [List.inj_on_of_nodup_map h (List.mem_of_find?_eq_some hfind) hx hy]

theorem mem_picked_iff (h : (given.map Prod.fst).Nodup) :
    (c, v) ∈ picked columns given ↔ c ∈ columns ∧ (c.member, v) ∈ given := by
  simp only [picked, List.mem_filterMap, Option.map_eq_some_iff, find?_eq_some_iff h]
  constructor
  · rintro ⟨d, hd, ⟨n, x⟩, ⟨hx, rfl⟩, heq⟩
    cases heq
    exact ⟨hd, hx⟩
  · rintro ⟨hc, hx⟩
    exact ⟨c, hc, (c.member, v), ⟨hx, rfl⟩, rfl⟩

theorem mem_placed_iff (h : (e.columns.map (·.member)).Nodup) :
    (c, v) ∈ placed e given ↔ c ∈ e.columns ∧ (c.member, v) ∈ given := by
  simp only [placed, List.mem_filterMap, Option.map_eq_some_iff]
  constructor
  · rintro ⟨⟨n, x⟩, hx, d, hd, heq⟩
    cases heq
    have hmember : c.member = n := by simpa using List.find?_some hd
    exact ⟨List.mem_of_find?_eq_some hd, hmember ▸ hx⟩
  · rintro ⟨hc, hx⟩
    exact ⟨(c.member, v), hx, c, Entity.column?_member h hc, rfl⟩

theorem picked_perm_placed (hc : (e.columns.map (·.member)).Nodup)
    (hg : (given.map Prod.fst).Nodup) : (picked e.columns given).Perm (placed e given) := by
  refine (List.perm_ext_iff_of_nodup ?_ ?_).mpr fun ⟨c, v⟩ =>
    (mem_picked_iff hg).trans (mem_placed_iff hc).symm
  · refine (List.Nodup.of_map _ hc).filterMap fun c d x hx hx' => ?_
    obtain ⟨y, -, rfl⟩ := Option.map_eq_some_iff.mp hx
    obtain ⟨z, -, heq⟩ := Option.map_eq_some_iff.mp hx'
    exact (congrArg Prod.fst heq).symm
  · refine (List.Nodup.of_map _ hg).filterMap fun x y z hx hy => ?_
    obtain ⟨c, hc, rfl⟩ := Option.map_eq_some_iff.mp hx
    obtain ⟨d, hd, heq⟩ := Option.map_eq_some_iff.mp hy
    obtain ⟨rfl, hvalue⟩ := Prod.mk.inj heq
    have hcx : d.member = x.1 := by simpa using List.find?_some hc
    have hcy : d.member = y.1 := by simpa using List.find?_some hd
    exact Prod.ext (hcx.symm.trans hcy) hvalue.symm

/-! ### Columns in turn -/

theorem find?_keyed (n : Text) : (keyed given).find? (fun x => x.1 = .string n) =
    (given.find? fun x => x.1 = n).map fun x => (.string x.1, x.2) := by
  rw [keyed, List.find?_map]
  simp only [Function.comp_def, MapKey.string.injEq]

theorem filter_keyed (n : Text) : (keyed given).filter (fun x => x.1 ≠ .string n) =
    keyed (given.filter fun x => x.1 ≠ n) := by
  rw [keyed, keyed, List.filter_map]
  simp only [Function.comp_def, ne_eq, MapKey.string.injEq]

theorem find?_eq_none_iff {n : Text} :
    (given.find? fun x => x.1 = n) = none ↔ n ∉ given.map Prod.fst := by
  simp only [List.find?_eq_none, decide_eq_true_eq, List.mem_map, not_exists, not_and]

/-- A column that is given a value takes it. -/
theorem takeEntries_cons_of_mem (hg : (given.map Prod.fst).Nodup) (hx : (c.member, v) ∈ given) :
    takeEntries (c :: columns) (keyed given) =
      ((c, v) :: (takeEntries columns (keyed (given.filter fun x => x.1 ≠ c.member))).1,
        (takeEntries columns (keyed (given.filter fun x => x.1 ≠ c.member))).2) := by
  have hkey : keyOf? (keyed given) c = some (.string c.member, v) := by
    rw [keyOf?, find?_keyed, (find?_eq_some_iff hg).mpr ⟨hx, rfl⟩]
    rfl
  rw [takeEntries, hkey]
  simp only [filter_keyed]

/-- A column that is given nothing takes what is given for its name. -/
theorem takeEntries_cons_of_not_mem (hg : (given.map Prod.fst).Nodup)
    (hc : c.member ∉ given.map Prod.fst) (hx : (c.name, v) ∈ given) :
    takeEntries (c :: columns) (keyed given) =
      ((c, v) :: (takeEntries columns (keyed (given.filter fun x => x.1 ≠ c.name))).1,
        (takeEntries columns (keyed (given.filter fun x => x.1 ≠ c.name))).2) := by
  have hkey : keyOf? (keyed given) c = some (.string c.name, v) := by
    rw [keyOf?, find?_keyed, find?_eq_none_iff.mpr hc, find?_keyed,
      (find?_eq_some_iff hg).mpr ⟨hx, rfl⟩]
    rfl
  rw [takeEntries, hkey]
  simp only [filter_keyed]

/-- A column that is given nothing, neither under its member nor under its name, is passed by. -/
theorem takeEntries_cons_of_none (hc : c.member ∉ given.map Prod.fst)
    (hn : c.name ∉ given.map Prod.fst) :
    takeEntries (c :: columns) (keyed given) = takeEntries columns (keyed given) := by
  have hkey : keyOf? (keyed given) c = none := by
    rw [keyOf?, find?_keyed, find?_eq_none_iff.mpr hc, find?_keyed, find?_eq_none_iff.mpr hn]
    rfl
  rw [takeEntries, hkey]

theorem picked_cons_of_mem (hg : (given.map Prod.fst).Nodup) (hx : (c.member, v) ∈ given)
    (hc : c.member ∉ columns.map (·.member)) : picked (c :: columns) given =
      (c, v) :: picked columns (given.filter fun x => x.1 ≠ c.member) := by
  have hrest : picked columns (given.filter fun x => x.1 ≠ c.member) = picked columns given := by
    refine List.filterMap_congr fun d hd => ?_
    have hne : d.member ≠ c.member := fun h => hc (h ▸ List.mem_map_of_mem hd)
    rw [List.find?_filter]
    congr 2
    funext x
    by_cases hxd : x.1 = d.member <;> simp [hxd, hne]
  rw [hrest, picked, List.filterMap_cons, (find?_eq_some_iff hg).mpr ⟨hx, rfl⟩]
  rfl

theorem picked_cons_of_not_mem (hc : c.member ∉ given.map Prod.fst) :
    picked (c :: columns) given = picked columns given := by
  rw [picked, List.filterMap_cons, find?_eq_none_iff.mpr hc]
  rfl

/-- As long as no column takes the value of another, each takes its own, and what is left is what is
given for the columns behind them. -/
theorem takeEntries_append (hg : (given.map Prod.fst).Nodup)
    (hcols : ((pre ++ rest).map (·.member)).Nodup)
    (hmapped : ∀ n ∈ given.map Prod.fst, n ∈ (pre ++ rest).map (·.member))
    (hpre : pre.Pairwise fun c d => ¬ c.Takes (given.map Prod.fst) d)
    (hrest : ∀ c ∈ pre, ∀ d ∈ rest, ¬ c.Takes (given.map Prod.fst) d) :
    takeEntries (pre ++ rest) (keyed given) =
      let left := keyed (given.filter fun x => x.1 ∉ pre.map (·.member))
      (picked pre given ++ (takeEntries rest left).1, (takeEntries rest left).2) := by
  induction pre generalizing given with
  | nil => simp [picked]
  | cons c pre ih =>
    obtain ⟨hhead, htail⟩ : c.member ∉ (pre ++ rest).map (·.member) ∧
        ((pre ++ rest).map (·.member)).Nodup := List.nodup_cons.mp hcols
    obtain ⟨hpre₁, hpre₂⟩ := List.pairwise_cons.mp hpre
    have hbehind : ∀ n ∈ given.map Prod.fst, n ≠ c.member → n ∈ (pre ++ rest).map (·.member) := by
      intro n hn hne
      exact (List.mem_cons.mp (hmapped n hn)).resolve_left hne
    by_cases hc : c.member ∈ given.map Prod.fst
    · obtain ⟨⟨n, v⟩, hx, rfl : n = c.member⟩ := List.mem_map.mp hc
      have hsub : ∀ n ∈ (given.filter fun x => x.1 ≠ c.member).map Prod.fst,
          n ∈ given.map Prod.fst ∧ n ≠ c.member := by
        intro n hn
        obtain ⟨x, hx, rfl⟩ := List.mem_map.mp hn
        obtain ⟨hx, hne⟩ := List.mem_filter.mp hx
        exact ⟨List.mem_map_of_mem hx, by simpa using hne⟩
      have hkeep : ∀ d ∈ pre, ∀ d', ¬ d.Takes (given.map Prod.fst) d' →
          ¬ d.Takes ((given.filter fun x => x.1 ≠ c.member).map Prod.fst) d' := by
        rintro d hd d' hnot ⟨hno, hyes, hname⟩
        refine hnot ⟨fun hmem => hno ?_, (hsub _ hyes).1, hname⟩
        obtain ⟨x, hx, hxd⟩ := List.mem_map.mp hmem
        refine List.mem_map.mpr ⟨x, List.mem_filter.mpr ⟨hx, ?_⟩, hxd⟩
        simp only [hxd, ne_eq, decide_eq_true_eq]
        exact fun h => hhead (h ▸ List.mem_map_of_mem (List.mem_append_left rest hd))
      rw [List.cons_append, takeEntries_cons_of_mem hg hx,
        ih ((List.filter_sublist.map _).nodup hg) htail
          (fun n hn => hbehind n (hsub n hn).1 (hsub n hn).2)
          (hpre₂.imp_of_mem fun hd _ => hkeep _ hd _)
          (fun d hd d' hd' => hkeep d hd d' (hrest d (List.mem_cons_of_mem c hd) d' hd')),
        picked_cons_of_mem hg hx (fun h => hhead (List.map_append ▸ List.mem_append_left _ h)),
        List.filter_filter]
      simp only [List.map_cons, List.mem_cons, not_or, Bool.decide_and, decide_not, ne_eq,
        Bool.and_comm, List.cons_append]
    · have hname : c.name ∉ given.map Prod.fst := by
        intro hmem
        obtain ⟨d, hd, hdname⟩ := List.mem_map.mp
          (hbehind c.name hmem fun h => hc (h ▸ hmem))
        have htakes : c.Takes (given.map Prod.fst) d := ⟨hc, hdname ▸ hmem, hdname.symm⟩
        rcases List.mem_append.mp hd with hd | hd
        · exact hpre₁ d hd htakes
        · exact hrest c List.mem_cons_self d hd htakes
      rw [List.cons_append, takeEntries_cons_of_none hc hname,
        ih hg htail (fun n hn => hbehind n hn fun h => hc (h ▸ hn)) hpre₂
          (fun d hd => hrest d (List.mem_cons_of_mem c hd)), picked_cons_of_not_mem hc]
      have hleft : (given.filter fun x => x.1 ∉ (c :: pre).map (·.member)) =
          given.filter fun x => x.1 ∉ pre.map (·.member) := by
        refine List.filter_congr fun x hx => ?_
        have hne : x.1 ≠ c.member := fun h => hc (h ▸ List.mem_map_of_mem hx)
        simp only [List.map_cons, List.mem_cons, hne, false_or]
      rw [hleft]

/-- A relation that fails to separate a list holds first between some element and one behind it. -/
theorem exists_first_of_not_pairwise {α : Type} {R : α → α → Prop} {l : List α}
    (h : ¬ l.Pairwise fun x y => ¬ R x y) : ∃ pre x post, l = pre ++ x :: post ∧
      (pre.Pairwise fun x y => ¬ R x y) ∧ (∀ y ∈ pre, ∀ z ∈ x :: post, ¬ R y z) ∧
      ∃ z ∈ post, R x z := by
  induction l with
  | nil => exact absurd .nil h
  | cons a l ih =>
    by_cases ha : ∃ z ∈ l, R a z
    · exact ⟨[], a, l, rfl, .nil, nofun, ha⟩
    · have hnone : ∀ z ∈ l, ¬ R a z := fun z hz hR => ha ⟨z, hz, hR⟩
      obtain ⟨pre, x, post, rfl, hpre, hall, hx⟩ :=
        ih fun hl => h (List.pairwise_cons.mpr ⟨hnone, hl⟩)
      refine ⟨a :: pre, x, post, rfl, List.pairwise_cons.mpr ⟨fun z hz => ?_, hpre⟩, ?_, hx⟩
      · exact hnone z (List.mem_append_left _ hz)
      · intro y hy z hz
        rcases List.mem_cons.mp hy with rfl | hy
        · exact hnone z (List.mem_append_right _ hz)
        · exact hall y hy z hz

/-- Nothing is left when no column takes the value of another. -/
theorem takeEntries_of_keepsKeys (hg : (given.map Prod.fst).Nodup)
    (hcols : (e.columns.map (·.member)).Nodup)
    (hmapped : ∀ n ∈ given.map Prod.fst, n ∈ e.columns.map (·.member))
    (h : e.KeepsKeys (given.map Prod.fst)) :
    takeEntries e.columns (keyed given) = (picked e.columns given, []) := by
  have happend := @takeEntries_append given e.columns [] hg (by rwa [List.append_nil])
    (by rwa [List.append_nil]) h (by simp)
  have hleft : (given.filter fun x => x.1 ∉ e.columns.map (·.member)) = [] :=
    List.filter_eq_nil_iff.mpr fun x hx => by simpa using hmapped x.1 (List.mem_map_of_mem hx)
  rw [List.append_nil] at happend
  rw [happend, hleft]
  simp only [keyed, List.map_nil, takeEntries, List.append_nil]

/-- Otherwise the first column that takes the value of another has it. -/
theorem exists_mem_takeEntries (hg : (given.map Prod.fst).Nodup)
    (hcols : (e.columns.map (·.member)).Nodup)
    (hmapped : ∀ n ∈ given.map Prod.fst, n ∈ e.columns.map (·.member))
    (h : ¬ e.KeepsKeys (given.map Prod.fst)) :
    ∃ c ∈ e.columns, ∃ x ∈ given, c.member ∉ given.map Prod.fst ∧ c.name = x.1 ∧
      (c, x.2) ∈ (takeEntries e.columns (keyed given)).1 := by
  obtain ⟨pre, c, post, hsplit, hpre, hall, d, hd, hno, hyes, hname⟩ :=
    exists_first_of_not_pairwise h
  obtain ⟨⟨n, v⟩, hx, rfl : n = d.member⟩ := List.mem_map.mp hyes
  rw [hsplit] at hcols hmapped ⊢
  refine ⟨c, by simp, _, hx, hno, hname, ?_⟩
  have hfresh : d.member ∉ pre.map (·.member) := by
    rw [List.map_append] at hcols
    exact fun hmem => (List.nodup_append.mp hcols).2.2 _ hmem _
      (List.mem_map_of_mem (List.mem_cons_of_mem c hd)) rfl
  rw [takeEntries_append hg hcols hmapped hpre hall]
  have hmem : (c.name, v) ∈ given.filter fun x => x.1 ∉ pre.map (·.member) :=
    List.mem_filter.mpr ⟨hname ▸ hx, by simpa [hname] using hfresh⟩
  have hno' : c.member ∉ (given.filter fun x => x.1 ∉ pre.map (·.member)).map Prod.fst :=
    fun hmem => hno ((List.filter_sublist.map _).subset hmem)
  simp only
  rw [takeEntries_cons_of_not_mem ((List.filter_sublist.map _).nodup hg) hno' hmem]
  simp

/-! ### Rows -/

theorem cellsOf_perm {xs ys : List (Column × Value)} (h : xs.Perm ys) :
    (cellsOf st w xs : List Cell).Perm (cellsOf st w ys) :=
  (h.filter _).map _

theorem mem_cellsOf_iff {xs : List (Column × Value)} :
    (⟨c, .value v⟩ : Cell) ∈ cellsOf st w xs ↔ (c, v) ∈ xs ∧ keeps st w c v = true := by
  simp only [cellsOf, List.mem_map, List.mem_filter, Cell.mk.injEq, Content.value.injEq]
  constructor
  · rintro ⟨⟨d, x⟩, ⟨hx, hkeep⟩, rfl, rfl⟩
    exact ⟨hx, hkeep⟩
  · rintro ⟨hx, hkeep⟩
    exact ⟨(c, v), ⟨hx, hkeep⟩, rfl, rfl⟩

/-- An anonymous type stands for the default entity. -/
theorem target_of_anonymous {t : Ty} (he : st.registry.entity st.defaultType = .ok e)
    (ht : st.registry.isAnonymous (some t) = true) : target st (some t) = .ok e := by
  have hdefault : st.entityOf (some t) = .ok e := by
    rw [Settings.entityOf, if_pos ht]
    cases hd : st.defaultType with
    | none =>
      rw [hd] at he
      cases he
    | some d =>
      rw [hd] at he
      exact he
  rw [target, hdefault]

theorem isAnonymous_of_map {r : Registry} {t key elem : Ty} (ht : t.under = .map key elem) :
    r.isAnonymous (some t) = true := by
  have hself : t.indirect = t := Ty.indirect_of_ne_ptr fun e => by rw [ht]; nofun
  rw [Registry.isAnonymous, Option.map_some, hself]
  cases t with
  | record fs => cases ht
  | _ => simp [ht]

/-- A map as a row of the default entity: every entry must be taken by a column. -/
theorem ofMap_eq {t key elem : Ty} {entries : List (MapKey × Value)}
    (he : st.registry.entity st.defaultType = .ok e) (ht : t.under = .map key elem)
    (hkey : key.under = .string) : (ofMap st w t entries : Attempt CompileError Row) =
      match takeEntries e.columns entries with
      | (taken, []) => .ok ⟨e, cellsOf st w taken⟩
      | (_, (.string k, _) :: _) => .fail (.mapping (.noColumn (some e.type) k))
      | (_, (.int _, _) :: _) => .fail .mapKeys := by
  simp only [ofMap, ht, hkey, target_of_anonymous he (isAnonymous_of_map ht), ne_eq,
    not_true_eq_false, if_false]
  rfl

theorem cells_of_ofMap {t key elem : Ty} {entries : List (MapKey × Value)} {r : Row}
    (he : st.registry.entity st.defaultType = .ok e) (ht : t.under = .map key elem)
    (hkey : key.under = .string) (h : ofMap st w t entries = .ok r) :
    r.cells = cellsOf st w (takeEntries e.columns entries).1 := by
  rw [ofMap_eq he ht hkey] at h
  split at h
  · rename_i taken hentries
    cases h
    rw [hentries]
  · cases h
  · cases h

/-- A shape with mapped members as a row of the default entity. -/
theorem ofShape_eq (w : Column → Bool) {fields : List (Field Ty)} (values : List Value)
    (he : st.registry.entity st.defaultType = .ok e)
    (hshape : st.registry.isAnonymous (some (.record fields)) = true)
    (hexported : ∀ f ∈ fields, f.exported = true)
    (hmapped : ∀ f ∈ fields, (e.column? f.name).isSome = true) :
    (ofShape st w fields values : Attempt CompileError Row) =
      .ok ⟨e, cellsOf st w (placed e ((fields.zip values).map fun x => (x.1.name, x.2)))⟩ := by
  have hall : (fields.zip values).filter (fun x => x.1.exported) = fields.zip values :=
    List.filter_eq_self.mpr fun x hx => hexported x.1 (List.of_mem_zip hx).1
  have hfound : ∀ pairs : List (Field Ty × Value),
      (∀ x ∈ pairs, (e.column? x.1.name).isSome = true) →
      (pairs.mapM fun x => do return (← columnOf e x.1.name, x.2) :
        Attempt CompileError (List (Column × Value))) =
        .ok (placed e (pairs.map fun x => (x.1.name, x.2))) := by
    intro pairs hpairs
    induction pairs with
    | nil => rfl
    | cons x pairs ih =>
      obtain ⟨c, hc⟩ := Option.isSome_iff_exists.mp (hpairs x List.mem_cons_self)
      rw [List.mapM_cons, ih fun y hy => hpairs y (List.mem_cons_of_mem x hy), columnOf, hc]
      simp only [placed, List.map_cons, List.filterMap_cons, hc]
      rfl
  have hpairs := hfound (fields.zip values) fun x hx => hmapped x.1 (List.of_mem_zip hx).1
  simp only [ofShape, target_of_anonymous he hshape, hall]
  exact bind_eq_ok.mpr ⟨e, rfl, bind_eq_ok.mpr ⟨_, hpairs, rfl⟩⟩

end Row

/-- **A map with members for keys is read like the shape of these members**, in any order and with
any values, as long as no column that is given nothing takes the value of a column behind it by its
name. Where one does, a first such column has the value of another member in the row of the map, if
it is written at all, but nothing in the row of the shape. -/
theorem map_row_perm_shape_row {st : Settings} {e : Entity} (writable : Column → Bool)
    {t key elem : Ty} {fields : List (Field Ty)} {values : List Value}
    {given : List (Text × Value)} (he : st.registry.entity st.defaultType = .ok e)
    (ht : t.under = .map key elem) (hkey : key.under = .string)
    (hshape : st.registry.isAnonymous (some (.record fields)) = true)
    (hexported : ∀ f ∈ fields, f.exported = true)
    (hmapped : ∀ f ∈ fields, (e.column? f.name).isSome = true)
    (hlength : fields.length = values.length) (hnames : (fields.map (·.name)).Nodup)
    (hgiven : given.Perm ((fields.zip values).map fun x => (x.1.name, x.2))) :
    (e.KeepsKeys (fields.map (·.name)) → ∃ r r' : Row,
      Row.ofMap st writable t (Row.keyed given) = .ok r ∧
      Row.ofShape st writable fields values = .ok r' ∧
      r.entity = e ∧ r'.entity = e ∧ r.cells.Perm r'.cells) ∧
    (¬ e.KeepsKeys (fields.map (·.name)) → ∃ c ∈ e.columns, ∃ x ∈ given,
      c.member ∉ fields.map (·.name) ∧ c.name = x.1 ∧
      (Row.keeps st writable c x.2 = true → ∃ r' : Row,
        Row.ofShape st writable fields values = .ok r' ∧ (∀ cell ∈ r'.cells, cell.column ≠ c) ∧
        ∀ r : Row, Row.ofMap st writable t (Row.keyed given) = .ok r →
          ⟨c, .value x.2⟩ ∈ r.cells)) := by
  have hcols : (e.columns.map (·.member)).Nodup := Registry.nodup_members he
  have hpairs : ((fields.zip values).map fun x => (x.1.name, x.2)).map Prod.fst =
      fields.map (·.name) := by
    conv_rhs => rw [← List.map_fst_zip (Nat.le_of_eq hlength)]
    rw [List.map_map, List.map_map]
    rfl
  have hperm : (given.map Prod.fst).Perm (fields.map (·.name)) := hpairs ▸ hgiven.map Prod.fst
  have hg : (given.map Prod.fst).Nodup := hperm.symm.nodup hnames
  have hmem : ∀ n ∈ given.map Prod.fst, n ∈ e.columns.map (·.member) := by
    intro n hn
    obtain ⟨f, hf, rfl⟩ := List.mem_map.mp (hperm.mem_iff.mp hn)
    obtain ⟨c, hc⟩ := Option.isSome_iff_exists.mp (hmapped f hf)
    exact List.mem_map.mpr ⟨c, List.mem_of_find?_eq_some hc, by simpa using List.find?_some hc⟩
  have hkeeps : e.KeepsKeys (fields.map (·.name)) ↔ e.KeepsKeys (given.map Prod.fst) := by
    simp only [Entity.KeepsKeys, Column.Takes, hperm.mem_iff]
  have hshaped := Row.ofShape_eq writable values he hshape hexported hmapped
  refine ⟨fun h => ?_, fun h => ?_⟩
  · refine ⟨⟨e, Row.cellsOf st writable (Row.picked e.columns given)⟩, _, ?_, hshaped, rfl, rfl,
      Row.cellsOf_perm ((Row.picked_perm_placed hcols hg).trans (hgiven.filterMap _))⟩
    rw [Row.ofMap_eq he ht hkey, Row.takeEntries_of_keepsKeys hg hcols hmem (hkeeps.mp h)]
  · obtain ⟨c, hc, x, hx, hno, hname, htaken⟩ :=
      Row.exists_mem_takeEntries hg hcols hmem (mt hkeeps.mpr h)
    have hno' : c.member ∉ fields.map (·.name) := mt hperm.mem_iff.mpr hno
    refine ⟨c, hc, x, hx, hno', hname, fun hkeep => ⟨_, hshaped, ?_, fun r hr => ?_⟩⟩
    · rintro cell hcell rfl
      obtain ⟨⟨d, y⟩, hd, rfl⟩ := List.mem_map.mp hcell
      have hgivenTo := ((Row.mem_placed_iff hcols).mp (List.mem_filter.mp hd).1).2
      exact hno' (hpairs ▸ List.mem_map_of_mem hgivenTo)
    · rw [Row.cells_of_ofMap he ht hkey hr]
      exact Row.mem_cellsOf_iff.mpr ⟨htaken, hkeep⟩

open Sample

/-- The settings that insert customers, given as shapes and maps. -/
def customerSettings : Settings :=
  { Settings.standard .sqlServer world with defaultType := some customer }

/-- The customers keep the keys of a name and an age. -/
theorem map_row_perm_shape_row_customers :
    let fields := [plain "Age" (.int .int), plain "Name" .string]
    let values : List Value := [.int .int 36, .string "Ada"]
    let given : List (Text × Value) := [("Name", .string "Ada"), ("Age", .int .int 36)]
    customerSettings.registry.entity customerSettings.defaultType = .ok customers ∧
    customers.KeepsKeys (fields.map (·.name)) ∧
    (∀ f ∈ fields, f.exported = true ∧ (customers.column? f.name).isSome = true) ∧
    ∃ r r' : Row,
      Row.ofMap customerSettings (·.insertable) (.map .string .any) (Row.keyed given) = .ok r ∧
      Row.ofShape customerSettings (·.insertable) fields values = .ok r' ∧
      r.cells.Perm r'.cells := by
  have hkeeps : customers.KeepsKeys ["Age", "Name"] := by decide
  obtain ⟨r, r', hr, hr', -, -, hperm⟩ := (@map_row_perm_shape_row customerSettings customers
    (·.insertable) (.map .string .any) .string .any [plain "Age" (.int .int), plain "Name" .string]
    [.int .int 36, .string "Ada"] [("Name", .string "Ada"), ("Age", .int .int 36)]
    rfl rfl rfl rfl (by decide) (by decide) rfl (by decide) (.swap _ _ _)).1 hkeeps
  exact ⟨rfl, hkeeps, by decide, r, r', hr, hr', hperm⟩

/-- A book with a name, which is kept in the column `Title`, and a title, which is kept in another
one. -/
def book : Ty := .record [tagged "Name" .string "Title", tagged "Title" .string "x"]

/-- The settings that insert books, given as shapes and maps. -/
def bookSettings : Settings :=
  { Settings.standard .sqlServer world with
    defaultType := some book, registry := Registry.standard.register (some book) "books" }

/-- **A title is written into the column of the name if it is given in a map**, and into its own
column if it is given in a shape. -/
theorem exists_map_row_unlike_shape_row : ∃ r r' : Row,
    Row.ofMap bookSettings (·.insertable) (.map .string .any)
      [(.string "Title", .string "Emma")] = .ok r ∧
    Row.ofShape bookSettings (·.insertable) [plain "Title" .string] [.string "Emma"] = .ok r' ∧
    r.cells.map (·.column.member) = [("Name" : Text)] ∧
    r'.cells.map (·.column.member) = [("Title" : Text)] :=
  ⟨_, _, rfl, rfl, by decide, by decide⟩

end QueryTree
