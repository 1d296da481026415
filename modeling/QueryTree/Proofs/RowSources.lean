import QueryTree.Proofs.MapRows
import QueryTree.Proofs.Rendered

/-!
# What rows are read from

The rows to write are given by an expression. A list gives what its items give, an invocation what
the body gives that is inlined for it, a constructor describes one row by its bindings, and every
other expression is evaluated: it gives one row for each element of a list, and one row otherwise.

What the row of such a source holds is written down here source by source, without the steps in
which it is read. A record of an entity gives every column of the entity the value at the end of
the column's path. A record of an unnamed type gives the columns of its members, and bindings give
the columns of theirs. A map is shared out among the columns in turn: each takes the entry of its
member, or else that of its name, and what it takes is gone for those behind it. Of all this, a row
keeps the columns that may be written, and nil values only when asked for.

Nothing that is given is passed over: members and keys without a column are refused.

## Main definitions

* `Value.At`: the value at the end of a path
* `RowSource`, `Expr.RowSources`: what rows are read from
* `Row.Takes`: the entry of a map that a column takes
* `RowSource.Gives`: the content that a source gives a column
* `Row.ReadFrom`: a row that holds what its source gives

## Main results

* `Column.read_of_at`: reading a column follows its path
* `Row.readFrom_of_ofValue`, `Row.readFrom_of_ofBindings`: the rows of values and of bindings
* `Expr.readFrom_of_rows`: the rows of an expression
-/

namespace QueryTree

open Row

/-! ### Paths -/

/-- What stands at the end of a path of field positions. A pointer leads to the record it points
to, and behind a nil pointer there is nil. -/
inductive Value.At : Value → List Nat → Value → Prop
  | here (v : Value) : At v [] v
  | field {v w x : Value} {fs : List (Field Ty)} {vs : List Value} {i : Nat} {path : List Nat}
    (hv : v.under = .record fs vs) (hi : vs[i]? = some w) (h : At w path x) : At v (i :: path) x
  | behind {v target w x : Value} {t : Ty} {fs : List (Field Ty)} {vs : List Value} {i : Nat}
    {path : List Nat} (hv : v.under = .ptr t target) (ht : target.under = .record fs vs)
    (hi : vs[i]? = some w) (h : At w path x) : At v (i :: path) x
  | nowhere {v : Value} {t : Ty} {i : Nat} {path : List Nat} (hv : v.under = .nilPtr t) :
    At v (i :: path) .nil

theorem Value.At.along_eq {v x : Value} {path : List Nat} (h : v.At path x) :
    v.along path = .ok x := by
  induction h with
  | here v => rfl
  | field hv hi _ ih =>
    rw [along, hv]
    simp only [hi]
    exact ih
  | behind hv ht hi _ ih =>
    rw [along, hv]
    simp only [ht, hi]
    exact ih
  | nowhere hv => rw [along, hv]

/-- **Reading a column follows its path**, from the record that pointers may lead to. -/
theorem Column.read_of_at {c : Column} {v x : Value} (h : v.deref.At c.path x) : c.read v = x := by
  rw [Column.read, Column.readAny, h.along_eq]

@[simp]
theorem Value.deref_deref (v : Value) : v.deref.deref = v.deref := by
  fun_induction Value.deref v with
  | case1 _ _ ih => exact ih
  | case2 _ _ _ _ _ ih => exact ih
  | case3 n v h => exact deref_of_ne_ptr fun t u hu => h t u hu
  | case4 v hptr hnamed =>
    refine deref_of_ne_ptr fun t u hu => ?_
    cases v with
    | ptr t v => exact hptr t v rfl
    | named n v => exact hnamed n v rfl
    | _ => cases hu

@[simp]
theorem Column.read_deref (c : Column) (v : Value) : c.read v.deref = c.read v := by
  rw [Column.read, Column.readAny, Value.deref_deref, Column.read, Column.readAny]

/-! ### Sources -/

/-- What a row is read from: a value, or the bindings of a constructor. -/
inductive RowSource where
  | value (v : Value)
  | bindings (type : Option Ty) (bs : List (Text × Expr))

namespace RowSource

/-- The type that names the entity of the row. -/
def type? : RowSource → Option Ty
  | value v => v.deref.type?
  | bindings t _ => t

/-- No member, key or name is given twice. -/
def Distinct : RowSource → Prop
  | value v =>
    match v.deref.under with
    | .map _ _ entries => (entries.map Prod.fst).Nodup
    | .record fields _ => (fields.map (·.name)).Nodup
    | _ => True
  | bindings _ bs => (bs.map Prod.fst).Nodup

end RowSource

/-- A value holds a row for each element of a list, and is one row otherwise. -/
def Value.rowSources (v : Value) : List RowSource := (v.listed?.getD [v]).map .value

namespace Expr

/-- What the row of an item of a list is read from. A constructor is taken apart, quoted or not, and
everything else is evaluated. -/
inductive ItemSources (pre : Prelude) : Expr → List RowSource → Prop
  | constructed {e : Expr} {t : Option Ty} {bs : List (Text × Expr)}
    (he : e.unquote = .new t bs ∨ e.unquote = .init t bs) : ItemSources pre e [.bindings t bs]
  | evaluated {e : Expr} {v : Value}
    (he : ∀ t bs, e.unquote ≠ .new t bs ∧ e.unquote ≠ .init t bs) (hv : e.eval pre = .ok v) :
    ItemSources pre e v.rowSources

/-- What the rows of an expression are read from. -/
inductive RowSources (pre : Prelude) : Expr → List RowSource → Prop
  | new (t : Option Ty) (bs : List (Text × Expr)) : RowSources pre (.new t bs) [.bindings t bs]
  | init (t : Option Ty) (bs : List (Text × Expr)) : RowSources pre (.init t bs) [.bindings t bs]
  | const (v : Value) (t : Option Ty) : RowSources pre (.const v t) v.rowSources
  | folded {e : Expr} {v : Value} (he : e.unquote = e) (hfold : e.isFoldable = true)
    (hclosed : e.isClosed = true) (hv : e.eval pre = .ok v) : RowSources pre e v.rowSources
  | list {t : Option Ty} {es : List Expr} {sources : List (List RowSource)}
    (h : List.Forall₂ (ItemSources pre) es sources) : RowSources pre (.list t es) sources.flatten
  | array {t : Option Ty} {es : List Expr} {sources : List (List RowSource)}
    (h : List.Forall₂ (ItemSources pre) es sources) : RowSources pre (.array t es) sources.flatten
  | quote {e : Expr} {t : Option Ty} {sources : List RowSource} (h : RowSources pre e sources) :
    RowSources pre (.unary .quote e t) sources
  | lambda {body : Expr} {ps : List Param} {sources : List RowSource}
    (h : RowSources pre body sources) : RowSources pre (.lambda body ps) sources
  | invoke {target body : Expr} {args : List Expr} {sources : List RowSource}
    (hbody : inline target args = .ok body) (h : RowSources pre body sources) :
    RowSources pre (.invoke target args) sources

end Expr

/-! ### Entries of maps -/

/-- The key that a column looks for: its member if the map has it, and its own name otherwise. -/
def Column.keyIn (entries : List (MapKey × Value)) (c : Column) : MapKey :=
  if .string c.member ∈ entries.map Prod.fst then .string c.member else .string c.name

/-- Going through the columns, a column takes an entry. Those behind it do not see this entry. -/
inductive Row.Takes : List Column → List (MapKey × Value) → Column → MapKey × Value → Prop
  | here {c : Column} {cs : List Column} {entries : List (MapKey × Value)} {x : Value}
    (h : (c.keyIn entries, x) ∈ entries) : Takes (c :: cs) entries c (c.keyIn entries, x)
  | later {c d : Column} {cs : List Column} {entries : List (MapKey × Value)} {y : MapKey × Value}
    (h : Takes cs (entries.filter fun z => z.1 ≠ c.keyIn entries) d y) : Takes (c :: cs) entries d y

namespace Row

variable {entries : List (MapKey × Value)} {c d : Column} {cs : List Column} {x y : MapKey × Value}

/-- A column takes the entry under the key that it looks for. -/
theorem keyOf?_eq_some_iff (h : (entries.map Prod.fst).Nodup) :
    keyOf? entries c = some y ↔ y ∈ entries ∧ y.1 = c.keyIn entries := by
  rw [keyOf?]
  by_cases hmember : .string c.member ∈ entries.map Prod.fst
  · obtain ⟨z, hz, hkey⟩ := List.mem_map.mp hmember
    rw [Column.keyIn, if_pos hmember, (find?_eq_some_iff h).mpr ⟨hz, hkey⟩,
      ← find?_eq_some_iff h, (find?_eq_some_iff h).mpr ⟨hz, hkey⟩]
    rfl
  · have hnone : (entries.find? fun z => z.1 = .string c.member) = none := by
      refine List.find?_eq_none.mpr fun z hz hkey => hmember ?_
      exact List.mem_map.mpr ⟨z, hz, by simpa using hkey⟩
    rw [Column.keyIn, if_neg hmember, hnone]
    exact find?_eq_some_iff h

theorem takes_cons_iff : Takes (c :: cs) entries d y ↔
    (d = c ∧ y ∈ entries ∧ y.1 = c.keyIn entries) ∨
      Takes cs (entries.filter fun z => z.1 ≠ c.keyIn entries) d y := by
  constructor
  · intro h
    cases h with
    | here h => exact .inl ⟨rfl, h, rfl⟩
    | later h => exact .inr h
  · rintro (⟨rfl, hy, hkey⟩ | h)
    · obtain ⟨k, v⟩ := y
      obtain rfl : k = d.keyIn entries := hkey
      exact .here hy
    · exact .later h

theorem mem_of_takes (h : Takes cs entries d y) : y ∈ entries := by
  induction h with
  | here h => exact h
  | later _ ih => exact (List.mem_filter.mp ih).1

/-- A column without an entry is passed by. -/
theorem takeEntries_cons_of_forall_ne (h : (entries.map Prod.fst).Nodup)
    (hne : ∀ y ∈ entries, y.1 ≠ c.keyIn entries) : takeEntries (c :: cs) entries =
      takeEntries cs (entries.filter fun z => z.1 ≠ c.keyIn entries) := by
  have hkey : keyOf? entries c = none := Option.eq_none_iff_forall_ne_some.mpr fun y hy => by
    obtain ⟨hmem, hy⟩ := (keyOf?_eq_some_iff h).mp hy
    exact hne y hmem hy
  have hall : entries.filter (fun z => z.1 ≠ c.keyIn entries) = entries :=
    List.filter_eq_self.mpr fun y hy => by simpa using hne y hy
  rw [takeEntries, hkey, hall]

/-- A column takes the entry that it has. -/
theorem takeEntries_cons_of_keyIn (h : (entries.map Prod.fst).Nodup) (hy : y ∈ entries)
    (hkey : y.1 = c.keyIn entries) : takeEntries (c :: cs) entries =
      ((c, y.2) :: (takeEntries cs (entries.filter fun z => z.1 ≠ c.keyIn entries)).1,
        (takeEntries cs (entries.filter fun z => z.1 ≠ c.keyIn entries)).2) := by
  rw [takeEntries, (keyOf?_eq_some_iff h).mpr ⟨hy, hkey⟩, ← hkey]

/-- What is taken from a map, and what is left of it. -/
theorem takeEntries_spec (cs : List Column) (h : (entries.map Prod.fst).Nodup) :
    (∀ d v, (d, v) ∈ (takeEntries cs entries).1 ↔ ∃ k, Takes cs entries d (k, v)) ∧
      ∀ y ∈ entries, y ∈ (takeEntries cs entries).2 ∨ ∃ d, Takes cs entries d y := by
  induction cs generalizing entries with
  | nil => exact ⟨fun d v => ⟨nofun, nofun⟩, fun y hy => .inl hy⟩
  | cons c cs ih =>
    obtain ⟨htaken, hleft⟩ := ih (h.sublist ((List.filter_sublist
      (p := fun z => z.1 ≠ c.keyIn entries)).map Prod.fst))
    by_cases hne : ∀ y ∈ entries, y.1 ≠ c.keyIn entries
    · rw [takeEntries_cons_of_forall_ne h hne]
      refine ⟨fun d v => (htaken d v).trans (exists_congr fun k => ?_), fun y hy => ?_⟩
      · rw [takes_cons_iff]
        exact ⟨.inr, fun hk => hk.resolve_left fun ⟨_, hk, hkey⟩ => hne _ hk hkey⟩
      · refine (hleft y (List.mem_filter.mpr ⟨hy, by simpa using hne y hy⟩)).imp_right ?_
        exact fun ⟨d, hd⟩ => ⟨d, .later hd⟩
    · push Not at hne
      obtain ⟨y, hy, hkey⟩ := hne
      rw [takeEntries_cons_of_keyIn h hy hkey]
      refine ⟨fun d v => ?_, fun z hz => ?_⟩
      · rw [List.mem_cons, htaken]
        simp only [takes_cons_iff (c := c), exists_or]
        refine or_congr_left ⟨?_, ?_⟩
        · rintro heq
          cases heq
          exact ⟨y.1, rfl, hy, hkey⟩
        · rintro ⟨k, rfl, hk, rfl⟩
          exact congrArg (d, Prod.snd ·) (List.inj_on_of_nodup_map h hk hy hkey.symm)
      · by_cases hzkey : z.1 = c.keyIn entries
        · exact .inr ⟨c, takes_cons_iff.mpr (.inl ⟨rfl, hz, hzkey⟩)⟩
        · refine (hleft z (List.mem_filter.mpr ⟨hz, by simpa using hzkey⟩)).imp_right ?_
          exact fun ⟨d, hd⟩ => ⟨d, .later hd⟩

/-- Columns take entries in their order, each at most one. -/
theorem takeEntries_sublist (cs : List Column) (entries : List (MapKey × Value)) :
    ((takeEntries cs entries).1.map Prod.fst).Sublist cs := by
  fun_induction takeEntries cs entries with
  | case1 => exact List.nil_sublist _
  | case2 c cs entries hkey ih => exact ih.cons c
  | case3 c cs entries k v hkey taken left hrest ih =>
    rw [hrest] at ih
    exact ih.cons_cons c

end Row

/-! ### What a row holds -/

variable {st : Settings} {clause : Clause} {w : Column → Bool} {render : Expr → Rendering}
  {e : Entity} {r : Row} {c : Column} {x : Content} {v : Value}

/-- The content of a binding: its value if it depends on no row, and else what its rendering emits
as a value. -/
inductive Expr.HasContent (st : Settings) (clause : Clause) (render : Expr → Rendering) (b : Expr) :
    Content → Prop
  | value {v : Value} (hclosed : b.isClosed = true) (hv : b.eval st.pre = .ok v) :
    HasContent st clause render b (.value v)
  | computed (hopen : b.isClosed = false) :
    HasContent st clause render b (.computed ((render b).value clause))

/-- The content that a source gives a column of the entity. -/
inductive RowSource.Gives (st : Settings) (clause : Clause) (render : Expr → Rendering)
    (e : Entity) : RowSource → Column → Content → Prop
  | column {v : Value} {c : Column} (h : st.registry.isAnonymous v.deref.type? = false)
    (hc : c ∈ e.columns) : Gives st clause render e (.value v) c (.value (c.read v))
  | member {v x : Value} {fields : List (Field Ty)} {values : List Value} {f : Field Ty}
    {c : Column} (hv : v.deref.under = .record fields values)
    (h : st.registry.isAnonymous v.deref.type? = true) (hf : (f, x) ∈ fields.zip values)
    (hexported : f.exported = true) (hc : e.column? f.name = some c) :
    Gives st clause render e (.value v) c (.value x)
  | entry {v x : Value} {key elem : Ty} {entries : List (MapKey × Value)} {c : Column} {k : MapKey}
    (hv : v.deref.under = .map key elem entries) (h : Takes e.columns entries c (k, x)) :
    Gives st clause render e (.value v) c (.value x)
  | binding {t : Option Ty} {bs : List (Text × Expr)} {name : Text} {b : Expr} {c : Column}
    {x : Content} (hb : (name, b) ∈ bs) (hc : e.column? name = some c)
    (hx : b.HasContent st clause render x) : Gives st clause render e (.bindings t bs) c x

/-- The content is written into the column. -/
def Content.Kept (st : Settings) (w : Column → Bool) (c : Column) : Content → Prop
  | .value v => keeps st w c v = true
  | .computed _ => w c = true

/-- All that a source gives has a column. -/
def RowSource.Mapped (st : Settings) (e : Entity) : RowSource → Prop
  | .value v =>
    match v.deref.under with
    | .map _ _ entries => ∀ y ∈ entries, ∃ c, Takes e.columns entries c y
    | .record fields values => st.registry.isAnonymous v.deref.type? = true →
      ∀ y ∈ fields.zip values, y.1.exported = true → (e.column? y.1.name).isSome = true
    | _ => True
  | .bindings _ bs => ∀ b ∈ bs, (e.column? b.1).isSome = true

/-- The row is one of the entity that its source names, and holds what the source gives, as far as
it is kept. -/
structure Row.ReadFrom (st : Settings) (clause : Clause) (w : Column → Bool)
    (render : Expr → Rendering) (source : RowSource) (r : Row) : Prop where
  entity : st.entityOf source.type? = .ok r.entity
  content?_iff : source.Distinct → ∀ c x, r.content? c = some x ↔
    source.Gives st clause render r.entity c x ∧ x.Kept st w c
  mapped : source.Distinct → source.Mapped st r.entity

/-- A binding has one content. -/
theorem Expr.HasContent.unique {b : Expr} {y : Content}
    (hx : b.HasContent st clause render x) (hy : b.HasContent st clause render y) : x = y := by
  cases hx with
  | value hclosed hv =>
    cases hy with
    | value _ hv' => cases hv.symm.trans hv'; rfl
    | computed hopen => cases hclosed.symm.trans hopen
  | computed hopen =>
    cases hy with
    | value hclosed => cases hclosed.symm.trans hopen
    | computed => rfl

namespace Row

/-- A row has for a column what its only cell for it holds. -/
theorem content?_eq_some_iff (h : (r.cells.map (·.column)).Nodup) :
    r.content? c = some x ↔ ⟨c, x⟩ ∈ r.cells := by
  rw [content?, Option.map_eq_some_iff]
  constructor
  · rintro ⟨cell, hcell, rfl⟩
    obtain rfl : cell.column = c := by simpa using List.find?_some hcell
    exact List.mem_of_find?_eq_some hcell
  · intro hmem
    cases hfind : r.cells.find? fun cell => cell.column = c with
    | none => simpa using List.find?_eq_none.mp hfind _ hmem
    | some cell =>
      have hcolumn : cell.column = c := by simpa using List.find?_some hfind
      exact ⟨cell, rfl, congrArg Cell.content
        (List.inj_on_of_nodup_map h (List.mem_of_find?_eq_some hfind) hmem hcolumn)⟩

/-- The cells of values have distinct columns if the values have. -/
theorem nodup_cellsOf {values : List (Column × Value)} (h : (values.map Prod.fst).Nodup) :
    ((cellsOf st w values : List Cell).map (·.column)).Nodup := by
  rw [cellsOf, List.map_map]
  exact h.sublist (List.filter_sublist.map _)

/-- A row of values for distinct columns holds those that are kept. -/
theorem content?_cellsOf {values : List (Column × Value)} (h : (values.map Prod.fst).Nodup) :
    (⟨e, cellsOf st w values⟩ : Row).content? c = some x ↔
      ∃ v, x = .value v ∧ (c, v) ∈ values ∧ x.Kept st w c := by
  rw [content?_eq_some_iff (nodup_cellsOf h)]
  constructor
  · intro hmem
    obtain ⟨⟨d, v⟩, hv, heq⟩ := List.mem_map.mp hmem
    cases heq
    obtain ⟨hv, hkeep⟩ := List.mem_filter.mp hv
    exact ⟨v, rfl, hv, hkeep⟩
  · rintro ⟨v, rfl, hv, hkeep⟩
    exact mem_cellsOf_iff.mpr ⟨hv, hkeep⟩

/-- A row of values is read from a source that gives these values. -/
theorem readFrom_cellsOf {source : RowSource} {values : List (Column × Value)}
    (he : st.entityOf source.type? = .ok e)
    (hvalues : source.Distinct → (values.map Prod.fst).Nodup)
    (hgives : source.Distinct → ∀ c x, source.Gives st clause render e c x ↔
      ∃ v, x = .value v ∧ (c, v) ∈ values)
    (hmapped : source.Distinct → source.Mapped st e) :
    ReadFrom st clause w render source ⟨e, cellsOf st w values⟩ where
  entity := he
  content?_iff h c x := by
    rw [content?_cellsOf (hvalues h), hgives h]
    constructor
    · rintro ⟨v, rfl, hv, hkeep⟩
      exact ⟨⟨v, rfl, hv⟩, hkeep⟩
    · rintro ⟨⟨v, rfl, hv⟩, hkeep⟩
      exact ⟨v, rfl, hv, hkeep⟩
  mapped := hmapped

/-! ### Rows of values -/

/-- The row of a record of an entity type. -/
theorem readFrom_of_ofRecord {t : Ty} (ht : v.deref.type? = some t)
    (hmap : ∀ key elem entries, v.deref.under ≠ .map key elem entries)
    (h : ofRecord st w t v.deref = .ok r) : ReadFrom st clause w render (.value v) r := by
  unfold ofRecord at h
  split at h
  · cases h
  · rename_i e he
    cases h
    have hnamed : st.registry.isAnonymous v.deref.type? = false :=
      ht ▸ Registry.not_isAnonymous he
    refine readFrom_cellsOf ?_ (fun _ => ?_) (fun _ c x => ⟨fun hx => ?_, ?_⟩) fun _ => ?_
    · rw [RowSource.type?, ht]
      exact Settings.entityOf_of_entity he
    · rw [List.map_map]
      exact (List.map_id' _).symm ▸ (Registry.nodup_members he).of_map
    · cases hx with
      | column _ hc => exact ⟨_, rfl, List.mem_map.mpr ⟨c, hc, by rw [Column.read_deref]⟩⟩
      | member _ h => exact absurd h (by simp [hnamed])
      | entry hv => exact absurd hv (hmap _ _ _)
    · rintro ⟨x, rfl, hx⟩
      obtain ⟨d, hd, heq⟩ := List.mem_map.mp hx
      cases heq
      rw [Column.read_deref]
      exact .column hnamed hd
    · simp only [RowSource.Mapped]
      split
      · rename_i hv
        exact absurd hv (hmap _ _ _)
      · exact fun h => absurd h (by simp [hnamed])
      · trivial

/-- A record of an anonymous type has no name. -/
theorem type?_of_isAnonymous {r : Registry} {fields : List (Field Ty)} {values : List Value}
    (hv : v.under = .record fields values) (h : r.isAnonymous v.type? = true) :
    v.type? = some (.record fields) := by
  have hunder := Value.type?_under v
  rw [hv] at hunder
  obtain ⟨t, ht, hrecord⟩ := Option.map_eq_some_iff.mp hunder
  replace hrecord : t.under = .record fields := hrecord
  have hself : t.indirect = t := Ty.indirect_of_ne_ptr fun e => by rw [hrecord]; nofun
  rw [ht, Registry.isAnonymous, Option.map_some, hself] at h
  cases t with
  | record fs =>
    rw [ht]
    exact congrArg some hrecord
  | _ => simp [hrecord] at h

/-- A list of steps that may fail gives the result of each step. -/
theorem mapM_eq_ok_iff {ε α β : Type} {f : α → Except ε β} {l : List α} {bs : List β} :
    l.mapM f = .ok bs ↔ List.Forall₂ (fun a b => f a = .ok b) l bs := by
  induction l generalizing bs with
  | nil =>
    constructor
    · intro h
      cases h
      exact .nil
    · intro h
      cases h
      rfl
  | cons a l ih =>
    simp only [List.mapM_cons, bind_eq_ok, List.forall₂_cons_left_iff]
    constructor
    · rintro ⟨b, hb, bs', hbs, h⟩
      cases h
      exact ⟨b, bs', hb, ih.mp hbs, rfl⟩
    · rintro ⟨b, bs', hb, hbs, rfl⟩
      exact ⟨b, hb, bs', ih.mpr hbs, rfl⟩

/-- The results of a list of steps are the results of its steps. -/
theorem mem_iff_of_mapM {ε α β : Type} {f : α → Except ε β} {l : List α} {bs : List β}
    (h : l.mapM f = .ok bs) (b : β) : b ∈ bs ↔ ∃ a ∈ l, f a = .ok b := by
  have hsteps := mapM_eq_ok_iff.mp h
  clear h
  induction hsteps with
  | nil => exact ⟨nofun, nofun⟩
  | cons ha _ ih =>
    simp only [List.mem_cons, or_and_right, exists_or, exists_eq_left, ih, ha, Except.ok.injEq]
    exact or_congr_left eq_comm

/-- Each of a list of steps has a result. -/
theorem exists_of_mapM {ε α β : Type} {f : α → Except ε β} {l : List α} {bs : List β}
    (h : l.mapM f = .ok bs) {a : α} (ha : a ∈ l) : ∃ b, f a = .ok b := by
  have hsteps := mapM_eq_ok_iff.mp h
  clear h
  induction hsteps with
  | nil => cases ha
  | cons hb _ ih =>
    rcases List.mem_cons.mp ha with rfl | ha
    · exact ⟨_, hb⟩
    · exact ih ha

/-- What the steps make of a property of what they are given. -/
theorem sublist_of_mapM {ε α β γ : Type} {f : α → Except ε β} {l : List α} {bs : List β}
    {p : α → γ} {q : β → List γ} (h : l.mapM f = .ok bs)
    (hf : ∀ a b, f a = .ok b → (q b).Sublist [p a]) : (bs.flatMap q).Sublist (l.map p) := by
  have hsteps := mapM_eq_ok_iff.mp h
  clear h
  induction hsteps with
  | nil => exact .slnil
  | cons hb _ ih => exact (hf _ _ hb).append ih

/-- The column of a member. -/
theorem columnOf_eq_ok_iff {name : Text} :
    columnOf e name = .ok c ↔ e.column? name = some c := by
  unfold columnOf
  cases e.column? name with
  | none => exact ⟨nofun, nofun⟩
  | some d => exact ⟨fun h => by cases h; rfl, fun h => by cases h; rfl⟩

theorem member_of_column? {name : Text} (h : e.column? name = some c) : c.member = name := by
  simpa using List.find?_some h

theorem map_fst_zip_sublist {α β : Type} (as : List α) (bs : List β) :
    ((as.zip bs).map Prod.fst).Sublist as := by
  induction as generalizing bs with
  | nil => exact .slnil
  | cons a as ih =>
    cases bs with
    | nil => exact List.nil_sublist _
    | cons b bs => exact (ih bs).cons_cons a

/-- The row of a record of an unnamed type. -/
theorem readFrom_of_ofShape {fields : List (Field Ty)} {values : List Value}
    (hv : v.deref.under = .record fields values)
    (hanonymous : st.registry.isAnonymous v.deref.type? = true)
    (h : ofShape st w fields values = .ok r) : ReadFrom st clause w render (.value v) r := by
  unfold ofShape at h
  obtain ⟨e, he, h⟩ := bind_eq_ok.mp h
  obtain ⟨found, hfound, h⟩ := bind_eq_ok.mp h
  cases h
  have hentity := entityOf_of_target he
  rw [← type?_of_isAnonymous hv hanonymous] at hentity
  have hstep : ∀ (f : Field Ty) (x : Value) (c : Column) (y : Value),
      (do return (← columnOf e f.name, x) : Attempt CompileError _) = .ok (c, y) ↔
        e.column? f.name = some c ∧ x = y := by
    intro f x c y
    rw [bind_eq_ok]
    constructor
    · rintro ⟨d, hd, hy⟩
      cases hy
      exact ⟨columnOf_eq_ok_iff.mp hd, rfl⟩
    · rintro ⟨hc, rfl⟩
      exact ⟨c, columnOf_eq_ok_iff.mpr hc, rfl⟩
  refine readFrom_cellsOf hentity (fun hdistinct => ?_) (fun _ c x => ⟨fun hx => ?_, ?_⟩)
    fun _ => ?_
  · simp only [RowSource.Distinct, hv] at hdistinct
    have hmembers : (found.map fun z => z.1.member).Sublist (fields.map (·.name)) := by
      rw [List.map_eq_flatMap]
      refine (sublist_of_mapM (p := fun y => y.1.name) hfound fun y z hz => ?_).trans ?_
      · rw [member_of_column? ((hstep ..).mp hz).1]
      · have hgiven := (List.filter_sublist (l := fields.zip values)
          (p := fun y => y.1.exported)).map Prod.fst
        have hfields := (hgiven.trans (map_fst_zip_sublist fields values)).map (·.name)
        rwa [List.map_map] at hfields
    refine .of_map (·.member) ?_
    rw [List.map_map]
    exact hdistinct.sublist hmembers
  · cases hx with
    | column hnamed => exact absurd hanonymous (by simp [hnamed])
    | member hv' _ hf hexported hc =>
      cases hv.symm.trans hv'
      refine ⟨_, rfl, (mem_iff_of_mapM hfound _).mpr ⟨(_, _), ?_, (hstep ..).mpr ⟨hc, rfl⟩⟩⟩
      exact List.mem_filter.mpr ⟨hf, hexported⟩
    | entry hv' => cases hv.symm.trans hv'
  · rintro ⟨x, rfl, hx⟩
    obtain ⟨⟨f, y⟩, hy, hz⟩ := (mem_iff_of_mapM hfound _).mp hx
    obtain ⟨hc, rfl⟩ := (hstep ..).mp hz
    obtain ⟨hy, hexported⟩ := List.mem_filter.mp hy
    exact .member hv hanonymous hy hexported hc
  · simp only [RowSource.Mapped, hv]
    intro _ y hy hexported
    obtain ⟨z, hz⟩ := exists_of_mapM hfound (List.mem_filter.mpr ⟨hy, hexported⟩)
    exact Option.isSome_of_mem ((hstep ..).mp hz).1

/-- The row of a map. -/
theorem readFrom_of_ofMap {t key elem : Ty} {entries : List (MapKey × Value)}
    (ht : v.deref.type? = some t)
    (hv : v.deref.under = .map key elem entries ∨
      v.deref.under = .nilMap key elem ∧ entries = [])
    (h : ofMap st w t entries = .ok r) : ReadFrom st clause w render (.value v) r := by
  unfold ofMap at h
  split at h
  · rename_i hmap
    split at h
    · cases h
    · obtain ⟨e, he, h⟩ := bind_eq_ok.mp h
      have hentity := entityOf_of_target he
      rw [← ht] at hentity
      have hanonymous : st.registry.isAnonymous v.deref.type? = true := ht ▸ isAnonymous_of_map hmap
      split at h
      · rename_i taken htaken
        cases h
        have hkeys : (RowSource.value v).Distinct → (entries.map Prod.fst).Nodup := by
          intro hdistinct
          rcases hv with hv | ⟨hv, rfl⟩
          · simpa only [RowSource.Distinct, hv] using hdistinct
          · exact List.nodup_nil
        have hsublist := takeEntries_sublist e.columns entries
        rw [htaken] at hsublist
        refine readFrom_cellsOf hentity (fun _ => ?_) (fun hdistinct c x => ?_) fun hdistinct => ?_
        · exact (Settings.nodup_members hentity).of_map.sublist hsublist
        · have hspec := (takeEntries_spec e.columns (hkeys hdistinct)).1
          rw [htaken] at hspec
          constructor
          · intro hx
            cases hx with
            | column hnamed => exact absurd hanonymous (by simp [hnamed])
            | member hv' => rcases hv with hv | ⟨hv, -⟩ <;> cases hv.symm.trans hv'
            | entry hv' hk =>
              rcases hv with hv | ⟨hv, -⟩ <;> cases hv.symm.trans hv'
              exact ⟨_, rfl, (hspec ..).mpr ⟨_, hk⟩⟩
          · rintro ⟨x, rfl, hx⟩
            obtain ⟨k, hk⟩ := (hspec ..).mp hx
            rcases hv with hv | ⟨hv, rfl⟩
            · exact .entry hv hk
            · cases mem_of_takes hk
        · have hspec := (takeEntries_spec e.columns (hkeys hdistinct)).2
          rw [htaken] at hspec
          rcases hv with hv | ⟨hv, rfl⟩
          · simp only [RowSource.Mapped, hv]
            exact fun y hy => (hspec y hy).resolve_left List.not_mem_nil
          · simp only [RowSource.Mapped, hv]
      · cases h
      · cases h
  · cases h

/-- **The row of a value.** -/
theorem readFrom_of_ofValue (h : ofValue st w v = .ok r) :
    ReadFrom st clause w render (.value v) r := by
  unfold ofValue at h
  simp only at h
  split at h
  · cases h
  · rename_i t ht
    split at h
    · cases h
    · cases h
    · rename_i hv
      exact readFrom_of_ofMap ht (.inl hv) h
    · rename_i hv
      exact readFrom_of_ofMap ht (.inr ⟨hv, rfl⟩) h
    · rename_i hv
      split at h
      · rename_i hanonymous
        exact readFrom_of_ofShape hv (ht ▸ hanonymous) h
      · exact readFrom_of_ofRecord ht (fun _ _ _ hmap => nomatch hv.symm.trans hmap) h
    · rename_i hv
      exact readFrom_of_ofRecord ht (fun _ _ _ hmap => nomatch hv.symm.trans hmap) h
    · cases h

/-- The rows of a value, one for each of its sources. -/
theorem readFrom_of_allOfValue {rows : List Row} (h : allOfValue st w v = .ok rows) :
    List.Forall₂ (fun source r => ReadFrom st clause w render source r) v.rowSources rows := by
  unfold allOfValue at h
  split at h
  · rename_i items hitems
    rw [Value.rowSources, hitems, Option.getD_some, List.forall₂_map_left_iff]
    exact (mapM_eq_ok_iff.mp h).imp fun _ _ => readFrom_of_ofValue
  · rename_i hitems
    obtain ⟨r, hr, h⟩ := bind_eq_ok.mp h
    cases h
    rw [Value.rowSources, hitems, Option.getD_none]
    exact .cons (readFrom_of_ofValue hr) .nil

/-! ### Rows of bindings -/

/-- The cells of a binding: one, if its content is kept. -/
theorem cells_of_binding {name : Text} {b : Expr} {cells : List Cell}
    (h : (do
      let c ← columnOf e name
      if !b.isClosed then
        return if w c then [⟨c, .computed ((render b).value clause)⟩] else []
      else
        let v ← (b.eval st.pre).mapError (.boundMember name)
        return cellsOf st w [(c, v)] : Attempt CompileError (List Cell)) = .ok cells) :
    ∃ c x, e.column? name = some c ∧ b.HasContent st clause render x ∧
      (x.Kept st w c ∧ cells = [⟨c, x⟩] ∨ ¬ x.Kept st w c ∧ cells = []) := by
  obtain ⟨c, hc, h⟩ := bind_eq_ok.mp h
  rw [columnOf_eq_ok_iff] at hc
  split at h
  · rename_i hopen
    cases h
    refine ⟨c, _, hc, .computed (by simpa using hopen), ?_⟩
    by_cases hw : w c = true
    · exact .inl ⟨hw, if_pos hw⟩
    · exact .inr ⟨hw, if_neg hw⟩
  · rename_i hclosed
    obtain ⟨v, hv, h⟩ := bind_eq_ok.mp h
    cases h
    refine ⟨c, .value v, hc, .value (by simpa using hclosed) (Attempt.eq_ok_of_mapError hv), ?_⟩
    by_cases hkeep : keeps st w c v = true
    · exact .inl ⟨hkeep, by simp [cellsOf, hkeep]⟩
    · exact .inr ⟨hkeep, by simp [cellsOf, hkeep]⟩

/-- **The row of a constructor.** -/
theorem readFrom_of_ofBindings {t : Option Ty} {bs : List (Text × Expr)}
    (h : ofBindings st w t (bs.map fun (name, b) => (name, b, (render b).value clause)) = .ok r) :
    ReadFrom st clause w render (.bindings t bs) r := by
  unfold ofBindings at h
  obtain ⟨e, he, h⟩ := bind_eq_ok.mp h
  obtain ⟨cells, hcells, h⟩ := bind_eq_ok.mp h
  cases h
  rw [List.mapM_map] at hcells
  have hentity := entityOf_of_target he
  refine ⟨hentity, fun hdistinct c x => ?_, fun _ b hb => ?_⟩
  · have hcolumns : (cells.flatten.map (·.column)).Nodup := by
      refine .of_map (·.member) (hdistinct.sublist ?_)
      rw [List.map_map, List.flatten_eq_flatMap, List.map_flatMap]
      refine sublist_of_mapM hcells fun b cs hcs => ?_
      obtain ⟨c, x, hc, -, ⟨-, rfl⟩ | ⟨-, rfl⟩⟩ := cells_of_binding hcs
      · simp [member_of_column? hc]
      · exact List.nil_sublist _
    rw [content?_eq_some_iff hcolumns, List.mem_flatten]
    constructor
    · rintro ⟨cs, hcs, hmem⟩
      obtain ⟨b, hb, hcs⟩ := (mem_iff_of_mapM hcells _).mp hcs
      obtain ⟨d, y, hd, hy, ⟨hkept, rfl⟩ | ⟨-, rfl⟩⟩ := cells_of_binding hcs
      · cases List.mem_singleton.mp hmem
        exact ⟨.binding hb hd hy, hkept⟩
      · cases hmem
    · rintro ⟨hgives, hkept⟩
      cases hgives with
      | @binding _ _ name b _ _ hb hc hx =>
        obtain ⟨cs, hcs⟩ := exists_of_mapM hcells hb
        refine ⟨cs, (mem_iff_of_mapM hcells _).mpr ⟨_, hb, hcs⟩, ?_⟩
        obtain ⟨d, y, hd, hy, hcells⟩ := cells_of_binding hcs
        cases hc.symm.trans hd
        obtain rfl := hx.unique hy
        obtain ⟨-, rfl⟩ | ⟨hnot, -⟩ := hcells
        · exact List.mem_singleton.mpr rfl
        · exact absurd hkept hnot
  · obtain ⟨cs, hcs⟩ := exists_of_mapM hcells hb
    obtain ⟨c, -, hc, -⟩ := cells_of_binding hcs
    exact Option.isSome_of_mem hc

end Row

/-! ### Rows of expressions -/

/-- Every row is read from its source, in the expression or in a body that is inlined. -/
def ReadFromAll (st : Settings) (clause : Clause) (w : Column → Bool) :
    List RowSource → List Row → Prop :=
  List.Forall₂ fun source r => ∃ depth, ReadFrom st clause w (Expr.renderTo st depth) source r

/-- The rows of a rendering are read from the sources of the expression, as an item of a list and as
a whole. -/
structure Rendering.ReadsRows (st : Settings) (e : Expr) (r : Rendering) : Prop where
  row : ∀ clause w rows, r.row clause w = .ok rows →
    ∃ sources, e.ItemSources st.pre sources ∧ ReadFromAll st clause w sources rows
  rows : ∀ clause w rows, r.rows clause w = .ok rows →
    ∃ sources, e.RowSources st.pre sources ∧ ReadFromAll st clause w sources rows

namespace Rendering

variable {rows : List Row} {l : Rendering}

theorem readFromAll_of_allOfValue (h : allOfValue st w v = .ok rows) :
    ReadFromAll st clause w v.rowSources rows :=
  (readFrom_of_allOfValue h).imp fun _ _ h => ⟨0, h⟩

theorem row_of_rowsOfValue {e : Expr} (h : rowsOfValue st e w = .ok rows)
    (he : ∀ t bs, e.unquote ≠ .new t bs ∧ e.unquote ≠ .init t bs) :
    ∃ sources, e.ItemSources st.pre sources ∧ ReadFromAll st clause w sources rows := by
  unfold rowsOfValue at h
  split at h
  · rename_i v _ hv
    exact ⟨_, .evaluated he hv, readFromAll_of_allOfValue h⟩
  · cases h
  · cases h

theorem rows_of_foldedRows {e : Expr} (h : foldedRows st e (noRows e) clause w = .ok rows)
    (he : e.unquote = e) :
    ∃ sources, e.RowSources st.pre sources ∧ ReadFromAll st clause w sources rows := by
  unfold foldedRows at h
  obtain ⟨v?, hv, h⟩ := bind_eq_ok.mp h
  cases v? with
  | none => exact absurd h noRows_ne_ok
  | some v =>
    unfold Expr.folded? at hv
    split at hv
    · rename_i hfold
      obtain ⟨hfold, hclosed⟩ := Bool.and_eq_true_iff.mp hfold
      split at hv <;> cases hv
      rename_i hv
      exact ⟨_, .folded he hfold hclosed hv, readFromAll_of_allOfValue h⟩
    · cases hv

/-- A construct that is one value. -/
theorem readsRows_scalar {e : Expr} {value condition : Clause → Emit Text} {isTest : Bool}
    {addends : Option (List (Clause → Emit Text))} (he : e.unquote = e)
    (hshape : ∀ t bs, e ≠ .new t bs ∧ e ≠ .init t bs) :
    ReadsRows st e (scalar st e value condition isTest addends) where
  row _ _ _ h := row_of_rowsOfValue h fun t bs => by rw [he]; exact hshape t bs
  rows _ _ _ h := rows_of_foldedRows h he

/-- A construct of which no rows are written directly. -/
theorem readsRows_unsupported {e : Expr}
    (he : ∀ t bs, e.unquote ≠ .new t bs ∧ e.unquote ≠ .init t bs) :
    ReadsRows st e (unsupported st e) where
  row _ _ _ h := row_of_rowsOfValue h he
  rows clause w _ h := absurd (show noRows e clause w = _ from h) noRows_ne_ok

theorem readsRows_constant (v : Value) (t : Option Ty) :
    ReadsRows st (.const v t) (constant st v t) where
  row _ _ _ h := ⟨_, .evaluated (fun _ _ => ⟨nofun, nofun⟩) (by rw [Expr.eval]),
    readFromAll_of_allOfValue h⟩
  rows _ _ _ h := ⟨_, .const v t, readFromAll_of_allOfValue h⟩

/-- A quoted constructor or constant is an item as it is without the quote. -/
theorem quoted_row (st : Settings) (l : Rendering) (t : Option Ty) (clause : Clause)
    (w : Column → Bool) : (quoted st l t).row clause w = l.row clause w ∨
      (quoted st l t).row clause w = rowsOfValue st (.unary .quote l.expr t) w ∧
        ∀ t bs, l.expr.unquote ≠ .new t bs ∧ l.expr.unquote ≠ .init t bs := by
  simp only [quoted]
  cases l.expr.unquote with
  | new | init | const => exact .inl (if_pos rfl)
  | _ =>
    refine .inr ⟨if_neg Bool.false_ne_true, fun _ _ => ⟨?_, ?_⟩⟩
    · rintro ⟨⟩
    · rintro ⟨⟩

theorem readsRows_quoted {e : Expr} (hl : ReadsRows st e l) (hexpr : l.expr = e)
    (t : Option Ty) : ReadsRows st (.unary .quote e t) (quoted st l t) where
  row clause w rows h := by
    have hunquote : (Expr.unary .quote e t).unquote = e.unquote := by rw [Expr.unquote]
    have hitem : ∀ sources, e.ItemSources st.pre sources →
        (Expr.unary .quote e t).ItemSources st.pre sources := by
      intro sources hsources
      cases hsources with
      | constructed he => exact .constructed (by rwa [hunquote])
      | evaluated he hv =>
        refine .evaluated (by rwa [hunquote]) ?_
        rw [Expr.eval, hv]
        rfl
    obtain rfl := hexpr
    obtain hrow | ⟨hrow, hshape⟩ := quoted_row st l t clause w
    · obtain ⟨sources, hsources, hread⟩ := hl.row clause w rows (hrow ▸ h)
      exact ⟨sources, hitem sources hsources, hread⟩
    · refine row_of_rowsOfValue (hrow ▸ h) fun t bs => ?_
      rw [hunquote]
      exact hshape t bs
  rows clause w rows h := by
    obtain ⟨sources, hsources, hread⟩ := hl.rows clause w rows h
    exact ⟨sources, .quote hsources, hread⟩

theorem readsRows_lambda {e : Expr} (hl : ReadsRows st e l) (hexpr : l.expr = e)
    (ps : List Param) : ReadsRows st (.lambda e ps) (lambda st l ps) where
  row _ w rows h := by
    refine row_of_rowsOfValue (show rowsOfValue st (.lambda e ps) w = .ok rows from ?_)
      fun t bs => ⟨nofun, nofun⟩
    rw [← hexpr]
    exact h
  rows clause w rows h := by
    obtain ⟨sources, hsources, hread⟩ := hl.rows clause w rows h
    exact ⟨sources, .lambda hsources, hread⟩

theorem readsRows_invocation {target : Expr} {args : List Expr} {render : Expr → Rendering}
    (h : ∀ body, ReadsRows st body (render body)) : ReadsRows st (.invoke target args)
      (invocation st (.invoke target args) fun _ => (Expr.inline target args).map render) where
  row _ _ _ hrows := row_of_rowsOfValue hrows fun t bs => ⟨nofun, nofun⟩
  rows clause w rows hrows := by
    simp only [invocation] at hrows
    split at hrows
    · rename_i r hr
      obtain ⟨body, hbody, rfl⟩ := map_eq_ok.mp hr
      obtain ⟨sources, hsources, hread⟩ := (h body).rows clause w rows hrows
      exact ⟨sources, .invoke hbody hsources, hread⟩
    · cases hrows

end Rendering

namespace Expr

variable {inlined : Expr → Rendering}

/-- The row of a constructor. -/
theorem readFromAll_of_shapeRow {depth : Nat} {t : Option Ty} {bs : List (Text × Expr)}
    {rows : List Row}
    (h : Rendering.shapeRow st t (renderBindings st (renderTo st depth) bs) clause w = .ok rows) :
    ReadFromAll st clause w [.bindings t bs] rows := by
  unfold Rendering.shapeRow at h
  obtain ⟨r, hr, h⟩ := bind_eq_ok.mp h
  cases h
  simp only [renderBindings_eq_map, List.map_map] at hr
  refine .cons ⟨depth + 1, readFrom_of_ofBindings ?_⟩ .nil
  rw [← hr]
  congr 1
  refine List.map_congr_left fun ⟨name, b⟩ _ => ?_
  simp only [Function.comp_apply, renderWith_expr]
  rfl

/-- The rows of the items of a list. -/
theorem readFromAll_of_items {es : List Expr} {rows : List (List Row)}
    (hes : ∀ e ∈ es, (e.renderWith st inlined).ReadsRows st e)
    (h : (renderAll st inlined es).mapM (·.row clause w) = .ok rows) :
    ∃ sources, List.Forall₂ (ItemSources st.pre) es sources ∧
      ReadFromAll st clause w sources.flatten rows.flatten := by
  rw [renderAll_eq_map, List.mapM_map, mapM_eq_ok_iff] at h
  induction h with
  | nil => exact ⟨[], .nil, .nil⟩
  | cons hrows _ ih =>
    obtain ⟨sources, hsources, hread⟩ := (hes _ List.mem_cons_self).row _ _ _ hrows
    obtain ⟨rest, hrest, hreads⟩ := ih fun e he => hes e (List.mem_cons_of_mem _ he)
    exact ⟨sources :: rest, .cons hsources hrest, List.rel_append hread hreads⟩

theorem readsRows_items {whole : Expr} {es : List Expr}
    (hes : ∀ e ∈ es, (e.renderWith st inlined).ReadsRows st e)
    (hwhole : ∀ t bs, whole.unquote ≠ .new t bs ∧ whole.unquote ≠ .init t bs)
    (hsources : ∀ sources, List.Forall₂ (ItemSources st.pre) es sources →
      whole.RowSources st.pre sources.flatten) :
    (Rendering.items st whole (renderAll st inlined es)).ReadsRows st whole where
  row _ _ _ h := Rendering.row_of_rowsOfValue h hwhole
  rows clause w rows h := by
    simp only [Rendering.items] at h
    split at h
    · obtain ⟨rss, hrss, h⟩ := bind_eq_ok.mp h
      cases h
      obtain ⟨sources, hall, hread⟩ := readFromAll_of_items hes hrss
      exact ⟨_, hsources sources hall, hread⟩
    · exact absurd h Rendering.noRows_ne_ok

mutual

/-- One case per construct: the rows of an expression are read from its sources when the rows of
inlined bodies are. -/
theorem readsRows_renderWith {depth : Nat}
    (hin : ∀ e, (renderTo st depth e).ReadsRows st e) :
    (e : Expr) → (renderWith st (renderTo st depth) e).ReadsRows st e
  | hole => by
    rw [renderWith]
    exact Rendering.readsRows_unsupported (e := hole) fun _ _ => ⟨nofun, nofun⟩
  | const v t => by
    rw [renderWith]
    exact Rendering.readsRows_constant v t
  | param p => by
    rw [renderWith]
    have h : (Rendering.unsupported st (param p)).ReadsRows st (param p) :=
      Rendering.readsRows_unsupported fun _ _ => ⟨nofun, nofun⟩
    exact ⟨h.row, h.rows⟩
  | member e n t o => by
    rw [renderWith]
    exact Rendering.readsRows_scalar (by rw [unquote]; nofun) fun _ _ => ⟨nofun, nofun⟩
  | binary op l r => by
    rw [renderWith, Rendering.binary, renderWith_expr, renderWith_expr]
    exact Rendering.readsRows_scalar (by rw [unquote]; nofun) fun _ _ => ⟨nofun, nofun⟩
  | unary op e t => by
    cases op with
    | quote =>
      rw [renderWith]
      exact Rendering.readsRows_quoted (readsRows_renderWith hin e) (renderWith_expr ..) t
    | _ =>
      rw [renderWith, Rendering.unary, renderWith_expr]
      · exact Rendering.readsRows_scalar (by rw [unquote]; nofun) fun _ _ => ⟨nofun, nofun⟩
      · nofun
  | call e m args t f => by
    rw [renderWith, Rendering.call, renderWith_expr, renderAll_expr]
    exact Rendering.readsRows_scalar (by rw [unquote]; nofun) fun _ _ => ⟨nofun, nofun⟩
  | new t bs => by
    rw [renderWith]
    exact ⟨fun _ _ _ h =>
      ⟨_, .constructed (.inl (by rw [unquote]; nofun)), readFromAll_of_shapeRow h⟩,
      fun _ _ _ h => ⟨_, .new t bs, readFromAll_of_shapeRow h⟩⟩
  | init t bs => by
    rw [renderWith]
    exact ⟨fun _ _ _ h =>
      ⟨_, .constructed (.inr (by rw [unquote]; nofun)), readFromAll_of_shapeRow h⟩,
      fun _ _ _ h => ⟨_, .init t bs, readFromAll_of_shapeRow h⟩⟩
  | list t es => by
    rw [renderWith]
    have hes := readsRows_renderAll hin es
    refine readsRows_items hes (fun _ _ => ⟨nofun, nofun⟩) fun sources hsources => ?_
    exact .list hsources
  | array t es => by
    rw [renderWith]
    have hes := readsRows_renderAll hin es
    refine readsRows_items hes (fun _ _ => ⟨nofun, nofun⟩) fun sources hsources => ?_
    exact .array hsources
  | lambda body ps => by
    rw [renderWith]
    exact Rendering.readsRows_lambda (readsRows_renderWith hin body) (renderWith_expr ..) ps
  | invoke target args => by
    rw [renderWith]
    exact Rendering.readsRows_invocation hin
  | cond c a b => by
    rw [renderWith, Rendering.cond, renderWith_expr, renderWith_expr, renderWith_expr]
    exact Rendering.readsRows_scalar (by rw [unquote]; nofun) fun _ _ => ⟨nofun, nofun⟩

theorem readsRows_renderAll {depth : Nat} (hin : ∀ e, (renderTo st depth e).ReadsRows st e) :
    (es : List Expr) → ∀ e ∈ es, (renderWith st (renderTo st depth) e).ReadsRows st e
  | [], _, h => absurd h List.not_mem_nil
  | e :: es, y, h => (List.mem_cons.mp h).elim (fun hy => hy ▸ readsRows_renderWith hin e)
    (readsRows_renderAll hin es y)

end

theorem readsRows_renderTo (depth : Nat) (e : Expr) : (renderTo st depth e).ReadsRows st e := by
  induction depth generalizing e with
  | zero =>
    -- nothing is read where the nesting of inlined bodies is exhausted
    have hrow : ∀ w, (Rendering.rowsOfValue st hole w : Attempt CompileError (List Row)) =
        .fail .missingRow := fun w => by
      rw [Rendering.rowsOfValue, eval]
      rfl
    refine ⟨fun _ w rows h => ?_, fun clause w rows h => ?_⟩
    · cases (hrow w).symm.trans h
    · exact absurd (show Rendering.noRows hole clause w = _ from h) Rendering.noRows_ne_ok
  | succ depth ih => exact readsRows_renderWith ih e

/-- **The rows of an expression**: each is read from its source and holds what this gives. -/
theorem readFrom_of_rows {e : Expr} {rows : List Row} (h : (e.render st).rows clause w = .ok rows) :
    ∃ sources, e.RowSources st.pre sources ∧ ReadFromAll st clause w sources rows :=
  (readsRows_renderTo inlineDepth e).rows clause w rows h

end Expr

end QueryTree
