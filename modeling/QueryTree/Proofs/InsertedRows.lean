import QueryTree.Proofs.Locality
import QueryTree.Proofs.Numerals
import QueryTree.Proofs.RowSources

/-!
# The rows that an insertion stores

An insertion lists the columns that any of its rows has, in the order of their first appearance. Of
every row it stores, under every listed column, the value that the row has for it, bound with the
declared type of the column, or null if the row has none; what the database is to compute is written
as it is emitted. Values are bound in the order in which the cells are written, row by row. What a
row has for a column is what its source gives: the record, map or shape, or the bindings, that it is
read from.

The text is read back: it is split into cells, and the marks in a cell stand for the next bound
values, or for those that they number. That gives the rows as they were stored, in both layouts.
Only what is computed can hide a separator or a mark, in a name that is written without quotes and
cannot be read as one. Rows of values are read back whatever the names are.

## Main definitions

* `Stored`: what is written for a cell, and the values that are bound in it
* `Row.Stores`: what a row stores in a column
* `Sql.readInsert`: the cells of an insertion, read from its text and its bound values
* `ListsFirst`: the distinct elements of a list in the order of their first appearance
* `Code`, `Emit.Encodes`: texts that are read back

## Main results

* `Emit.encodes_separated`: texts with separators between them, one for each element of a list
* `Insert.rows_read_back`: the rows of an insertion
-/

namespace QueryTree

open Emit Sql

/-! ### Columns in the order of their first appearance -/

/-- The second list has the elements of the first, each once and in the order in which they appear
first. -/
structure ListsFirst {α : Type} [BEq α] (xs ys : List α) : Prop where
  nodup : ys.Nodup
  mem_iff : ∀ x, x ∈ ys ↔ x ∈ xs
  ordered : ys.Pairwise fun x y => xs.idxOf x < xs.idxOf y

/-- The columns of the cells of rows, row by row. -/
def keptColumns (rows : List Row) : List Column := rows.flatMap fun r => r.cells.map (·.column)

theorem ListsFirst.step {α : Type} [DecidableEq α] {xs ys : List α} (h : ListsFirst xs ys) (x : α) :
    ListsFirst (xs ++ [x]) (if ys.contains x then ys else ys ++ [x]) := by
  have hsame : ys.Pairwise fun y z => (xs ++ [x]).idxOf y < (xs ++ [x]).idxOf z := by
    refine h.ordered.imp_of_mem fun hy hz hlt => ?_
    rwa [List.idxOf_append_of_mem ((h.mem_iff _).mp hy),
      List.idxOf_append_of_mem ((h.mem_iff _).mp hz)]
  split
  · rename_i hx
    have hx : x ∈ xs := (h.mem_iff x).mp (by simpa using hx)
    refine ⟨h.nodup, fun y => ?_, hsame⟩
    rw [h.mem_iff, List.mem_append, List.mem_singleton]
    exact ⟨.inl, fun hy => hy.elim id fun hyx => hyx ▸ hx⟩
  · rename_i hx
    have hx : x ∉ ys := by simpa using hx
    refine ⟨?_, fun y => by simp [h.mem_iff], ?_⟩
    · exact List.nodup_append.mpr ⟨h.nodup, List.nodup_singleton x, fun y hy z hz =>
        List.mem_singleton.mp hz ▸ fun hyx => hx (hyx ▸ hy)⟩
    · refine List.pairwise_append.mpr ⟨hsame, List.pairwise_singleton _ _, fun y hy z hz => ?_⟩
      obtain rfl := List.mem_singleton.mp hz
      have hy := (h.mem_iff y).mp hy
      rw [List.idxOf_append_of_mem hy,
        List.idxOf_append_of_notMem fun hz => hx ((h.mem_iff z).mpr hz)]
      exact Nat.lt_of_lt_of_le (List.idxOf_lt_length_of_mem hy) (Nat.le_add_right _ _)

/-- An insertion lists the columns of its rows in the order of their first appearance. -/
theorem listsFirst_columnsOfRows (rows : List Row) :
    ListsFirst (keptColumns rows) (columnsOfRows rows) := by
  have fold : ∀ (l seen cols : List Column), ListsFirst seen cols →
      ListsFirst (seen ++ l) (l.foldl
        (fun cols c => if cols.contains c then cols else cols ++ [c]) cols) := by
    intro l
    induction l with
    | nil => exact fun seen cols h => by rwa [List.append_nil]
    | cons c l ih =>
      intro seen cols h
      have hnext := ih (seen ++ [c]) _ (h.step c)
      rwa [List.append_assoc, List.singleton_append] at hnext
  exact fold (keptColumns rows) [] [] ⟨List.nodup_nil, fun x => Iff.rfl, .nil⟩

/-! ### What is stored -/

/-- What is written for a cell, and the values that are bound in it. -/
structure Stored where
  text : Text
  bounds : List Bound

/-- What a row stores in a column where the values `params` are bound. -/
inductive Row.Stores (p : Profile) (params : List Bound) (r : Row) (c : Column) : Stored → Prop
  | null (h : r.content? c = none) : Stores p params r c ⟨"NULL", []⟩
  | value {v : Value} {i : Nat} (h : r.content? c = some (.value v))
    (hi : params[i]? = some ⟨v, c.dataType⟩) :
    Stores p params r c ⟨p.placeholder (i + 1), [⟨v, c.dataType⟩]⟩
  /-- The first value that is bound in what is computed takes the type of the column, unless it has
  one of its own. -/
  | computed {m : Emit Text} {s s' : Slate} {t : Text} {bs : List Bound}
    (h : r.content? c = some (.computed m)) (hs : s.pendingType = c.dataType)
    (hm : Yields m s t s') (hbs : s'.params = s.params ++ bs) : Stores p params r c ⟨t, bs⟩

namespace Sql

/-- The bound value that a mark stands for: the next one, or the one whose mark it is. -/
def boundAt? (p : Profile) (params : List Bound) (next : Nat) (mark : Text) : Option Bound :=
  match p.marker with
  | .question => params[next]?
  | .numbered _ => ((List.range params.length).find? fun i : Nat =>
      p.placeholder (i + 1) = mark).bind (params[·]?)

/-- The bound value that a mark stands for. The state counts the marks that were read. -/
def readMark (p : Profile) (params : List Bound) (mark : Text) : StateT Nat Option Bound :=
  fun next => (boundAt? p params next mark).map (·, next + 1)

/-- The text of a cell with the values that its marks stand for. -/
def readCell (p : Profile) (params : List Bound) (t : Text) : StateT Nat Option Stored := do
  return ⟨t, ← (marks p t).mapM (readMark p params)⟩

/-- The cells of the rows of an insertion, read from their text and the values bound in it. -/
def readInsert (p : Profile) (params : List Bound) (t : Text) : Option (List (List Stored)) := do
  let rows ← readRows p.insert.layout t
  (rows.mapM fun ts : List Text => ts.mapM (readCell p params)).run' 0

end Sql

/-! ### Marks and bound values -/

theorem Sql.placeholder_inj (d : Dialect) (hd : d.profile.marker ≠ .question) {i j : Nat}
    (h : d.profile.placeholder (i + 1) = d.profile.placeholder (j + 1)) : i = j := by
  have numbered : ∀ lead : Text, lead ++ Text.ofNat (i + 1) = lead ++ Text.ofNat (j + 1) → i = j :=
    fun lead h => Nat.succ.inj (Text.ofNat_injective (List.append_cancel_left h))
  cases d with
  | sqlServer => exact numbered "@p" h
  | postgres => exact numbered "$" h
  | oracle => exact numbered ":" h
  | mySql | sqlite => exact absurd rfl hd

theorem Sql.boundAt?_placeholder (d : Dialect) {params : List Bound} {n : Nat}
    (hn : n < params.length) :
    boundAt? d.profile params n (d.profile.placeholder (n + 1)) = params[n]? := by
  unfold boundAt?
  split
  · rfl
  · rename_i hm
    have hne : d.profile.marker ≠ .question := by simp [hm]
    cases hfind : (List.range params.length).find? fun i : Nat =>
        d.profile.placeholder (i + 1) = d.profile.placeholder (n + 1) with
    | none => simpa using List.find?_eq_none.mp hfind n (List.mem_range.mpr hn)
    | some i =>
      obtain rfl := placeholder_inj d hne (by simpa using List.find?_some hfind)
      rfl

/-- The marks from `n + 1` on are read as the values bound from `n + 1` on. -/
theorem Sql.mapM_readMark (d : Dialect) (bs pre post : List Bound) :
    ((markRange d.profile pre.length (pre.length + bs.length)).mapM
        (readMark d.profile (pre ++ bs ++ post))).run pre.length =
      some (bs, pre.length + bs.length) := by
  induction bs generalizing pre with
  | nil => simp [markRange_self]
  | cons b bs ih =>
    have hlen : pre.length + (b :: bs).length = (pre ++ [b]).length + bs.length := by
      simp only [List.length_append, List.length_cons, List.length_nil]
      omega
    have hrange : markRange d.profile pre.length (pre.length + (b :: bs).length) =
        d.profile.placeholder (pre.length + 1) ::
          markRange d.profile (pre ++ [b]).length ((pre ++ [b]).length + bs.length) := by
      have hone : (pre ++ [b]).length = pre.length + 1 := by simp
      rw [hlen, hone, ← markRange_append d.profile (Nat.le_succ pre.length)
        (Nat.le_add_right (pre.length + 1) bs.length)]
      simp [markRange]
    have hparams : pre ++ b :: bs ++ post = pre ++ [b] ++ bs ++ post := by simp
    have hmark : (readMark d.profile (pre ++ [b] ++ bs ++ post)
        (d.profile.placeholder (pre.length + 1))).run pre.length =
        some (b, (pre ++ [b]).length) := by
      have hget : (pre ++ [b] ++ bs ++ post)[pre.length]? = some b := by simp
      have hlt : pre.length < (pre ++ [b] ++ bs ++ post).length := by
        simp only [List.length_append, List.length_cons]
        omega
      show (boundAt? _ _ _ _).map _ = _
      rw [boundAt?_placeholder d hlt, hget, Option.map_some, List.length_append,
        List.length_singleton]
    have htail := ih (pre ++ [b])
    rw [hrange, hparams, List.mapM_cons, StateT.run_bind, hmark]
    simp only [Option.bind_eq_bind, Option.bind_some, StateT.run_bind, htail, hlen]
    rfl

/-- A cell is read as it was written. -/
theorem Sql.readCell_eq {d : Dialect} {bs pre post : List Bound} {t : Text}
    (h : Sql.Tidy d pre.length (pre.length + bs.length) t) :
    (readCell d.profile (pre ++ bs ++ post) t).run pre.length =
      some (⟨t, bs⟩, pre.length + bs.length) := by
  rw [readCell, StateT.run_bind, h.marks_eq, mapM_readMark]
  rfl

/-! ### Texts that are read back -/

/-- How something is written and read: the texts that stand for it, what is written for these, the
values that are bound in it, and how it is read from the texts and all bound values, when some of
them have been read before. -/
structure Code (γ β : Type) where
  texts : β → γ
  write : γ → Text
  bounds : β → List Bound
  read : List Bound → γ → StateT Nat Option β

namespace Code

variable {γ β : Type}

/-- Cells. -/
def cell (p : Profile) : Code Text Stored := ⟨Stored.text, id, Stored.bounds, readCell p⟩

/-- Lists with a separator between neighbours. -/
def list (k : Code γ β) (sep : Text) : Code (List γ) (List β) where
  texts := List.map k.texts
  write us := Text.join sep (us.map k.write)
  bounds := List.flatMap k.bounds
  read params us := us.mapM (k.read params)

/-- What stands between two texts. -/
def enclosed (k : Code γ β) (x y : Text) : Code γ β :=
  { k with write := fun u => x ++ k.write u ++ y }

/-- Rows of cells in a layout. -/
def rows (p : Profile) (l : RowLayout) : Code (List (List Text)) (List (List Stored)) :=
  (((cell p).list ",").enclosed l.opener l.closer).list l.separator

@[simp]
theorem write_rows (p : Profile) (l : RowLayout) (us : List (List Text)) :
    (rows p l).write us = writeRows l us := by
  simp only [rows, list, enclosed, cell, writeRows, List.map_id]
  rfl

/-- Between two states of a compilation, values are bound that belong to `b`. Whatever is bound
later, `b` is what is meant, and provided that names are `readable`, its texts are legible and are
read as `b`. -/
structure Writes (k : Code γ β) (readable : Prop) (Legible : γ → Prop)
    (Meant : List Bound → β → Prop) (s s' : Slate) (b : β) : Prop where
  params : s'.params = s.params ++ k.bounds b
  meant : ∀ more, Meant (s'.params ++ more) b
  legible : readable → Legible (k.texts b)
  read : readable → ∀ more, (k.read (s'.params ++ more) (k.texts b)).run s.params.length =
    some (b, s'.params.length)

variable {k : Code γ β} {readable : Prop} {Legible : γ → Prop} {α : Type}
  {Meant : α → List Bound → β → Prop} {s s₁ s' : Slate} {a : α} {as : List α} {b : β} {bs : List β}
  {sep : Text}

theorem writes_nil : (k.list sep).Writes readable (fun us => ∀ u ∈ us, Legible u)
    (fun params bs => List.Forall₂ (Meant · params ·) [] bs) s s [] where
  params := (List.append_nil _).symm
  meant _ := .nil
  legible _ := nofun
  read _ _ := rfl

theorem Writes.cons (h : k.Writes readable Legible (Meant a) s s₁ b)
    (hs : (k.list sep).Writes readable (fun us => ∀ u ∈ us, Legible u)
      (fun params bs => List.Forall₂ (Meant · params ·) as bs) s₁ s' bs) :
    (k.list sep).Writes readable (fun us => ∀ u ∈ us, Legible u)
      (fun params bs => List.Forall₂ (Meant · params ·) (a :: as) bs) s s' (b :: bs) where
  params := by
    rw [hs.params, h.params, List.append_assoc]
    rfl
  meant more := by
    refine .cons ?_ (hs.meant more)
    rw [hs.params, List.append_assoc]
    exact h.meant _
  legible hr := List.forall_mem_cons.mpr ⟨h.legible hr, hs.legible hr⟩
  read hr more := by
    have hhead := h.read hr ((k.list sep).bounds bs ++ more)
    rw [← List.append_assoc, ← hs.params] at hhead
    have htail : (List.mapM (k.read (s'.params ++ more)) (bs.map k.texts)).run s₁.params.length =
      some (bs, s'.params.length) := hs.read hr more
    show (List.mapM (k.read (s'.params ++ more)) (k.texts b :: bs.map k.texts)).run _ = _
    rw [List.mapM_cons, StateT.run_bind, hhead]
    simp only [Option.bind_eq_bind, Option.bind_some, StateT.run_bind, htail]
    rfl

end Code

namespace Emit

variable {α γ β : Type} {A : AliasTable → Prop} {readable : Prop} {k : Code γ β}
  {Legible : γ → Prop}

/-- Where no type is pending, the emitter writes something that it means, and keeps a property of
the aliases. -/
def Encodes (A : AliasTable → Prop) (readable : Prop) (k : Code γ β) (Legible : γ → Prop)
    (Meant : List Bound → β → Prop) (m : Emit Text) : Prop :=
  ∀ s t s', A s.aliases → s.pendingType = [] → Yields m s t s' →
    A s'.aliases ∧ s'.pendingType = [] ∧
      ∃ b, t = k.write (k.texts b) ∧ k.Writes readable Legible Meant s s' b

theorem Encodes.enclose {Meant : List Bound → β → Prop} {m : Emit Text}
    (h : Encodes A readable k Legible Meant m) (x y : Text) :
    Encodes A readable (k.enclosed x y) Legible Meant (Emit.enclose x m y) := by
  intro s t s' hA hp hy
  obtain ⟨u, hu, rfl⟩ := yields_enclose.mp hy
  obtain ⟨hA', hp', b, rfl, hb⟩ := h s u s' hA hp hu
  exact ⟨hA', hp', b, rfl, { hb with }⟩

/-- **Texts with separators between them**, one for each element of a list. -/
theorem encodes_separated {Meant : α → List Bound → β → Prop} {f : α → Emit Text} {as : List α}
    (sep : Text) (h : ∀ a ∈ as, Encodes A readable k Legible (Meant a) (f a)) :
    Encodes A readable (k.list sep) (fun us => ∀ u ∈ us, Legible u)
      (fun params bs => List.Forall₂ (Meant · params ·) as bs) (separated sep (as.map f)) := by
  induction as with
  | nil =>
    intro s t s' hA hp hy
    obtain ⟨rfl, rfl⟩ := yields_pure.mp hy
    exact ⟨hA, hp, [], rfl, Code.writes_nil⟩
  | cons a as ih =>
    have hfirst := h a List.mem_cons_self
    replace ih := ih fun x hx => h x (List.mem_cons_of_mem a hx)
    cases as with
    | nil =>
      intro s t s' hA hp hy
      obtain ⟨hA', hp', b, rfl, hb⟩ := hfirst s t s' hA hp hy
      exact ⟨hA', hp', [b], by simp [Code.list, Text.join], hb.cons Code.writes_nil⟩
    | cons a' as =>
      intro s t s' hA hp hy
      obtain ⟨x, s₁, y, hx, hrest, rfl⟩ := yields_join.mp hy
      obtain ⟨hA₁, hp₁, b, rfl, hb⟩ := hfirst s x s₁ hA hp hx
      obtain ⟨hA', hp', bs, rfl, hbs⟩ := ih s₁ y s' hA₁ hp₁ hrest
      obtain ⟨b', bs, rfl⟩ : ∃ b' bs', bs = b' :: bs' := by
        cases hbs.meant [] with
        | cons => exact ⟨_, _, rfl⟩
      exact ⟨hA', hp', b :: b' :: bs, (Text.join_cons_cons ..).symm, hb.cons hbs⟩

/-! ### Cells -/

variable {st : Settings} {r : Row} {rows : List Row} {cols : List Column} {c : Column}

/-- What is computed for a row binds values behind those that are bound, and where names are
readable, its text is one cell. -/
def CellOf (st : Settings) (A : AliasTable → Prop) (readable : Prop) (x : Content) : Prop :=
  ∀ m, x = .computed m → ∀ s t s', A s.aliases → Yields m s t s' →
    A s'.aliases ∧ (∃ bs, s'.params = s.params ++ bs) ∧
      (readable → CellText st s.params.length s'.params.length t)

/-- The cell of a row and a column. -/
theorem encodes_cell (hr : ∀ cell ∈ r.cells, CellOf st A readable cell.content) (c : Column) :
    Encodes A readable (.cell st.profile) IsCell (fun params x => r.Stores st.profile params c x)
      (match r.content? c with
        | none => pure "NULL"
        | some content => content.emit st c) := by
  intro s t s' hA hp hy
  -- a cell between two states is one between the numbers of values that are bound in them
  have writes : ∀ {bs : List Bound} {s'' : Slate}, s''.params = s.params ++ bs →
      (∀ more, r.Stores st.profile (s''.params ++ more) c ⟨t, bs⟩) →
      (readable → CellText st s.params.length s''.params.length t) →
      (Code.cell st.profile).Writes readable IsCell
        (fun params x => r.Stores st.profile params c x) s s'' ⟨t, bs⟩ := by
    intro bs s'' hparams hstores htext
    refine ⟨hparams, hstores, fun h => (htext h).toIsCell, fun h more => ?_⟩
    have htidy := (htext h).tidy
    rw [hparams, List.length_append] at htidy ⊢
    exact readCell_eq htidy
  split at hy
  · rename_i hnone
    obtain ⟨rfl, rfl⟩ := yields_pure.mp hy
    exact ⟨hA, hp, ⟨_, []⟩, rfl, writes (List.append_nil _).symm (fun _ => .null hnone)
      fun _ => cellText_null _⟩
  · rename_i content hcontent
    obtain ⟨cell, hcell, hx⟩ := Option.map_eq_some_iff.mp hcontent
    cases content with
    | value v =>
      obtain ⟨rfl, rfl⟩ := yields_placeholder.mp hy
      have hparams : (s.bindValue st.profile v c.dataType).2.params =
          s.params ++ [⟨v, c.dataType⟩] := by
        simp only [Slate.bindValue, hp]
        cases c.dataType <;> rfl
      refine ⟨hA, rfl, ⟨_, _⟩, rfl, writes hparams (fun more => ?_) fun _ => ?_⟩
      · refine .value (i := s.params.length) hcontent ?_
        rw [hparams]
        simp
      · rw [hparams, List.length_append]
        exact cellText_placeholder _
    | computed m =>
      obtain ⟨s₁, hm, rfl⟩ := yields_computed.mp hy
      obtain ⟨hA', ⟨bs, hbs⟩, htext⟩ :=
        hr cell (List.mem_of_find?_eq_some hcell) m hx { s with pendingType := c.dataType } t s₁
          hA hm
      exact ⟨hA', rfl, ⟨t, bs⟩, rfl,
        writes hbs (fun _ => .computed hcontent rfl hm hbs) htext⟩

/-- The rows of an insertion in their layout. -/
theorem encodes_rows (i : InsertStyle)
    (hr : ∀ r ∈ rows, ∀ cell ∈ r.cells, CellOf st A readable cell.content) (cols : List Column) :
    Encodes A readable (.rows st.profile i.layout) (fun us => ∀ u ∈ us, ∀ t ∈ u, IsCell t)
      (fun params grid => List.Forall₂ (fun r cells =>
        List.Forall₂ (fun c x => r.Stores st.profile params c x) cols cells) rows grid)
      (separated i.layout.separator (rows.map fun r =>
        Emit.enclose i.layout.opener (rowContents st cols r) i.layout.closer)) :=
  encodes_separated _ fun r hmem =>
    (encodes_separated "," fun c _ => encodes_cell (hr r hmem) c).enclose _ _

end Emit

/-! ### Insertions -/

/-- What is computed for a row only binds values. -/
theorem Expr.params_of_computed {st : Settings} {e : Expr} {clause : Clause} {w : Column → Bool}
    {rows : List Row} (h : (e.render st).rows clause w = .ok rows) {r : Row} (hr : r ∈ rows)
    {cell : Cell} (hcell : cell ∈ r.cells) {m : Emit Text} (hm : cell.content = .computed m)
    {s s' : Slate} {t : Text} (hy : Yields m s t s') : ∃ bs, s'.params = s.params ++ bs := by
  have hlen : s.params.length = s.params.length := rfl
  have hmirrors : (Simulation.extension hlen).Mirrors (e.render st) (e.render st) :=
    e.mirrors_extension hlen
  have hrows := hmirrors.rows clause w
  rw [h] at hrows
  cases hrows with
  | returned hrows =>
    have hcontent :=
      (List.forall₂_same.mp (List.forall₂_same.mp hrows r hr).cells cell hcell).content
    rw [hm] at hcontent
    cases hcontent with
    | computed hagree =>
      have hruns := hagree s s (.start rfl rfl)
      rw [show result m s = _ from hy] at hruns
      cases hruns with
      | returned _ hs =>
        obtain ⟨bs, hbs, -⟩ := hs.params
        exact ⟨bs, hbs⟩

/-- The names of an insertion are readable. -/
def Insert.Readable (s : Insert) (st : Settings) : Prop :=
  (∀ p, s.target = some p → p.Named (s.settings st) (.readable st.quoted)) ∧
    (Expr.ofItems s.values).Named (s.settings st) (.readable st.quoted)

/-- Something is computed for one of the rows. -/
def Computes (rows : List Row) : Prop :=
  ∃ r ∈ rows, ∃ cell ∈ r.cells, ∃ m, cell.content = .computed m

/-- Distinct columns have distinct names if the columns of every entity have. -/
theorem WritesRows.nodup_names {st : Settings} {w : Column → Bool} {e : Entity} {rows : List Row}
    {cols : List Column} (h : WritesRows st w e rows cols) (hcols : cols.Nodup)
    (hnames : ∀ r ∈ rows, (r.entity.columns.map (·.name)).Nodup) : (cols.map (·.name)).Nodup := by
  obtain ⟨f, hf, hmem, -⟩ := h.ofEntity
  obtain ⟨c, hc⟩ := List.exists_mem_of_ne_nil cols h.nonempty
  obtain ⟨r, hr, -⟩ := h.ofRows c hc
  have hdistinct := hnames r hr
  rw [hf r hr] at hdistinct
  exact hcols.map_on fun x hx y hy hxy =>
    List.inj_on_of_nodup_map hdistinct (hmem x hx).1 (hmem y hy).1 hxy

/-- The cells of rows are read back from their layout. -/
theorem Sql.readInsert_writeRows {p : Profile} {params : List Bound} {grid : List (List Stored)}
    {n : Nat} (hne : grid ≠ []) (hrows : ∀ cells ∈ grid, cells ≠ [])
    (hcells : ∀ u ∈ grid.map (·.map Stored.text), ∀ t ∈ u, IsCell t)
    (h : ((Code.rows p p.insert.layout).read params (grid.map (·.map Stored.text))).run 0 =
      some (grid, n)) :
    readInsert p params (writeRows p.insert.layout (grid.map (·.map Stored.text))) = some grid := by
  have hread := readRows_writeRows p.insert (by simpa using hne)
    (List.forall_mem_map.mpr fun cells hmem => by simpa using hrows cells hmem) hcells
  rw [readInsert, hread, Option.bind_eq_bind, Option.bind_some]
  exact congrArg (Option.map Prod.fst) h

/-- What an insertion computes for a row is a cell where names are readable. -/
theorem Insert.cellOf {s : Insert} {st : Settings} {rows : List Row}
    (h : ((Expr.ofItems s.values).render (s.settings st)).rows .insert (·.insertable) = .ok rows)
    {r : Row} (hr : r ∈ rows) {cell : Cell} (hcell : cell ∈ r.cells) :
    CellOf (s.settings st)
      (fun a => Computes rows → s.Readable st → a.Within (.readable st.quoted))
      (Computes rows → s.Readable st) cell.content := by
  intro m hm s₁ t s₂ hA hy
  have hcomputes : Computes rows := ⟨r, hr, cell, hcell, m, hm⟩
  have htext : s.Readable st → s₂.aliases.Within (.readable st.quoted) ∧
      CellText (s.settings st) s₁.params.length s₂.params.length t := by
    intro hread
    have hlawful :=
      ((Expr.lawful_render_cellKinds hread.2).rows _ _ rows h r hr).contents cell hcell
    rw [hm] at hlawful
    obtain ⟨haliases, hvalue⟩ := hlawful s₁ t s₂ (hA hcomputes hread) hy
    exact ⟨haliases, cellText_of_cellKinds hvalue⟩
  exact ⟨fun _ hread => (htext hread).1, Expr.params_of_computed h hr hcell hm hy,
    fun hread => (htext (hread hcomputes)).2⟩

/-- **The rows of an insertion are stored as they are given.** Each row holds what its source gives:
a record the value at the end of each column's path, a map and a shape what they have for a column,
and bindings their value or what is computed. The columns that are listed are those of the rows,
each once and in the order of their first appearance. Under each of them every row stores what it
has for the column, and the values are bound row by row. The cells are read back from the text and
the bound values, if names are readable where something is computed. -/
theorem Insert.rows_read_back {s : Insert} {ts : List Transform} {st : Settings} {d : Draft}
    (h : s.compile ts st = .ok d) :
    ∃ p e rows cols body grid, s.target = some p ∧ (s.settings st).entityOf p.type = .ok e ∧
      ((Expr.ofItems s.values).render (s.settings st)).rows .insert (·.insertable) = .ok rows ∧
      (∃ sources, (Expr.ofItems s.values).RowSources (s.settings st).pre sources ∧
        ReadFromAll (s.settings st) .insert (·.insertable) sources rows) ∧
      (∀ (c : Column) (v x : Value), v.deref.At c.path x → c.read v = x) ∧
      ListsFirst (keptColumns rows) cols ∧
      ((∀ r ∈ rows, (r.entity.columns.map (·.name)).Nodup) → (cols.map (·.name)).Nodup) ∧
      d.text = "INSERT INTO " ++ st.ident e.table ++ " (" ++
        Text.join "," (cols.map fun c => st.ident c.name) ++ ")" ++ st.profile.insert.lead ++
          body ∧
      body = writeRows st.profile.insert.layout (grid.map (·.map Stored.text)) ∧
      List.Forall₂ (fun r cells => List.Forall₂ (r.Stores st.profile d.slate.params) cols cells)
        rows grid ∧
      d.slate.params = grid.flatMap (·.flatMap Stored.bounds) ∧
      ((Computes rows → s.Readable st) →
        readInsert st.profile d.slate.params body = some grid) := by
  obtain ⟨p, e, rows, body, hp, he, hrows, htext, hy, hwrites⟩ := Insert.exists_yields h
  have hcols := listsFirst_columnsOfRows rows
  have haliases : Computes rows → s.Readable st →
      (AliasTable.empty.bind p e.table).2.Within (.readable st.quoted) := by
    intro _ hread
    obtain ⟨hname, htable⟩ := hread.1 p hp
    exact ((AliasTable.within_empty _).bind hname fun hnone => .inr ((htable e he).1 hnone)).2
  obtain ⟨-, -, grid, rfl, hgrid⟩ := encodes_rows st.profile.insert
    (fun r hr cell hcell => Insert.cellOf hrows hr hcell) (columnsOfRows rows) _ body d.slate
    haliases rfl hy
  have hstores := hgrid.meant []
  rw [List.append_nil] at hstores
  refine ⟨p, e, rows, columnsOfRows rows, _, grid, hp, he, hrows, Expr.readFrom_of_rows hrows,
    fun _ _ _ => Column.read_of_at, hcols, hwrites.nodup_names hcols.nodup, htext,
    Code.write_rows .., hstores, hgrid.params, fun hread => ?_⟩
  have hcells : ∀ cells ∈ grid, cells ≠ [] := by
    have hflip := List.Forall₂.flip (R := fun (cells : List Stored) (r : Row) =>
      List.Forall₂ (r.Stores st.profile d.slate.params) (columnsOfRows rows) cells) hstores
    refine ((List.forall₂_and_left _ _).mp (hflip.imp fun cells r h => ⟨?_, h⟩)).1
    rintro rfl
    exact hwrites.nonempty (List.forall₂_nil_right_iff.mp h)
  have hgrid_ne : grid ≠ [] := by
    rintro rfl
    obtain rfl := List.forall₂_nil_right_iff.mp hstores
    exact hwrites.nonempty rfl
  have hmarks := hgrid.read hread []
  rw [List.append_nil] at hmarks
  rw [Code.write_rows]
  exact readInsert_writeRows hgrid_ne hcells (hgrid.legible hread) hmarks

namespace Sample

/-- The insertion of two customers: one with an age, given in a map, and one with a name that the
database computes and an age. -/
def insertCustomers : Insert :=
  { target := some customerRow
    values := [.value (.map .string .any [(.string "Age", .int .int 36)]),
      .new none [("Name", .callOf (.field customerRow "Name") "ToUpper" []),
        ("Age", .value (.int .int 7))]]
    includeNulls := false }

end Sample

open Sample

theorem Insert.rows_read_back_customers :
    ∃ d, insertCustomers.compile [] (.standard .oracle world) = .ok d ∧
      d.text = "INSERT INTO customers (age,name) " ++
        "SELECT :1,NULL FROM DUAL UNION ALL SELECT :2,UPPER(c.name) FROM DUAL" ∧
      ∃ sources rows cols body grid,
        (Expr.ofItems insertCustomers.values).RowSources world sources ∧
        ReadFromAll (insertCustomers.settings (.standard .oracle world)) .insert (·.insertable)
          sources rows ∧ ListsFirst (keptColumns rows) cols ∧
        d.text = "INSERT INTO " ++ "customers" ++ " (" ++ Text.join "," (cols.map (·.name)) ++
          ")" ++ " " ++ body ∧
        List.Forall₂ (fun r cells => List.Forall₂
          (r.Stores Dialect.oracle.profile d.slate.params) cols cells) rows grid ∧
        d.slate.params = grid.flatMap (·.flatMap Stored.bounds) ∧
        readInsert Dialect.oracle.profile d.slate.params body = some grid := by
  have text : statementText? (.insert insertCustomers) [] (.standard .oracle world) =
      some ("INSERT INTO customers (age,name) " ++
        "SELECT :1,NULL FROM DUAL UNION ALL SELECT :2,UPPER(c.name) FROM DUAL" : Text) := by
    decide +kernel
  have hread : insertCustomers.Readable (.standard .oracle world) := by
    have hrow : customerRow.Named (insertCustomers.settings (.standard .oracle world))
        (.readable false) := customerRow_readable_of rfl
    refine ⟨fun p hp => ?_, ?_⟩
    · obtain rfl := Option.some.inj hp
      exact hrow
    · have hname : (Lexicon.readable false).Label "Name" := .inr (by decide +kernel)
      have hage : (Lexicon.readable false).Label "Age" := .inr (by decide +kernel)
      exact ⟨trivial, ⟨.inr hname, ⟨hrow, trivial, nofun⟩, .inr hage, trivial, trivial⟩, trivial⟩
  obtain ⟨d, hd, ht⟩ := compile_of_statementText? text
  obtain ⟨p, e, rows, cols, body, grid, hp, he, -, ⟨sources, hsources, hread'⟩, -, hcols, -, htext,
    -, hstores, hparams, hback⟩ := Insert.rows_read_back (s := insertCustomers) hd
  obtain rfl := Option.some.inj hp
  obtain rfl : customers = e := Except.ok.inj he
  exact ⟨d, hd, ht, sources, rows, cols, body, grid, hsources, hread', hcols, htext, hstores,
    hparams, hback fun _ => hread⟩

end QueryTree
