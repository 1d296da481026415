import QueryTree.Proofs.KeyFilter
import QueryTree.Proofs.RowReading

/-!
# The columns that are written

An insertion lists columns behind its table, and an update assigns columns of its table. Both take
them from the rows that they are given, and each row brings the entity it was read as along. A
record of an unnamed type, a map, or a shape without a type of its own is read as a row of the table
that is written; a record of an entity type is read as a row of its own entity, whichever table is
written.

So the columns belong to the table exactly as far as the rows do: either every row is one of the
entity that is written, or all of them are rows of one other entity and its columns are listed
behind the wrong table.

## Main definitions

* `WritesRows`: where the columns that are written come from

## Main results

* `written_columns_of_rows`: the columns of an insertion and of an update
* `exists_insert_of_foreign_columns`: an order item inserted into the customers
-/

namespace QueryTree

open Emit Sql

variable {st : Settings} {d d' : Draft} {s s' : Slate} {t : Text} {rows : List Row}

/-! ### Entities -/

namespace Registry

variable {r : Registry} {t u : Option Ty} {e f : Entity}

theorem entity_map_indirect (r : Registry) (t : Option Ty) :
    r.entity (t.map Ty.indirect) = r.entity t := by
  cases t with
  | none => rfl
  | some t => simp only [entity, Option.map_some, Ty.indirect_indirect]

/-- An entity is that of its own type. -/
theorem entity_type (h : r.entity t = .ok e) : r.entity (some e.type) = .ok e := by
  rw [← entity_map_indirect] at h
  cases t with
  | none => cases h
  | some t =>
    have htype : e.type = t.indirect := by
      simp only [entity, Option.map_some, Ty.indirect_indirect] at h
      split at h <;> cases h
      rfl
    rw [htype]
    exact h

/-- The type of an entity determines it. -/
theorem entity_inj (he : r.entity t = .ok e) (hf : r.entity u = .ok f) (h : e.type = f.type) :
    e = f := by
  have he := entity_type he
  rw [h, entity_type hf] at he
  exact (Except.ok.inj he).symm

end Registry

/-- With the type of a row for a default, unnamed types stand for the entity of the row. -/
theorem Settings.entity_of_default {p : Param} {e : Entity}
    (hdefault : st.defaultType = p.type.map Ty.indirect) (he : st.entityOf p.type = .ok e) :
    st.registry.entity st.defaultType = .ok e := by
  unfold Settings.entityOf at he
  split at he
  · split at he
    · cases he
    · rename_i hd
      rw [hd]
      exact he
  · rw [hdefault, Registry.entity_map_indirect]
    exact he

/-- A row is one of the entity that is written, or of an entity of another type. -/
theorem Row.Lawful.entity_cases {L : Lexicon} {K : TextKinds st L} {w : Column → Bool} {r : Row}
    {p : Param} {e : Entity}
    (hr : r.Lawful K w) (hdefault : st.defaultType = p.type.map Ty.indirect)
    (he : st.entityOf p.type = .ok e) : r.entity = e ∨
      r.entity.type ≠ e.type ∧ st.registry.entity (some r.entity.type) = .ok r.entity := by
  have hown := Settings.entity_of_default hdefault he
  obtain ⟨t, ht⟩ := hr.entity
  unfold Settings.entityOf at ht
  split at ht
  · split at ht
    · cases ht
    · rename_i hd
      rw [hd] at hown
      rw [hown] at ht
      exact .inl (Except.ok.inj ht).symm
  · by_cases htype : r.entity.type = e.type
    · exact .inl (Registry.entity_inj ht hown htype)
    · exact .inr ⟨htype, Registry.entity_type ht⟩

/-! ### The texts of rows -/

/-- The columns are those of rows that all have one entity, and may be written. The entity is that
of the table, or that of another type. -/
structure WritesRows (st : Settings) (writable : Column → Bool) (e : Entity) (rows : List Row)
    (cols : List Column) : Prop where
  nonempty : cols ≠ []
  ofRows : ∀ c ∈ cols, ∃ r ∈ rows, ∃ cell ∈ r.cells, cell.column = c
  ofEntity : ∃ f, (∀ r ∈ rows, r.entity = f) ∧ (∀ c ∈ cols, c ∈ f.columns ∧ writable c = true) ∧
    (f = e ∨ f.type ≠ e.type ∧ st.registry.entity (some f.type) = .ok f)

/-- Rows of the entity that is written have its columns. -/
theorem WritesRows.columns_of_own {w : Column → Bool} {e : Entity} {cols : List Column}
    (h : WritesRows st w e rows cols) (hown : ∀ r ∈ rows, r.entity.type = e.type) :
    ∀ c ∈ cols, c ∈ e.columns ∧ w c = true := by
  obtain ⟨f, hf, hcols, hfe⟩ := h.ofEntity
  obtain ⟨c, hc⟩ := List.exists_mem_of_ne_nil cols h.nonempty
  obtain ⟨r, hr, -⟩ := h.ofRows c hc
  have htype : f.type = e.type := hf r hr ▸ hown r hr
  rcases hfe with rfl | ⟨hne, -⟩
  · exact hcols
  · exact absurd htype hne

/-- The rows of an expression have one entity, if they have one type. -/
theorem WritesRows.of_lawful {L : Lexicon} {K : TextKinds st L} {w : Column → Bool}
    {cols : List Column} {p : Param} {e : Entity} (hrows : ∀ r ∈ rows, r.Lawful K w)
    (hdefault : st.defaultType = p.type.map Ty.indirect) (he : st.entityOf p.type = .ok e)
    (hcols : cols ≠ []) (hmem : ∀ c ∈ cols, ∃ r ∈ rows, ∃ cell ∈ r.cells, cell.column = c)
    (hone : ∀ r ∈ rows, ∀ r' ∈ rows, r.entity.type = r'.entity.type) :
    WritesRows st w e rows cols := by
  obtain ⟨c, cs, rfl⟩ := List.exists_cons_of_ne_nil hcols
  obtain ⟨first, hfirst, -⟩ := hmem c List.mem_cons_self
  have hsame : ∀ r ∈ rows, r.entity = first.entity := by
    intro r hr
    have htype := hone r hr first hfirst
    rcases (hrows r hr).entity_cases hdefault he with h₁ | ⟨h₁, h₁'⟩
    · rcases (hrows first hfirst).entity_cases hdefault he with h₂ | ⟨h₂, -⟩
      · rw [h₁, h₂]
      · exact absurd (htype.symm.trans (congrArg Entity.type h₁)) h₂
    · rcases (hrows first hfirst).entity_cases hdefault he with h₂ | ⟨-, h₂'⟩
      · exact absurd (htype.trans (congrArg Entity.type h₂)) h₁
      · exact Registry.entity_inj h₁' h₂' htype
  refine ⟨hcols, hmem, first.entity, hsame, fun x hx => ?_,
    (hrows first hfirst).entity_cases hdefault he⟩
  obtain ⟨r, hr, cell, hcell, rfl⟩ := hmem x hx
  rw [← hsame r hr]
  exact (hrows r hr).columns cell hcell

/-- The rows of an insertion have one type. They are emitted with separators between them, behind
the list of their columns. -/
theorem exists_of_yields_insertRows (h : Yields (insertRows st rows) s t s') :
    (∀ r ∈ rows, ∀ r' ∈ rows, r.entity.type = r'.entity.type) ∧ columnsOfRows rows ≠ [] ∧
      ∃ body, t = "(" ++ Text.join "," ((columnsOfRows rows).map fun c => st.ident c.name) ++ ")" ++
          st.profile.insert.lead ++ body ∧
        Yields (separated st.profile.insert.layout.separator (rows.map fun r =>
          Emit.enclose st.profile.insert.layout.opener (rowContents st (columnsOfRows rows) r)
            st.profile.insert.layout.closer)) s body s' := by
  unfold insertRows at h
  split at h
  · exact absurd h not_yields_fail
  · rename_i first rest
    split at h
    · exact absurd h not_yields_fail
    · rename_i hnone
      have hfirst : ∀ r ∈ first :: rest, r.entity.type = first.entity.type := fun r hr => by
        simpa using List.find?_eq_none.mp hnone r hr
      refine ⟨fun r hr r' hr' => (hfirst r hr).trans (hfirst r' hr').symm, ?_⟩
      simp only at h
      split at h
      · exact absurd h not_yields_fail
      · rename_i hcols
        refine ⟨by simpa using hcols, ?_⟩
        split at h
        · rename_i hstyle
          simp only [bind_pure_comp, yields_map] at h
          obtain ⟨u, hu, rfl⟩ := h
          rw [hstyle, show (") VALUES " : Text) = ")" ++ " VALUES " from by decide]
          exact ⟨u, by simp only [List.append_assoc]; rfl, hu⟩
        · rename_i hstyle
          simp only [bind_pure_comp, yields_map] at h
          obtain ⟨u, hu, rfl⟩ := h
          rw [hstyle, show (") " : Text) = ")" ++ " " from by decide]
          exact ⟨u, by simp only [List.append_assoc]; rfl, hu⟩

/-- The text of an assignment. -/
def assignmentText (st : Settings) (x : Column × Text) : Text := st.ident x.1.name ++ " = " ++ x.2

/-- An update assigns the cells of one row, each followed by a separator. -/
theorem exists_of_yields_assignments (h : Yields (assignments st rows) s t s') :
    ∃ (r : Row) (assigned : List (Column × Text)), rows = [r] ∧
      assigned.map Prod.fst = r.cells.map (·.column) ∧
      t = assigned.flatMap fun x => assignmentText st x ++ itemSeparator := by
  have concat : ∀ (cells : List Cell) {s t s'}, Yields (Emit.concat (cells.map fun cell =>
      Emit.enclose (st.ident cell.column.name ++ " = ") (cell.content.emit st cell.column)
        itemSeparator)) s t s' → ∃ assigned : List (Column × Text),
      assigned.map Prod.fst = cells.map (·.column) ∧
        t = assigned.flatMap fun x => assignmentText st x ++ itemSeparator := by
    intro cells
    induction cells with
    | nil =>
      intro s t s' h
      obtain ⟨rfl, -⟩ := yields_pure.mp h
      exact ⟨[], rfl, rfl⟩
    | cons cell cells ih =>
      intro s t s' h
      obtain ⟨a, s₁, b, ha, hb, rfl⟩ := yields_join.mp h
      obtain ⟨v, -, rfl⟩ := yields_enclose.mp ha
      obtain ⟨assigned, hcols, rfl⟩ := ih hb
      exact ⟨(cell.column, v) :: assigned, by rw [List.map_cons, List.map_cons, hcols],
        by simp [assignmentText]⟩
  unfold assignments at h
  split at h
  · rename_i r
    obtain ⟨assigned, hcols, ht⟩ := concat r.cells h
    exact ⟨r, assigned, rfl, hcols, ht⟩
  · exact absurd h not_yields_fail

/-- Items with separators behind them are items with separators between them, and one behind. -/
theorem flatMap_separator {α : Type} (f : α → Text) (sep : Text) {xs : List α} (h : xs ≠ []) :
    (xs.flatMap fun x => f x ++ sep) = Text.join sep (xs.map f) ++ sep := by
  induction xs with
  | nil => exact absurd rfl h
  | cons x xs ih =>
    cases xs with
    | nil => simp [Text.join]
    | cons y xs =>
      rw [List.flatMap_cons, ih (List.cons_ne_nil y xs), List.map_cons, List.map_cons, Text.join,
        Text.join, List.map_cons, List.intercalate_cons_cons]
      simp only [List.append_assoc]

/-! ### Drafts -/

namespace Draft

theorem compile_insert {x : Expr} {ds : List Direction}
    (h : d.compile x .insert ds = (d', .ok ())) :
    ∃ rows t s, (x.render d.settings).rows .insert (·.insertable) = .ok rows ∧
      Yields (insertRows d.settings rows) d.slate t s ∧ d'.text = d.text ++ t ∧ d'.slate = s := by
  unfold Draft.compile at h
  split at h
  · cases h
  · split at h
    · rename_i d₁ hrun
      obtain ⟨t, s, hy, rfl⟩ := run_eq_ok hrun
      cases h
      obtain ⟨rows, s₁, hr, hy⟩ := yields_bind.mp hy
      obtain ⟨hrows, rfl⟩ := yields_ofAttempt.mp hr
      exact ⟨rows, t, s, hrows, hy, rfl, rfl⟩
    · rename_i hno
      exact absurd h (hno d' ·)

theorem compile_update {x : Expr} {ds : List Direction}
    (h : d.compile x .update ds = (d', .ok ())) :
    ∃ rows t s, (x.render d.settings).rows .update (·.updatable) = .ok rows ∧
      Yields (assignments d.settings rows) d.slate t s ∧
      d'.text = (d.text ++ t).trimSuffix itemSeparator ∧ d'.text.length ≠ d.text.length := by
  unfold Draft.compile at h
  split at h
  · cases h
  · split at h
    · rename_i d₁ hrun
      obtain ⟨t, s, hy, rfl⟩ := run_eq_ok hrun
      simp only [finish] at h
      split at h
      · cases h
      · rename_i hlen
        cases h
        obtain ⟨rows, s₁, hr, hy⟩ := yields_bind.mp hy
        obtain ⟨hrows, rfl⟩ := yields_ofAttempt.mp hr
        exact ⟨rows, t, s, hrows, hy, rfl, hlen⟩
    · rename_i hno
      exact absurd h (hno d' ·)

end Draft

/-! ### Statements -/

theorem Update.assigned_keyed {s s' : Update} {e : Entity} {p : Param}
    (h : s.keyed e p = .ok s') : s'.assigned = s.assigned := by
  unfold Update.keyed at h
  split at h
  · split at h
    · split at h
      · cases h
      · cases h
        rfl
    · cases h
      rfl
  · cases h
    rfl

theorem Rendering.lawful_rows {x : Expr} {c : Clause} {w : Column → Bool}
    (h : (x.render st).rows c w = .ok rows) : ∀ r ∈ rows, r.Lawful (grammar st (.plain true)) w :=
  (Expr.lawful_render (x.named_of_permissive (permissive_plain rfl))).rows c w rows h

/-- An insertion lists columns of its rows in parentheses behind its table. The rows are emitted
behind them, from a state in which nothing is bound. -/
theorem Insert.exists_yields {s : Insert} {ts : List Transform} (h : s.compile ts st = .ok d) :
    ∃ p e rows body, s.target = some p ∧ (s.settings st).entityOf p.type = .ok e ∧
      ((Expr.ofItems s.values).render (s.settings st)).rows .insert (·.insertable) = .ok rows ∧
      d.text = "INSERT INTO " ++ st.ident e.table ++ " (" ++
        Text.join "," ((columnsOfRows rows).map fun c => st.ident c.name) ++ ")" ++
          st.profile.insert.lead ++ body ∧
      Yields (separated st.profile.insert.layout.separator (rows.map fun r =>
        Emit.enclose st.profile.insert.layout.opener
          (rowContents (s.settings st) (columnsOfRows rows) r) st.profile.insert.layout.closer))
        ⟨[], [], (AliasTable.empty.bind p e.table).2, []⟩ body d.slate ∧
      WritesRows (s.settings st) (·.insertable) e rows (columnsOfRows rows) := by
  unfold Insert.compile at h
  obtain ⟨s', h', h⟩ := bind_eq_ok.mp h
  rw [Insert.transformAll_eq h'] at h
  obtain ⟨⟨e, name, d₁⟩, h₁, h⟩ := bind_eq_ok.mp h
  obtain ⟨p, hp, he, -, rfl⟩ := Draft.source_eq_ok h₁
  obtain ⟨rows, t, slate, hrows, hy, htext, rfl⟩ := Draft.compile_insert (Draft.clause_eq_ok h)
  obtain ⟨hone, hcols, body, rfl, hbody⟩ := exists_of_yields_insertRows hy
  have hdefault : (s.settings st).defaultType = p.type.map Ty.indirect := by
    rw [Insert.settings, hp]
    rfl
  refine ⟨p, e, rows, body, hp, he, hrows, ?_, hbody,
    .of_lawful (Rendering.lawful_rows hrows) hdefault he hcols (fun c => mem_columnsOfRows) hone⟩
  rw [htext, show (" (" : Text) = " " ++ "(" from by decide]
  simp only [Draft.write, Draft.new, List.nil_append, List.append_assoc]
  rfl

/-- The columns of an insertion stand in parentheses behind its table. -/
theorem Insert.exists_written {s : Insert} {ts : List Transform} (h : s.compile ts st = .ok d) :
    ∃ p e rows cols more, s.target = some p ∧ (s.settings st).entityOf p.type = .ok e ∧
      ((Expr.ofItems s.values).render (s.settings st)).rows .insert (·.insertable) = .ok rows ∧
      d.text = "INSERT INTO " ++ st.ident e.table ++ " (" ++
        Text.join "," (cols.map fun c => st.ident c.name) ++ ") " ++ more ∧
      WritesRows (s.settings st) (·.insertable) e rows cols := by
  obtain ⟨p, e, rows, body, hp, he, hrows, htext, -, hwrites⟩ := Insert.exists_yields h
  have hlead : ∀ i : InsertStyle, ∃ more : Text, i.lead = " " ++ more := by
    intro i
    cases i with
    | values => exact ⟨"VALUES ", by decide⟩
    | selectDual => exact ⟨[], rfl⟩
  obtain ⟨more, hmore⟩ := hlead st.profile.insert
  refine ⟨p, e, rows, columnsOfRows rows, more ++ body, hp, he, hrows, ?_, hwrites⟩
  rw [htext, hmore, show (") " : Text) = ")" ++ " " from by decide]
  simp only [List.append_assoc]

/-- The columns of an update stand before the values that are assigned to them. -/
theorem Update.exists_written {s : Update} {ts : List Transform} (h : s.compile ts st = .ok d) :
    ∃ p e rows, ∃ assigned : List (Column × Text), ∃ more, s.target = some p ∧
      (s.settings p st).entityOf p.type = .ok e ∧
      (s.assigned.render (s.settings p st)).rows .update (·.updatable) = .ok rows ∧
      d.text = "UPDATE " ++ st.ident e.table ++ " SET " ++
        Text.join ", " (assigned.map (assignmentText st)) ++ more ∧
      WritesRows (s.settings p st) (·.updatable) e rows (assigned.map Prod.fst) := by
  unfold Update.compile at h
  cases hp : s.target with
  | none =>
    rw [hp] at h
    cases h
  | some p =>
    rw [hp] at h
    obtain ⟨⟨e, name, d₁⟩, h₁, h⟩ := bind_eq_ok.mp h
    obtain ⟨q, hq, he, -, rfl⟩ := Draft.source_eq_ok h₁
    obtain rfl := Option.some.inj hq
    obtain ⟨s₁, hk, h⟩ := bind_eq_ok.mp h
    obtain ⟨s₂, ht, h⟩ := bind_eq_ok.mp h
    obtain ⟨d₂, h₂, h⟩ := bind_eq_ok.mp h
    rw [(Update.SetsAll.wheres_transformAll ht).1, Update.assigned_keyed hk] at h₂
    obtain ⟨rows, t, slate, hrows, hy, htext, hlen⟩ := Draft.compile_update (Draft.clause_eq_ok h₂)
    obtain ⟨r, assigned, rfl, hcols, rfl⟩ := exists_of_yields_assignments hy
    obtain ⟨more, hmore⟩ := Draft.prefix_conditions rfl h
    -- what is written before the assignments ends with no separator
    replace htext : d₂.text = Text.trimSuffix ("UPDATE " ++ st.ident e.table ++ " SET " ++
      assigned.flatMap fun x => assignmentText st x ++ itemSeparator) itemSeparator := htext
    replace hlen : d₂.text.length ≠ ("UPDATE " ++ st.ident e.table ++ " SET " : Text).length := hlen
    have hne : assigned ≠ [] := by
      rintro rfl
      refine hlen (congrArg List.length ?_)
      rw [htext, List.flatMap_nil, List.append_nil]
      exact Draft.trimSuffix_append_of_not (by decide) (by decide)
    rw [flatMap_separator _ _ hne, ← List.append_assoc, Text.trimSuffix_append] at htext
    refine ⟨p, e, [r], assigned, more, rfl, he, hrows, ?_,
      .of_lawful (Rendering.lawful_rows hrows) rfl he (by simpa using hne) ?_ ?_⟩
    · rw [← hmore, htext]
      rfl
    · intro c hc
      rw [hcols] at hc
      obtain ⟨cell, hcell, rfl⟩ := List.mem_map.mp hc
      exact ⟨r, List.mem_singleton_self r, cell, hcell, rfl⟩
    · intro r₁ h₁ r₂ h₂
      rw [List.mem_singleton.mp h₁, List.mem_singleton.mp h₂]

/-- **The columns that are written are those of the rows.** A statement that writes lists or assigns
columns of one entity that may be written there. It is the entity of the table if every row is one
of it; otherwise all rows are rows of one entity of another type, whose columns are listed behind
the table all the same. -/
theorem written_columns_of_rows (ts : List Transform) (st : Settings) (d : Draft) :
    (∀ s : Insert, s.compile ts st = .ok d → ∃ p e rows cols more, s.target = some p ∧
      (s.settings st).entityOf p.type = .ok e ∧
      ((Expr.ofItems s.values).render (s.settings st)).rows .insert (·.insertable) = .ok rows ∧
      d.text = "INSERT INTO " ++ st.ident e.table ++ " (" ++
        Text.join "," (cols.map fun c => st.ident c.name) ++ ") " ++ more ∧
      WritesRows (s.settings st) (·.insertable) e rows cols ∧
      ((∀ r ∈ rows, r.entity.type = e.type) →
        ∀ c ∈ cols, c ∈ e.columns ∧ c.insertable = true)) ∧
    ∀ s : Update, s.compile ts st = .ok d → ∃ p e rows, ∃ assigned : List (Column × Text), ∃ more,
      s.target = some p ∧ (s.settings p st).entityOf p.type = .ok e ∧
      (s.assigned.render (s.settings p st)).rows .update (·.updatable) = .ok rows ∧
      d.text = "UPDATE " ++ st.ident e.table ++ " SET " ++
        Text.join ", " (assigned.map (assignmentText st)) ++ more ∧
      WritesRows (s.settings p st) (·.updatable) e rows (assigned.map Prod.fst) ∧
      ((∀ r ∈ rows, r.entity.type = e.type) →
        ∀ x ∈ assigned, x.1 ∈ e.columns ∧ x.1.updatable = true) := by
  constructor
  · intro s h
    obtain ⟨p, e, rows, cols, more, hp, he, hrows, htext, hw⟩ := Insert.exists_written h
    exact ⟨p, e, rows, cols, more, hp, he, hrows, htext, hw, hw.columns_of_own⟩
  · intro s h
    obtain ⟨p, e, rows, assigned, more, hp, he, hrows, htext, hw⟩ := Update.exists_written h
    exact ⟨p, e, rows, assigned, more, hp, he, hrows, htext, hw,
      fun hown x hx => hw.columns_of_own hown x.1 (List.mem_map_of_mem hx)⟩

/-! ### An order item among the customers -/

namespace Sample

/-- The entity of customers. -/
def customers : Entity :=
  ⟨customer, Registry.standard.tableOf customer, Mapping.columnsOf .standard customer⟩

/-- The insertion of an order item into the table of a row. -/
def insertItem (row : Param) : Insert :=
  { target := some row, values := [.value item], includeNulls := false }

/-- The update of active customers that assigns an order item. -/
def assignItemToCustomers : Update :=
  { target := some customerRow, assigned := .value item, wheres := [isActive],
    includeNulls := false }

end Sample

open Sample

/-- An order item that is inserted into the order items names columns of theirs. -/
theorem written_columns_of_rows_item :
    ∃ d, ∃ cols : List Column, ∃ more,
      (insertItem itemRow).compile [] (.standard .sqlServer world) = .ok d ∧
      d.text = "INSERT INTO order_items (" ++ Text.join "," (cols.map fun c => c.name) ++ ") " ++
        more ∧ ∀ c ∈ cols, c ∈ orderItems.columns ∧ c.insertable = true := by
  have text : statementText? (.insert (insertItem itemRow)) [] (.standard .sqlServer world) =
      some ("INSERT INTO order_items (order_id,line_no,sku,qty) VALUES (@p1,@p2,@p3,@p4)" :
        Text) := by
    decide +kernel
  obtain ⟨d, hd, -⟩ := compile_of_statementText? text
  obtain ⟨p, e, rows, cols, more, hp, he, hrows, htext, -, hcols⟩ :=
    (written_columns_of_rows [] (.standard .sqlServer world) d).1 (insertItem itemRow) hd
  obtain rfl := Option.some.inj hp
  obtain rfl : orderItems = e := Except.ok.inj he
  refine ⟨d, cols, more, hd, htext, hcols ?_⟩
  obtain rfl := Except.ok.inj hrows
  intro r hr
  obtain rfl := List.mem_singleton.mp hr
  rfl

/-- **A row of another entity is written with the columns of that entity.** An order item is
inserted into the customers and assigned to them, although the customers have no column of any of
the names that are written. -/
theorem exists_insert_of_foreign_columns :
    (∃ d, (insertItem customerRow).compile [] (.standard .sqlServer world) = .ok d ∧
      d.text = "INSERT INTO customers (order_id,line_no,sku,qty) VALUES (@p1,@p2,@p3,@p4)") ∧
    (∃ d, assignItemToCustomers.compile [] (.standard .sqlServer world) = .ok d ∧
      d.text = "UPDATE customers SET sku = @p1, qty = @p2 WHERE active = 1") ∧
    ((Settings.standard .sqlServer world).entityOf customerRow.type = .ok customers ∧
      ∀ name ∈ (["order_id", "line_no", "sku", "qty"] : List Text),
        ∀ c ∈ customers.columns, c.name ≠ name) := by
  have insert : statementText? (.insert (insertItem customerRow)) [] (.standard .sqlServer world) =
      some ("INSERT INTO customers (order_id,line_no,sku,qty) VALUES (@p1,@p2,@p3,@p4)" :
        Text) := by
    decide +kernel
  have update : statementText? (.update assignItemToCustomers) [] (.standard .sqlServer world) =
      some ("UPDATE customers SET sku = @p1, qty = @p2 WHERE active = 1" : Text) := by
    decide +kernel
  exact ⟨compile_of_statementText? insert, compile_of_statementText? update, rfl, by decide +kernel⟩

end QueryTree
