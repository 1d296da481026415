import QueryTree.Proofs.Rendered

/-!
# The texts of rows to write

An insert or update puts names and values together with a few fixed texts between and around them.
So what holds of names and values, and is kept where texts are put together like that, holds of all
that is written. `RowTexts` collects what has to be known of such a kind of texts.

## Main definitions

* `ListOf`: a list of texts of a kind that ends with a separator
* `RowTexts`: the kinds of texts that rows to write are of
* `NamedRows`: the columns of the rows have permitted names

## Main results

* `Emit.emits_insertRows`, `Emit.emits_assignments`
-/

namespace QueryTree

variable {st : Settings} {L : Lexicon} {K : TextKinds st L} {Q : Nat → Nat → Text → Prop}
  {n k m : Nat} {t u : Text}

/-! ### Lists -/

/-- The list is empty, or it ends with a separator and what stands before that is of a kind. -/
def ListOf (Q : Nat → Nat → Text → Prop) (n m : Nat) (t : Text) : Prop :=
  (t = [] ∧ n = m) ∨ ∃ u, t = u ++ itemSeparator ∧ Q n m u

theorem ListOf.append (hQ : ∀ {n k m a b}, Q n k a → Q k m b → Q n m (a ++ itemSeparator ++ b))
    (ht : ListOf Q n k t) (hu : ListOf Q k m u) : ListOf Q n m (t ++ u) := by
  rcases ht with ⟨rfl, rfl⟩ | ⟨x, rfl, hx⟩
  · exact hu
  · rcases hu with ⟨rfl, rfl⟩ | ⟨y, rfl, hy⟩
    · exact .inr ⟨x, by simp, hx⟩
    · exact .inr ⟨x ++ itemSeparator ++ y, by simp, hQ hx hy⟩

namespace Emit

/-- Emitters one after the other, of texts that can stand on both sides of a separator. -/
theorem emits_separated {sep : Text} (hnil : ∀ n, Q n n [])
    (hjoin : ∀ {n k m a b}, Q n k a → Q k m b → Q n m (a ++ sep ++ b)) {ms : List (Emit Text)}
    (h : ∀ x ∈ ms, Emits L Q x) : Emits L Q (separated sep ms) := by
  fun_induction separated sep ms with
  | case1 => exact emits_pure hnil
  | case2 x => exact h x (by simp)
  | case3 x ms _ ih =>
    exact (h x (by simp)).join (ih fun y hy => h y (by simp [hy])) fun _ _ _ _ _ => hjoin

end Emit

/-! ### Rows -/

/-- What stands between names and values of a row, and between rows. -/
def rowSeparators : List Text := [",", itemSeparator, " = ", " ", " VALUES ", " UNION ALL "]

/-- What stands around a row. -/
def rowBrackets : List (Text × Text) := [("(", ")"), ("SELECT ", " FROM DUAL")]

/-- A kind of texts: names and values are of it, and so are rows of such. -/
structure RowTexts (K : TextKinds st L) (Q : Nat → Nat → Text → Prop) : Prop where
  nil : ∀ n, Q n n []
  name : ∀ {v} n, L.Name v → Q n n (st.ident v)
  value : ∀ {n m t}, K.Value n m t → Q n m t
  join : ∀ {sep n k m a b}, sep ∈ rowSeparators → Q n k a → Q k m b → Q n m (a ++ sep ++ b)
  enclose : ∀ {x y n m t}, (x, y) ∈ rowBrackets → Q n m t → Q n m (x ++ t ++ y)

/-- The names of the columns that the rows have are permitted. -/
def NamedRows (L : Lexicon) (rows : List Row) : Prop :=
  ∀ r ∈ rows, ∀ cell ∈ r.cells, L.Name cell.column.name

namespace Emit

theorem yields_tryCatch_of_throws {α : Type} {f : Halt → Emit α}
    (hf : ∀ h s a s', ¬ Yields (f h) s a s') {x : Emit α} {s s' : Slate} {a : α} :
    Yields (tryCatch x f) s a s' ↔ Yields x s a s' := by
  simp only [Yields, result_tryCatch]
  rcases result x s with ⟨h | b, s₁⟩
  · have := hf h s₁ a s'
    simp only [Yields] at this
    simp [this]
  · rfl

/-- What is computed takes the type of its column for its first bound value, and leaves no type for
the values of other columns. -/
theorem yields_computed {m : Emit Text} {c : Column} {s s' : Slate} {t : Text} :
    Yields ((Content.computed m).emit st c) s t s' ↔
      ∃ s₁, Yields m { s with pendingType := c.dataType } t s₁ ∧
        s' = { s₁ with pendingType := [] } := by
  -- what halts on the way is thrown again, whatever becomes of the type before
  obtain ⟨f, hf, hemit⟩ : ∃ f : Halt → Emit Text, (∀ h s a s', ¬ Yields (f h) s a s') ∧
      (Content.computed m).emit st c = (do
        setPending c.dataType
        let t ← tryCatch m f
        setPending []
        return t) := by
    refine ⟨_, fun h s a s' hy => ?_, rfl⟩
    split at hy
    · obtain ⟨_, _, _, hy⟩ := yields_bind.mp hy
      exact not_yields_throw hy
    · exact not_yields_throw hy
  rw [hemit]
  simp only [yields_bind, yields_setPending, yields_pure, yields_tryCatch_of_throws hf]
  constructor
  · rintro ⟨_, _, rfl, _, s₁, hu, _, _, rfl, rfl, rfl⟩
    exact ⟨s₁, hu, rfl⟩
  · rintro ⟨s₁, hu, rfl⟩
    exact ⟨⟨⟩, _, rfl, t, s₁, hu, ⟨⟩, _, rfl, rfl, rfl⟩

theorem emits_content {x : Content} (h : x.Lawful K) (c : Column) :
    Emits L K.Value (x.emit st c) := by
  cases x with
  | value v => exact emits_placeholder v c.dataType
  | computed m =>
    intro s t s' hs hy
    obtain ⟨s₁, hu, rfl⟩ := yields_computed.mp hy
    have hv := h { s with pendingType := c.dataType } t s₁ hs hu
    exact hv

theorem mem_columnsOfRows {rows : List Row} {c : Column} (h : c ∈ columnsOfRows rows) :
    ∃ r ∈ rows, ∃ cell ∈ r.cells, cell.column = c := by
  have fold : ∀ (l cols : List Column), c ∈ l.foldl
      (fun cols c => if cols.contains c then cols else cols ++ [c]) cols → c ∈ cols ∨ c ∈ l := by
    intro l
    induction l with
    | nil => exact fun cols h => .inl h
    | cons x l ih =>
      intro cols h
      rcases ih _ h with h | h
      · simp only at h
        split at h
        · exact .inl h
        · rcases List.mem_append.mp h with h | h
          · exact .inl h
          · exact .inr (by simp [List.mem_singleton.mp h])
      · exact .inr (by simp [h])
  rcases fold _ [] h with h | h
  · cases h
  · obtain ⟨r, hr, h⟩ := List.mem_flatMap.mp h
    obtain ⟨cell, hcell, rfl⟩ := List.mem_map.mp h
    exact ⟨r, hr, cell, hcell, rfl⟩

end Emit

/-- Names with commas between them. -/
theorem RowTexts.names (hQ : RowTexts K Q) (vs : List Text) (h : ∀ v ∈ vs, L.Name v) (n : Nat) :
    Q n n (Text.join "," (vs.map st.ident)) := by
  induction vs with
  | nil => exact hQ.nil n
  | cons v vs ih =>
    cases vs with
    | nil => simpa [Text.join] using hQ.name n (h v (by simp))
    | cons u vs =>
      have hj : Text.join "," ((v :: u :: vs).map st.ident) =
          st.ident v ++ "," ++ Text.join "," ((u :: vs).map st.ident) :=
        Text.join_cons_cons _ _ _ _
      rw [hj]
      exact hQ.join (by decide) (hQ.name n (h v (by simp))) (ih fun x hx => h x (by simp [hx]))

namespace Emit

variable {rows : List Row} {w : Column → Bool}

theorem emits_rowContents (hQ : RowTexts K Q) {cols : List Column} {r : Row}
    (hr : r.Lawful K w) : Emits L Q (rowContents st cols r) := by
  refine emits_separated hQ.nil (hQ.join (by decide)) fun x hx => ?_
  obtain ⟨c, -, rfl⟩ := List.mem_map.mp hx
  split
  · exact emits_pure fun n => hQ.value K.null
  · rename_i content hcontent
    obtain ⟨cell, hcell, rfl⟩ := Option.map_eq_some_iff.mp hcontent
    exact (emits_content (hr.contents cell (List.mem_of_find?_eq_some hcell)) c).mono
      fun _ _ _ => hQ.value

/-- The rows of an insert behind the list of its columns. -/
theorem emits_insertBody (hQ : RowTexts K Q) (hr : ∀ r ∈ rows, r.Lawful K w)
    (hn : NamedRows L rows) {x y sep before middle : Text} (hxy : (x, y) ∈ rowBrackets)
    (hsep : sep ∈ rowSeparators) (hmiddle : middle ∈ rowSeparators)
    (hbefore : before = ")" ++ middle) : Emits L Q (do
      let t ← separated sep (rows.map fun r =>
        Emit.enclose x (rowContents st (columnsOfRows rows) r) y)
      return "(" ++ Text.join "," ((columnsOfRows rows).map fun c => st.ident c.name) ++ before ++
        t) := by
  have names : ∀ n, Q n n (Text.join "," ((columnsOfRows rows).map fun c => st.ident c.name)) := by
    intro n
    have h := hQ.names ((columnsOfRows rows).map (·.name)) (fun v hv => ?_) n
    · simpa only [List.map_map, Function.comp_def] using h
    · obtain ⟨c, hc, rfl⟩ := List.mem_map.mp hv
      obtain ⟨r, hr, cell, hcell, rfl⟩ := mem_columnsOfRows hc
      exact hn r hr cell hcell
  have hrows : Emits L Q (separated sep
      (rows.map fun r => Emit.enclose x (rowContents st (columnsOfRows rows) r) y)) := by
    refine emits_separated hQ.nil (hQ.join hsep) fun e he => ?_
    obtain ⟨r, hmem, rfl⟩ := List.mem_map.mp he
    exact (emits_rowContents hQ (hr r hmem)).enclose fun _ _ _ => hQ.enclose hxy
  intro s t s' hs hy
  simp only [bind_pure_comp, yields_map] at hy
  obtain ⟨u, hu, rfl⟩ := hy
  obtain ⟨hs', hu⟩ := hrows s u s' hs hu
  have h := hQ.join hmiddle (hQ.enclose (x := "(") (y := ")") (by decide) (names _)) hu
  refine ⟨hs', ?_⟩
  rw [hbefore]
  simpa only [List.append_assoc] using h

/-- **The text of an insert.** -/
theorem emits_insertRows (hQ : RowTexts K Q) (hr : ∀ r ∈ rows, r.Lawful K w)
    (hn : NamedRows L rows) : Emits L Q (insertRows st rows) := by
  unfold insertRows
  split
  · exact emits_fail
  · split
    · exact emits_fail
    · simp only
      split
      · exact emits_fail
      · split
        · exact emits_insertBody hQ hr hn (by decide) (by decide) (by decide)
            (show (") VALUES " : Text) = ")" ++ " VALUES " by decide)
        · exact emits_insertBody hQ hr hn (by decide) (by decide) (by decide)
            (show (") " : Text) = ")" ++ " " by decide)

/-- **The text of an update.** -/
theorem emits_assignments (hQ : RowTexts K Q) (hr : ∀ r ∈ rows, r.Lawful K w)
    (hn : NamedRows L rows) : Emits L (ListOf Q) (assignments st rows) := by
  unfold assignments
  split
  · rename_i r
    refine emits_append (fun _ => .inl ⟨rfl, rfl⟩) (ListOf.append (hQ.join (by decide)))
      fun x hx => ?_
    obtain ⟨cell, hcell, rfl⟩ := List.mem_map.mp hx
    refine (emits_content ((hr r (by simp)).contents cell hcell) cell.column).enclose
      fun n k u hu => ?_
    have hname : Q n n (st.ident cell.column.name) := hQ.name n (hn r (by simp) cell hcell)
    exact .inr ⟨_, rfl, hQ.join (by decide) hname (hQ.value hu)⟩
  · exact emits_fail

/-- The rows of an expression, written by an emitter of rows. -/
theorem emits_rowsOf {x : Rendering} {raw : Prop} {c : Clause} {write : List Row → Emit Text}
    (hx : x.Lawful K raw) (hn : ∀ rows, x.rows c w = .ok rows → NamedRows L rows)
    (hw : ∀ rows, (∀ r ∈ rows, r.Lawful K w) → NamedRows L rows → Emits L Q (write rows)) :
    Emits L Q (do write (← ofAttempt (x.rows c w))) := by
  intro s t s' hs hy
  obtain ⟨rows, s₁, hr, hy'⟩ := yields_bind.mp hy
  obtain ⟨hrows, rfl⟩ := yields_ofAttempt.mp hr
  exact hw rows (hx.rows c w rows hrows) (hn rows hrows) _ t s' hs hy'

end Emit

end QueryTree
