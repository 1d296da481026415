import QueryTree.Compile.Draft
import QueryTree.Proofs.Kinds

/-!
# Emitters of texts of a kind

The emitters that renderings are built from emit texts of a kind when their parts do: constants
in every position, lists, conditions joined and negated, and comparisons.

Only the argument of an aggregate function depends on more than its names: a text constant stands
for a raw item there, which the lexicon has to permit.

## Main definitions

* `Content.Lawful`, `Row.Lawful`, `Rendering.Lawful`

## Main results

* `Rendering.lawful_constant`: constants emit texts of every kind in every position
* `Emit.emits_joined`, `Emit.emits_negated`, `Emit.emits_compared`
-/

namespace QueryTree

open Emit

variable {st : Settings} {L : Lexicon} {K : TextKinds st L}

/-- Two steps that may fail succeed when both do. -/
theorem bind_eq_ok {ε α β : Type} {x : Except ε α} {f : α → Except ε β} {b : β} :
    (x >>= f) = .ok b ↔ ∃ a, x = .ok a ∧ f a = .ok b := by
  rcases x with e | a
  · constructor
    · intro h
      cases h
    · rintro ⟨_, h, _⟩
      cases h
  · constructor
    · intro h
      exact ⟨a, rfl, h⟩
    · rintro ⟨_, h, h'⟩
      cases h
      exact h'

theorem map_eq_ok {ε α β : Type} {x : Except ε α} {f : α → β} {b : β} :
    x.map f = .ok b ↔ ∃ a, x = .ok a ∧ f a = b := by
  rcases x with e | a <;> simp [Except.map]

/-! ### Lawful renderings

Being lawful is one condition for each position. What holds in the position of an argument is made
conditional, for it is the one that a text constant has to earn. -/

/-- What is written into a column is a bound value or the text of a value. -/
def Content.Lawful (K : TextKinds st L) : Content → Prop
  | .value _ => True
  | .computed m => Emits L K.Value m

/-- The row is one of an entity that the settings know, and what it writes is lawful and goes into
columns of this entity that may be written. -/
structure Row.Lawful (K : TextKinds st L) (writable : Column → Bool) (r : Row) : Prop where
  entity : ∃ t, st.entityOf t = .ok r.entity
  columns : ∀ cell ∈ r.cells, cell.column ∈ r.entity.columns ∧ writable cell.column = true
  contents : ∀ cell ∈ r.cells, cell.content.Lawful K

/-- What the rendering emits is a text of the kind, as the argument of an aggregate function
provided that `raw` holds. -/
structure Rendering.Lawful (K : TextKinds st L) (raw : Prop) (r : Rendering) : Prop where
  value : ∀ c, Emits L K.Value (r.value c)
  condition : ∀ c, Emits L (Optional K.Condition) (r.condition c)
  members : Emits L K.Value r.members
  argument : raw → ∀ c, Emits L (ArgumentText L K.Value) (r.argument c)
  projection : Emits L (ListText st L K.Value) r.projection
  listing : ∀ c ds, Emits L (fun n m p => ListText st L K.Value n m p.1) (r.listing c ds)
  row : ∀ c w rows, r.row c w = .ok rows → ∀ x ∈ rows, x.Lawful K w
  rows : ∀ c w rows, r.rows c w = .ok rows → ∀ x ∈ rows, x.Lawful K w
  addends : ∀ m ∈ r.addends, ∀ c, Emits L K.Value (m c)
  addends_ne : r.addends ≠ []

/-! ### Rows of values

A value is read as a record, a shape or a map. In each case the values are bound for columns of the
entity, and nothing else about them matters here. -/

section Rows

open Row

/-- What every result of a list of steps that may fail satisfies. -/
theorem of_mapM_eq_ok {ε α β : Type} {f : α → Except ε β} {P : β → Prop} {l : List α}
    {bs : List β} (h : l.mapM f = .ok bs) (hf : ∀ a ∈ l, ∀ b, f a = .ok b → P b) :
    ∀ b ∈ bs, P b := by
  induction l generalizing bs with
  | nil =>
    cases h
    simp
  | cons a l ih =>
    rw [List.mapM_cons] at h
    obtain ⟨b, hb, h⟩ := bind_eq_ok.mp h
    obtain ⟨bs', hbs, h⟩ := bind_eq_ok.mp h
    cases h
    intro x hx
    rcases List.mem_cons.mp hx with rfl | hx
    · exact hf a (by simp) x hb
    · exact ih hbs (fun a ha => hf a (by simp [ha])) x hx

/-- An entity that is found is that of a type with a table of its own. -/
theorem Registry.not_isAnonymous {r : Registry} {t : Option Ty} {e : Entity}
    (h : r.entity t = .ok e) : r.isAnonymous t = false := by
  unfold Registry.entity at h
  unfold Registry.isAnonymous
  split at h
  · cases h
  · split at h
    · rename_i he
      split
      · simpa [Registry.isEntityType] using he
      · rename_i t hrecord
        split
        · rename_i hmap
          unfold Registry.isEntityType Ty.fields? at he
          split at he
          · exact absurd rfl (hrecord _)
          · cases hmap
          · rw [hmap] at he
            cases he
        · rfl
    · cases h

theorem Settings.entityOf_of_entity {t : Option Ty} {e : Entity}
    (h : st.registry.entity t = .ok e) : st.entityOf t = .ok e := by
  rw [Settings.entityOf, Registry.not_isAnonymous h]
  exact h

variable {w : Column → Bool} {Q : Row → Prop}

/-- What holds of a row of bound values for columns of its entity. -/
def Row.OfBound (st : Settings) (w : Column → Bool) (Q : Row → Prop) : Prop :=
  ∀ e values, (∃ t, st.entityOf t = .ok e) → (∀ x ∈ values, x.1 ∈ e.columns) →
    Q ⟨e, cellsOf st w values⟩

theorem Row.entityOf_of_target {t : Option Ty} {e : Entity} (h : target st t = .ok e) :
    st.entityOf t = .ok e := by
  unfold target at h
  split at h
  · rename_i he
    cases h
    exact he
  · cases h

theorem Row.mem_of_columnOf {e : Entity} {member : Text} {c : Column}
    (h : columnOf e member = .ok c) : c ∈ e.columns := by
  unfold columnOf at h
  split at h
  · rename_i hc
    cases h
    exact List.mem_of_find?_eq_some hc
  · cases h

theorem Row.mem_of_takeEntries {cols : List Column} {entries left : List (MapKey × Value)}
    {taken : List (Column × Value)} (h : takeEntries cols entries = (taken, left)) :
    ∀ x ∈ taken, x.1 ∈ cols := by
  induction cols generalizing entries taken left with
  | nil =>
    cases h
    simp
  | cons c cols ih =>
    rw [takeEntries] at h
    split at h
    · exact fun x hx => List.mem_cons_of_mem c (ih h x hx)
    · simp only [Prod.mk.injEq] at h
      obtain ⟨rfl, -⟩ := h
      intro x hx
      rcases List.mem_cons.mp hx with rfl | hx
      · exact List.mem_cons_self
      · exact List.mem_cons_of_mem c (ih rfl x hx)

theorem Row.of_ofRecord (hQ : OfBound st w Q) {t : Ty} {v : Value} {r : Row}
    (h : ofRecord st w t v = .ok r) : Q r := by
  unfold ofRecord at h
  split at h
  · cases h
  · rename_i he
    cases h
    refine hQ _ _ ⟨some t, Settings.entityOf_of_entity he⟩ fun x hx => ?_
    obtain ⟨c, hc, rfl⟩ := List.mem_map.mp hx
    exact hc

theorem Row.of_ofShape (hQ : OfBound st w Q) {fs : List (Field Ty)} {vs : List Value} {r : Row}
    (h : ofShape st w fs vs = .ok r) : Q r := by
  unfold ofShape at h
  obtain ⟨e, he, h⟩ := bind_eq_ok.mp h
  obtain ⟨found, hfound, h⟩ := bind_eq_ok.mp h
  cases h
  refine hQ _ _ ⟨_, entityOf_of_target he⟩ (of_mapM_eq_ok hfound ?_)
  rintro ⟨f, v⟩ - x hx
  obtain ⟨c, hc, hx⟩ := bind_eq_ok.mp hx
  cases hx
  exact mem_of_columnOf hc

theorem Row.of_ofMap (hQ : OfBound st w Q) {t : Ty} {entries : List (MapKey × Value)} {r : Row}
    (h : ofMap st w t entries = .ok r) : Q r := by
  unfold ofMap at h
  split at h
  · split at h
    · cases h
    · obtain ⟨e, he, h⟩ := bind_eq_ok.mp h
      split at h
      · rename_i taken htaken
        cases h
        exact hQ _ _ ⟨_, entityOf_of_target he⟩ (mem_of_takeEntries htaken)
      · cases h
      · cases h
  · cases h

theorem Row.of_ofValue (hQ : OfBound st w Q) {v : Value} {r : Row}
    (h : ofValue st w v = .ok r) : Q r := by
  unfold ofValue at h
  simp only at h
  split at h
  · cases h
  · split at h
    · cases h
    · cases h
    · exact of_ofMap hQ h
    · exact of_ofMap hQ h
    · split at h
      · exact of_ofShape hQ h
      · exact of_ofRecord hQ h
    · exact of_ofRecord hQ h
    · cases h

/-- What holds of all rows of bound values holds of the rows that a value holds. -/
theorem Row.of_allOfValue (hQ : OfBound st w Q) {v : Value} {rows : List Row}
    (h : allOfValue st w v = .ok rows) : ∀ x ∈ rows, Q x := by
  unfold allOfValue at h
  split at h
  · exact of_mapM_eq_ok h fun _ _ _ => of_ofValue hQ
  · obtain ⟨r, hr, h⟩ := bind_eq_ok.mp h
    cases h
    simpa using of_ofValue hQ hr

/-- The cells of bound values. -/
theorem Row.of_mem_cellsOf {values : List (Column × Value)} {cell : Cell}
    (h : cell ∈ cellsOf st w values) :
    (∃ x ∈ values, x.1 = cell.column) ∧ w cell.column = true ∧ cell.content.Lawful K := by
  obtain ⟨x, hx, rfl⟩ := List.mem_map.mp h
  obtain ⟨hmem, hkeep⟩ := List.mem_filter.mp hx
  simp only [keeps, Bool.and_eq_true] at hkeep
  exact ⟨⟨x, hmem, rfl⟩, hkeep.1, trivial⟩

theorem Row.lawful_ofBound : OfBound st w (Row.Lawful K w) := by
  intro e values he hvalues
  refine ⟨he, fun cell hcell => ?_, fun cell hcell => (of_mem_cellsOf (K := K) hcell).2.2⟩
  obtain ⟨⟨x, hx, hcolumn⟩, hw, -⟩ := of_mem_cellsOf (K := K) hcell
  exact ⟨hcolumn ▸ hvalues x hx, hw⟩

theorem Row.lawful_allOfValue {v : Value} {rows : List Row} (h : allOfValue st w v = .ok rows) :
    ∀ x ∈ rows, x.Lawful K w :=
  of_allOfValue lawful_ofBound h

end Rows

/-! ### Constants

A constant value is bound unless it is a null. In the positions of items a text is a list of raw
items, which are checked when they are read. -/

namespace Emit

theorem emits_constantValue (v : Value) : Emits L K.Value (constantValue st v) := by
  unfold constantValue
  split
  · exact emits_pure fun _ => K.null
  · exact emits_placeholder v []

theorem emits_constantCondition (v : Value) (c : Clause) :
    Emits L (Optional K.Condition) (constantCondition v c) := by
  unfold constantCondition
  split
  · exact emits_pure fun _ => .inl ⟨rfl, rfl⟩
  · exact emits_pure fun _ => .inr K.never
  · exact emits_fail

/-- Emitters of values in a row. -/
theorem emits_mapM {α : Type} {f : α → Emit Text} {l : List α}
    (h : ∀ a ∈ l, Emits L K.Value (f a)) :
    Emits L (fun n m ts => Texts K.Value n m ts ∧ ts.length = l.length) (l.mapM f) := by
  induction l with
  | nil => exact emits_pure fun _ => ⟨.nil, rfl⟩
  | cons a l ih =>
    intro s ts s' hs hy
    rw [List.mapM_cons] at hy
    simp only [bind_pure_comp, yields_bind, yields_map] at hy
    obtain ⟨t, s₁, ht, us, hus, rfl⟩ := hy
    obtain ⟨hs₁, hv⟩ := h a (by simp) s t s₁ hs ht
    obtain ⟨hs', hvs, hlen⟩ := ih (fun a ha => h a (by simp [ha])) s₁ us s' hs₁ hus
    exact ⟨hs', .cons hv hvs, by simp [hlen]⟩

theorem emits_placeholders {dataType : Text} {vs : List Value} (hne : vs ≠ []) :
    Emits L (fun n m t => K.Value n m ("(" ++ t ++ ")")) (placeholders st dataType vs) := by
  intro s t s' hs hy
  simp only [placeholders, bind_pure_comp, yields_map] at hy
  obtain ⟨ts, hts, rfl⟩ := hy
  obtain ⟨hs', hvs, hlen⟩ := emits_mapM (fun v _ => emits_placeholder v dataType) s ts s' hs hts
  refine ⟨hs', K.tuple hvs ?_⟩
  rintro rfl
  exact hne (List.length_eq_zero_iff.mp hlen.symm)

theorem value_nullList {n : Nat} : K.Value n n "(NULL)" := K.parens K.null

theorem emits_constantMembers (v : Value) : Emits L K.Value (constantMembers st v) := by
  unfold constantMembers
  split
  · exact emits_pure fun _ => value_nullList
  · split
    · split
      · exact emits_fault
      · exact emits_pure fun _ => value_nullList
      · rename_i items hne _
        intro s t s' hs hy
        simp only [bind_pure_comp, yields_bind, yields_map, yields_pending] at hy
        obtain ⟨_, _, ⟨rfl, rfl⟩, ts, hts, rfl⟩ := hy
        obtain ⟨hs', hv⟩ := emits_placeholders (fun h => hne (by rw [h])) _ ts s' hs hts
        exact ⟨hs', hv⟩
    · intro s t s' hs hy
      simp only [bind_pure_comp, yields_map] at hy
      obtain ⟨u, hu, rfl⟩ := hy
      obtain ⟨hs', hv⟩ := emits_placeholder v [] s u s' hs hu
      exact ⟨hs', K.parens hv⟩

/-- The items of a raw list are plain names. -/
theorem isField_or_isOrder_of_mem {t : Text} {ordered : Bool} {items : List Text}
    (h : Raw.items t ordered = .ok items) :
    ∀ i ∈ items, (if ordered then Raw.isOrder i else Raw.isField i) = true := by
  unfold Raw.items at h
  split at h
  · cases h
  · rename_i hnone
    cases h
    intro i hi
    simpa using List.find?_eq_none.mp hnone i hi

theorem isField_of_isItem {t : Text} (h : Raw.IsItem t) : Raw.isField t = true := by
  obtain ⟨list, items, hi, ht⟩ := h
  simpa using isField_or_isOrder_of_mem hi t ht

theorem emits_constantArgument {v : Value} {inlined : Expr → Prop} {type : Option Ty}
    (h : (Expr.const v type).RawArgumentWith L inlined) (c : Clause) :
    Emits L (ArgumentText L K.Value) (constantArgument st v c) := by
  unfold constantArgument
  split
  · split
    · exact emits_pure fun _ => .inl (K.word (by decide))
    · exact emits_fail
  · split
    · rename_i t _
      refine Emits.bind (Q := fun n m items => n = m ∧ Raw.items t false = .ok items) ?_ ?_
      · intro s items s' hs hy
        obtain ⟨hi, rfl⟩ := yields_ofExcept.mp hy
        exact ⟨hs, rfl, hi⟩
      · rintro n k items ⟨rfl, hi⟩
        split
        · refine emits_pure fun n' hn => ?_
          subst hn
          exact .inr ⟨rfl, ⟨t, _, hi, by simp⟩, h _ hi _ (by simp)⟩
        · exact emits_fail
    · exact (emits_constantValue v).mono fun _ _ _ => .inl

theorem emits_selectItem {m : Emit Text} {name : Text} (h : Emits L K.Value m)
    (hname : name = [] ∨ L.Label name) :
    Emits L (ListText st L K.Value) (selectItem st m name) := by
  intro s t s' hs hy
  obtain ⟨a, s₁, ha, item, hitem, rfl, rfl⟩ := yields_selectItem.mp hy
  obtain ⟨hs₁, hv⟩ := h s a s₁ hs ha
  refine ⟨hs₁, .single ?_⟩
  rw [hitem]
  split
  · rename_i hnamed
    rcases hname with rfl | hname
    · simp at hnamed
    · exact .named hv hname
  · exact .value hv

theorem listText_rawItems {n : Nat} {items : List Text}
    (h : ∀ i ∈ items, Raw.isField i = true ∨ Raw.isOrder i = true) :
    ListText st L K.Value n n (items.flatMap fun t => t ++ itemSeparator) := by
  induction items with
  | nil => exact .nil
  | cons i items ih =>
    rw [List.flatMap_cons]
    exact .cons (.raw (h i (by simp))) (ih fun i hi => h i (by simp [hi]))

/-- Recording fields changes neither the bound values nor the aliases. -/
theorem yields_forM_addField {items : List Text} {s s' : Slate} {u : Unit}
    (h : Yields (items.forM addField) s u s') :
    s'.params = s.params ∧ s'.aliases = s.aliases := by
  induction items generalizing s with
  | nil =>
    rw [List.forM] at h
    obtain ⟨-, rfl⟩ := yields_pure.mp h
    exact ⟨rfl, rfl⟩
  | cons i items ih =>
    rw [List.forM] at h
    obtain ⟨_, s₁, h₁, h⟩ := yields_bind.mp h
    rw [yields_addField.mp h₁] at h
    have h' := ih h
    exact h'

theorem emits_rawFields {items : List Text} (h : ∀ i ∈ items, Raw.isField i = true) :
    Emits L (ListText st L K.Value) (rawFields items) := by
  intro s t s' hs hy
  simp only [rawFields, yields_bind, yields_pure] at hy
  obtain ⟨_, s₁, h₁, rfl, rfl⟩ := hy
  obtain ⟨hp, ha⟩ := yields_forM_addField h₁
  rw [hp, ha]
  exact ⟨hs, listText_rawItems fun i hi => .inl (h i hi)⟩

theorem emits_constantProjection (v : Value) :
    Emits L (ListText st L K.Value) (constantProjection st v) := by
  unfold constantProjection
  split
  · intro s t s' hs hy
    obtain ⟨items, s₁, h₁, hf⟩ := yields_bind.mp hy
    obtain ⟨hi, rfl⟩ := yields_ofExcept.mp h₁
    have hfields : ∀ i ∈ items, Raw.isField i = true := by
      simpa using isField_or_isOrder_of_mem hi
    exact emits_rawFields hfields s₁ t s' hs hf
  · exact emits_selectItem (emits_constantValue _) (.inl rfl)

theorem listText_listItem {n m : Nat} {t : Text} (h : ItemText st L K.Value n m t) (c : Clause)
    (ds : List Direction) : ListText st L K.Value n m (listItem c ds t) := by
  unfold listItem
  split
  · exact .single (.directed h _)
  · exact .single h

theorem listText_rawListing {n : Nat} {c : Clause} {items : List Text}
    (h : ∀ i ∈ items, Raw.isField i = true ∨ Raw.isOrder i = true) (ds : List Direction) :
    ListText st L K.Value n n (rawListing c ds items).1 := by
  induction items generalizing ds with
  | nil => exact .nil
  | cons i items ih =>
    exact (listText_listItem (.raw (h i (by simp))) c ds).append
      (ih (fun i hi => h i (by simp [hi])) ds.tail)

theorem emits_rawList (c : Clause) (t : Text) (ds : List Direction) :
    Emits L (fun n m p => ListText st L K.Value n m p.1) (rawList c t ds) := by
  intro s p s' hs hy
  simp only [rawList, bind_pure_comp, yields_map, yields_ofExcept] at hy
  obtain ⟨items, ⟨hi, rfl⟩, rfl⟩ := hy
  refine ⟨hs, listText_rawListing (fun i hmem => ?_) ds⟩
  have h := isField_or_isOrder_of_mem hi i hmem
  split at h
  · exact .inr h
  · exact .inl h

/-- Lists one after the other, of texts that can be appended. -/
theorem emits_listings {Q : Nat → Nat → Text → Prop} (hnil : ∀ n, Q n n [])
    (happend : ∀ {n k m a b}, Q n k a → Q k m b → Q n m (a ++ b))
    {ms : List (List Direction → Emit (Text × List Direction))}
    (h : ∀ m ∈ ms, ∀ ds, Emits L (fun n k p => Q n k p.1) (m ds)) (ds : List Direction) :
    Emits L (fun n k p => Q n k p.1) (listings ms ds) := by
  induction ms generalizing ds with
  | nil => exact emits_pure fun n => hnil n
  | cons m ms ih =>
    intro s p s' hs hy
    simp only [listings, yields_bind, yields_after, yields_pure] at hy
    obtain ⟨⟨t, ds'⟩, s₁, hm, ⟨rest, ds''⟩, s₂, hms, rfl, rfl⟩ := hy
    obtain ⟨hs₁, ht⟩ := h m (by simp) ds s _ s₁ hs hm
    obtain ⟨hs₂, hrest⟩ := ih (fun m hm => h m (by simp [hm])) ds' s₁ _ s' hs₁ hms
    exact ⟨hs₂, happend ht hrest⟩

theorem emits_constantListing (v : Value) (c : Clause) (ds : List Direction) :
    Emits L (fun n m p => ListText st L K.Value n m p.1) (constantListing v c ds) := by
  unfold constantListing
  split
  · exact emits_rawList c _ ds
  · exact emits_pure fun _ => .nil
  · refine emits_listings (fun _ => .nil) .append (fun m hm ds => ?_) ds
    obtain ⟨v, -, rfl⟩ := List.mem_map.mp hm
    split
    · exact emits_rawList c _ ds
    · exact emits_fault
  · exact emits_fail

end Emit

theorem Rendering.lawful_constant {inlined : Expr → Prop} (v : Value) (t : Option Ty) :
    Lawful K ((Expr.const v t).RawArgumentWith L inlined) (constant st v t) where
  value _ := emits_constantValue v
  condition := emits_constantCondition v
  members := emits_constantMembers v
  argument h c := emits_constantArgument h c
  projection := emits_constantProjection v
  listing := emits_constantListing v
  row _ _ _ h := Row.lawful_allOfValue h
  rows _ _ _ h := Row.lawful_allOfValue h
  addends m hm c := by
    obtain rfl := List.mem_singleton.mp hm
    exact emits_constantValue v
  addends_ne := nofun

/-! ### Conditions

The texts that conditions are put together from are tokens of the grammar, so the kinds are kept. -/

namespace Emit

theorem emits_folding {α : Type} {Q : Nat → Nat → α → Prop} {e : Expr} {constant : Value → Emit α}
    {own : Emit α} (hc : ∀ v, Emits L Q (constant v)) (ho : Emits L Q own) :
    Emits L Q (folding st e constant own) := by
  intro s a s' hs hy
  rcases yields_folding.mp hy with ⟨v, -, h⟩ | ⟨-, h⟩
  · exact hc v s a s' hs h
  · exact ho s a s' hs h

theorem emits_stated {m : Emit Text} (h : Emits L (Optional K.Condition) m) :
    Emits L K.Condition (stated m) := by
  intro s t s' hs hy
  obtain ⟨a, ha, rfl⟩ := yields_stated.mp hy
  obtain ⟨hs', hc⟩ := h s a s' hs ha
  refine ⟨hs', ?_⟩
  cases a with
  | nil =>
    rw [← K.counts hc]
    exact K.always
  | cons b a => exact hc.of_ne_nil nofun

theorem emits_truthCase {m : Emit Text} (h : Emits L (Optional K.Condition) m) :
    Emits L K.Value (truthCase m) := by
  refine (emits_stated h).enclose fun n k t ht => ?_
  have hv : K.Value n k
      ("CASE WHEN " ++ t ++ " THEN " ++ "1" ++ " ELSE " ++ "0" ++ " END") :=
    K.choice ht K.one K.zero
  have hl : (" THEN 1 ELSE 0 END" : Text) = " THEN " ++ ("1" ++ (" ELSE " ++ ("0" ++ " END"))) := by
    decide
  simpa only [hl, List.append_assoc] using hv

theorem emits_grouped {m : Emit Text} (h : Emits L K.Value m) (parens : Bool) :
    Emits L K.Value (grouped parens m) := by
  unfold grouped
  split
  · exact h.enclose fun _ _ _ ht => K.parens ht
  · exact h

theorem emits_groupedCondition {m : Emit Text} (h : Emits L (Optional K.Condition) m)
    (parens : Bool) : Emits L (Optional K.Condition) (groupedCondition parens m) := by
  intro s t s' hs hy
  obtain ⟨a, ha, rfl⟩ := yields_groupedCondition.mp hy
  obtain ⟨hs', hc⟩ := h s a s' hs ha
  refine ⟨hs', ?_⟩
  cases parens with
  | false => exact hc
  | true =>
    cases a with
    | nil => exact hc
    | cons b a => exact .inr (K.group (hc.of_ne_nil nofun))

theorem emits_joined {token : Text} (ht : token ∈ logicalTokens) {l r : Emit Text}
    (hl : Emits L (Optional K.Condition) l) (hr : Emits L (Optional K.Condition) r) :
    Emits L (Optional K.Condition) (joined token l r) := by
  intro s t s' hs hy
  obtain ⟨a, s₁, b, ha, hb, rfl⟩ := yields_joined.mp hy
  obtain ⟨hs₁, hca⟩ := hl s a s₁ hs ha
  obtain ⟨hs', hcb⟩ := hr s₁ b s' hs₁ hb
  refine ⟨hs', ?_⟩
  cases a with
  | nil =>
    rw [K.counts hca]
    exact hcb
  | cons x a =>
    cases b with
    | nil =>
      rw [← K.counts hcb]
      simpa using hca
    | cons y b => exact .inr (K.join ht (hca.of_ne_nil nofun) (hcb.of_ne_nil nofun))

theorem emits_negated {m : Emit Text} (h : Emits L (Optional K.Condition) m)
    (isNegated : Bool) : Emits L (Optional K.Condition) (negated isNegated m) := by
  intro s t s' hs hy
  obtain ⟨a, ha, rfl⟩ := yields_negated.mp hy
  obtain ⟨hs', hc⟩ := h s a s' hs ha
  refine ⟨hs', ?_⟩
  cases isNegated with
  | false => exact hc
  | true =>
    cases a with
    | nil =>
      rw [← K.counts hc]
      exact .inr K.never
    | cons b a => exact .inr (K.negate (hc.of_ne_nil nofun))

/-- What a comparison operator is written as, whether or not it tests for null. -/
theorem comparison_token {op : BinaryOp} (h : op.isComparison = true) (isNull : Bool) :
    (if isNull && op = .equal then (" IS " : Text)
      else if isNull && op = .notEqual then " IS NOT " else op.token?.getD []) ∈
        comparisonTokens := by
  cases op <;> cases isNull <;> first | cases h; done | decide

theorem logical_token {op : BinaryOp} (h : op.isLogical = true) :
    op.token?.getD [] = if op.isOr then (" OR " : Text) else " AND " := by
  cases op <;> first | cases h; done | rfl

theorem emits_compared {op : BinaryOp} (h : op.isComparison = true) {l r : Emit Text}
    (hl : Emits L K.Value l) (hr : Emits L K.Value r) :
    Emits L (Optional K.Condition) (compared op l r) := by
  intro s t s' hs hy
  simp only [compared, yields_bind, yields_after, yields_setPending, yields_pure] at hy
  obtain ⟨a, s₁, ha, b, s₂, hb, _, s₃, rfl, rfl, rfl⟩ := hy
  obtain ⟨hs₁, hva⟩ := hl s a s₁ hs ha
  obtain ⟨hs₂, hvb⟩ := hr s₁ b s₂ hs₁ hb
  exact ⟨hs₂, .inr (K.compare (comparison_token h (decide (b = ("NULL" : Text)))) hva hvb)⟩

end Emit

end QueryTree
