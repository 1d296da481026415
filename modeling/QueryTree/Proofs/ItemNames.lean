import Mathlib.Data.List.Forall2
import Mathlib.Data.List.TakeWhile
import QueryTree.Proofs.Folding
import QueryTree.Proofs.Frames
import QueryTree.Proofs.Marks
import QueryTree.Sample.Conditions

/-!
# The names of select items

A member of a shape is selected under its own name, which is written behind the value unless the
value is a column of that name already. Whether it is, is read off the text: what stands behind the
last point, without quotes, is compared with the name.

Values end in many ways, but most endings are told from a plain name at once: a call ends with a
bracket, and an operator or a keyword leaves a blank behind the last point. Only a column at the end
of the text is taken for the value, whatever stands in front of it. So the name is left out not only
for columns, but also for a negated column, a sum that ends with one, and the like.

## Main definitions

* `Lexicon.bare`: plain names
* `EndsInColumn`: the texts that end in a column of a name
* `Expr.ItemOf`: a select item of a member of a shape

## Main results

* `ValueText.bareColumn_eq_iff`: where the name is left out
* `forall₂_itemOf_projection`: the items of a shape are those of its members
* `exists_item_without_name`: a negated column is selected without its name
-/

namespace QueryTree

open Emit Emit.selectItem Sql

/-! ### The last part of a text -/

namespace Text

variable {f : UInt8 → Bool} {x y : Text} {b : UInt8}

theorem afterLast_append_of_forall (h : ∀ b ∈ y, f b = false) :
    afterLast f (x ++ y) = afterLast f x ++ y := by
  have hall : ∀ b ∈ y.reverse, (!f b) = true := by simpa using h
  rw [afterLast, List.reverse_append, List.takeWhile_append_of_pos hall]
  simp [afterLast]

theorem afterLast_append_of_mem (hb : b ∈ y) (hf : f b = true) :
    afterLast f (x ++ y) = afterLast f y := by
  have hshort : ¬ (y.reverse.takeWhile (!f ·)).length = y.reverse.length := by
    intro hlength
    have hself := (List.takeWhile_prefix (l := y.reverse) (!f ·)).eq_of_length hlength
    have hall := List.takeWhile_eq_self_iff.mp hself b (by simpa using hb)
    simp [hf] at hall
  rw [afterLast, List.reverse_append, List.takeWhile_append, if_neg hshort, afterLast]

theorem mem_dropWhile (hb : f b = false) (h : b ∈ x) : b ∈ x.dropWhile f := by
  induction x with
  | nil => cases h
  | cons c x ih =>
    rw [List.dropWhile_cons]
    split
    · rename_i hc
      rcases List.mem_cons.mp h with rfl | h
      · rw [hb] at hc
        cases hc
      · exact ih h
    · exact h

theorem mem_dropEndWhile (hb : f b = false) (h : b ∈ x) : b ∈ x.dropEndWhile f := by
  simpa [dropEndWhile] using mem_dropWhile hb (List.mem_reverse.mpr h)

theorem dropWhile_of_forall (h : ∀ b ∈ x, f b = false) : x.dropWhile f = x := by
  cases x with
  | nil => rfl
  | cons c x => simp [h c (by simp)]

theorem dropEndWhile_append (hx : ∀ b ∈ x, f b = false) (hy : ∀ b ∈ y, f b = true) :
    (x ++ y).dropEndWhile f = x := by
  have hall : ∀ b ∈ y.reverse, f b = true := by simpa using hy
  rw [dropEndWhile, List.reverse_append, List.dropWhile_append_of_pos hall,
    dropWhile_of_forall (by simpa using hx), List.reverse_reverse]

theorem double_of_not_mem (h : b ∉ x) : x.double b = x := by
  induction x with
  | nil => rfl
  | cons c x ih =>
    have hc : c ≠ b := fun hc => h (by simp [hc])
    rw [double, if_neg hc, ih fun hx => h (by simp [hx])]

end Text

/-! ### Bare columns -/

/-- Whether a byte is a quote of a name. -/
def isIdentQuote (b : UInt8) : Bool :=
  b == byte '"' || b == 96 || b == byte '[' || b == byte ']'

variable {st : Settings} {t x y name : Text} {b : UInt8}

/-- A byte behind the last point that quotes no name stands in the bare column. -/
theorem mem_bareColumn (hy : byte '.' ∉ y) (hb : b ∈ y) (hq : isIdentQuote b = false) :
    b ∈ bareColumn (x ++ y) := by
  have hpoint : ∀ c ∈ y, (c == byte '.') = false := by
    intro c hc
    simpa using ne_of_mem_of_not_mem hc hy
  unfold bareColumn
  rw [Text.afterLast_append_of_forall hpoint]
  exact Text.mem_dropEndWhile hq (Text.mem_dropWhile hq (by simp [hb]))

/-- Only what stands behind the last point makes up the bare column. -/
theorem bareColumn_append (h : byte '.' ∈ y) : bareColumn (x ++ y) = bareColumn y := by
  unfold bareColumn
  rw [Text.afterLast_append_of_mem h (by decide)]

/-- The text has a byte that neither stands in a name nor quotes one. -/
def HoldsMark (y : Text) : Prop := ∃ b ∈ y, isIdentQuote b = false ∧ isNameByte b = false

instance (y : Text) : Decidable (HoldsMark y) := List.decidableBEx _ y

/-- A mark behind the last point tells the bare column from every name. -/
theorem bareColumn_ne (hname : name.all isNameByte = true) (hy : byte '.' ∉ y)
    (hmark : HoldsMark y) : bareColumn (x ++ y) ≠ name := by
  obtain ⟨b, hb, hq, hn⟩ := hmark
  intro h
  have hmem : b ∈ name := h ▸ mem_bareColumn hy hb hq
  rw [List.all_eq_true.mp hname b hmem] at hn
  cases hn

theorem isIdentQuote_of_isNameByte {b : UInt8} (hb : isNameByte b = true) :
    isIdentQuote b = false := by
  have hquotes := Text.not_mem_of_test (l := [byte '"', 96, byte '[', byte ']']) (by decide) hb
  simpa [isIdentQuote, and_assoc] using hquotes

theorem not_mem_of_isNameByte (hname : name.all isNameByte = true) (hb : isNameByte b = false) :
    b ∉ name := fun h => by
  rw [List.all_eq_true.mp hname b h] at hb
  cases hb

/-- A name between quotes is a name, once they are gone. -/
theorem trimmed_enclose (hname : name.all isNameByte = true) {x y : Text}
    (hx : ∀ b ∈ x, isIdentQuote b = true) (hy : ∀ b ∈ y, isIdentQuote b = true) :
    Text.dropEndWhile isIdentQuote ((x ++ name ++ y).dropWhile isIdentQuote) = name := by
  have hbytes : ∀ b ∈ name, isIdentQuote b = false := fun b hb =>
    isIdentQuote_of_isNameByte (List.all_eq_true.mp hname b hb)
  rw [List.append_assoc, List.dropWhile_append_of_pos hx]
  cases name with
  | nil =>
    rw [List.nil_append, List.dropWhile_eq_nil_iff.mpr hy]
    rfl
  | cons c name =>
    have hc : isIdentQuote c = false := hbytes c (by simp)
    rw [List.cons_append, List.dropWhile_cons_of_neg (by simp [hc]), ← List.cons_append]
    exact Text.dropEndWhile_append hbytes hy

/-- A name as it is written: between quotes, or alone. -/
theorem exists_ident_eq (st : Settings) (hname : name.all isNameByte = true) :
    ∃ x y : Text, st.ident name = x ++ name ++ y ∧ (∀ b ∈ x, isIdentQuote b = true) ∧
      (∀ b ∈ y, isIdentQuote b = true) ∧ byte '.' ∉ st.ident name := by
  have hpoint : byte '.' ∉ name := not_mem_of_isNameByte hname (by decide)
  have quoted : ∀ o c : UInt8, isIdentQuote o = true → isIdentQuote c = true → o ≠ byte '.' →
      c ≠ byte '.' → isNameByte c = false → ∃ x y : Text, Sql.enclose o c name = x ++ name ++ y ∧
        (∀ b ∈ x, isIdentQuote b = true) ∧ (∀ b ∈ y, isIdentQuote b = true) ∧
        byte '.' ∉ Sql.enclose o c name := by
    intro o c ho hc hop hcp hcn
    have hdouble : Text.double c name = name :=
      Text.double_of_not_mem (not_mem_of_isNameByte hname hcn)
    refine ⟨[o], [c], by simp [Sql.enclose, hdouble], by simpa, by simpa, ?_⟩
    rw [Sql.enclose, hdouble, List.mem_cons, List.mem_append, List.mem_singleton]
    rintro (h | h | h)
    · exact hop h.symm
    · exact hpoint h
    · exact hcp h.symm
  unfold Settings.ident
  split
  · unfold Settings.profile
    cases st.dialect
    all_goals exact quoted _ _ (by decide) (by decide) (by decide) (by decide) (by decide)
  · exact ⟨[], [], by simp, by simp, by simp, hpoint⟩

theorem bareColumn_ident (hname : name.all isNameByte = true) :
    bareColumn (st.ident name) = name := by
  obtain ⟨x, y, heq, hx, hy, hpoint⟩ := exists_ident_eq st hname
  have hlast : Text.afterLast (· == byte '.') (st.ident name) = st.ident name := by
    have happend := Text.afterLast_append_of_forall (f := (· == byte '.')) (x := [])
      (y := st.ident name) fun b hb => by simpa using ne_of_mem_of_not_mem hb hpoint
    simpa [Text.afterLast] using happend
  unfold bareColumn
  rw [hlast, heq]
  exact trimmed_enclose hname hx hy

theorem bareColumn_point (hname : name.all isNameByte = true) (u : Text) :
    bareColumn (u ++ "." ++ st.ident name) = name := by
  obtain ⟨x, y, heq, hx, hy, hpoint⟩ := exists_ident_eq st hname
  have hlast : Text.afterLast (· == byte '.') (u ++ "." ++ st.ident name) = st.ident name := by
    rw [Text.afterLast_append_of_forall fun b hb => by
        simpa using ne_of_mem_of_not_mem hb hpoint,
      Text.afterLast_append_of_mem (b := byte '.') (by decide) (by decide)]
    rfl
  unfold bareColumn
  rw [hlast, heq]
  exact trimmed_enclose hname hx hy

theorem bareColumn_word (h : t ∈ valueWords) : bareColumn t = t := by
  have hall : ∀ t ∈ valueWords, bareColumn t = t := by decide
  exact hall t h

section Values

-- nothing in this section looks into the definition
attribute [local irreducible] bareColumn

/-! ### Values -/

/-- The text ends in a column of the name: it is the name, as it is written, alone or behind a
point. A word may read like the name as well. -/
def EndsInColumn (st : Settings) (name t : Text) : Prop :=
  t = st.ident name ∨ (∃ u, t = u ++ "." ++ st.ident name) ∨ t ∈ valueWords ∧ t = name

/-- Plain names, whether they are quoted or not. -/
def Lexicon.bare : Lexicon where
  Name v := v ≠ [] ∧ v.all isNameByte = true
  Raw _ := True
  Table _ := True
  numbered v i h := by
    refine ⟨by simp [Text.ofNat_ne_nil], ?_⟩
    rcases h with rfl | h
    · exact all_isNameByte_ofNat (i + 1)
    · rw [List.all_append, h.2, all_isNameByte_ofNat]
      rfl

theorem bareColumn_of_endsInColumn (hname : name.all isNameByte = true)
    (h : EndsInColumn st name t) : bareColumn t = name := by
  rcases h with rfl | ⟨u, rfl⟩ | ⟨hword, rfl⟩
  · exact bareColumn_ident hname
  · exact bareColumn_point hname u
  · exact bareColumn_word hword

/-- A mark is no name. -/
theorem bareColumn_placeholder_ne (hname : name.all isNameByte = true) (d : Dialect) (n : Nat) :
    bareColumn (d.profile.placeholder n) ≠ name := by
  have numbered : ∀ lead : Text, byte '.' ∉ lead → HoldsMark lead →
      bareColumn (lead ++ Text.ofNat n) ≠ name := by
    rintro lead hpoint ⟨b, hb, h⟩
    refine bareColumn_ne (x := []) (y := lead ++ Text.ofNat n) hname ?_ ⟨b, by simp [hb], h⟩
    rw [List.mem_append, not_or]
    exact ⟨hpoint, not_mem_of_isNameByte (all_isNameByte_ofNat n) (by decide)⟩
  cases d with
  | mySql | sqlite => exact bareColumn_ne (x := []) hname (y := "?") (by decide) (by decide)
  | sqlServer => exact numbered "@p" (by decide) (by decide)
  | postgres => exact numbered "$" (by decide) (by decide)
  | oracle => exact numbered ":" (by decide) (by decide)

/-- What stands in front of a text that ends in a column, and of its last point. -/
theorem EndsInColumn.append (h : EndsInColumn st name t) (ht : byte '.' ∈ t)
    (hname : name.all isNameByte = true) (x : Text) : EndsInColumn st name (x ++ t) := by
  rcases h with rfl | ⟨u, rfl⟩ | ⟨hword, rfl⟩
  · obtain ⟨-, -, -, -, -, hpoint⟩ := exists_ident_eq st hname
    exact absurd ht hpoint
  · exact .inr (.inl ⟨x ++ u, by simp⟩)
  · exact absurd ht (not_mem_of_isNameByte hname (by decide))

/-- A text whose bare column is a name ends in a column, if what stands in front of it ends with a
mark and the text does. -/
theorem endsInColumn_append (hname : name.all isNameByte = true) {x t : Text}
    (hx : ∃ u y, x = u ++ y ∧ byte '.' ∉ y ∧ HoldsMark y)
    (ih : bareColumn t = name → EndsInColumn st name t) (h : bareColumn (x ++ t) = name) :
    EndsInColumn st name (x ++ t) := by
  by_cases hp : byte '.' ∈ t
  · rw [bareColumn_append hp] at h
    exact (ih h).append hp hname x
  · obtain ⟨u, y, rfl, hy, b, hb, hmark⟩ := hx
    rw [List.append_assoc] at h
    refine absurd h (bareColumn_ne hname ?_ ⟨b, by simp [hb], hmark⟩)
    rw [List.mem_append, not_or]
    exact ⟨hy, hp⟩

/-- A value whose bare column is a plain name ends in a column of it. -/
theorem ValueText.endsInColumn (hname : name.all isNameByte = true) {n m : Nat} {t : Text} :
    ValueText st .bare n m t → bareColumn t = name → EndsInColumn st name t
  | .word hword, h => .inr (.inr ⟨hword, (bareColumn_word hword).symm.trans h⟩)
  | .mark, h => absurd h (bareColumn_placeholder_ne hname st.dialect _)
  | .column _ hc, h => by
    rw [bareColumn_point hc.2] at h
    exact .inr (.inl ⟨_, by rw [h]⟩)
  | .bare hc, h => by
    rw [bareColumn_ident hc.2] at h
    exact .inl (by rw [h])
  | .raw _ _ _, h | .call _ _, h | .choice _ _ _, h | .counted _, h =>
    absurd h (bareColumn_ne hname (by decide) (by decide))
  | .op hs _ hb, h => by
    have hall : ∀ sep ∈ valueSeparators, byte '.' ∉ sep ∧ HoldsMark sep := by decide
    exact endsInColumn_append hname ⟨_, _, rfl, hall _ hs⟩ (hb.endsInColumn hname) h
  | .minus ht, h =>
    endsInColumn_append hname ⟨[], "-", rfl, by decide, by decide⟩ (ht.endsInColumn hname) h

/-- **Where a plain name is left out**: behind a value whose text ends in a column of the name. -/
theorem ValueText.bareColumn_eq_iff (hname : name.all isNameByte = true) {n m : Nat} {t : Text}
    (h : ValueText st .bare n m t) : bareColumn t = name ↔ EndsInColumn st name t :=
  ⟨h.endsInColumn hname, bareColumn_of_endsInColumn hname⟩

/-! ### Items of shapes -/

/-- The item is what the emitter emits as a value from some state, and behind it the name, unless
the value ends in a column of the name. -/
def ItemOf (st : Settings) (name : Text) (value : Emit Text) (item : Text) : Prop :=
  ∃ s a s', s.aliases.Within .bare ∧ Yields value s a s' ∧
    (EndsInColumn st name a ∧ item = a ∨
      ¬ EndsInColumn st name a ∧ item = a ++ " AS " ++ st.ident name)

theorem itemOf_selectItem {value : Emit Text} (hname : name ≠ [] ∧ name.all isNameByte = true)
    (hvalue : Emits .bare (ValueText st .bare) value) (hmoves : Moves Slate.SameFields value)
    {s s' : Slate} (hs : s.aliases.Within .bare) (h : Yields (selectItem st value name) s t s') :
    ∃ item, s'.fields = s.fields ++ [item] ∧ ItemOf st name value item := by
  obtain ⟨a, s₁, ha, item, hitem, rfl, -⟩ := yields_selectItem.mp h
  have hiff := (hvalue s a s₁ hs ha).2.bareColumn_eq_iff hname.2
  refine ⟨item, ?_, s, a, s₁, hs, ha, ?_⟩
  · show s₁.fields ++ [item] = _
    rw [show s₁.fields = s.fields from hmoves s a s₁ ha]
  · by_cases hend : EndsInColumn st name a
    · refine .inl ⟨hend, ?_⟩
      simpa [hiff.mpr hend] using hitem
    · refine .inr ⟨hend, ?_⟩
      have hne : bareColumn a ≠ name := fun hb => hend (hiff.mp hb)
      simpa [hname.1, hne] using hitem

namespace Rendering

/-- The item of a member of a shape: all columns of a row, or the value of the member. -/
def MemberItem (st : Settings) (b : Text × Rendering) (item : Text) : Prop :=
  (∃ p, b.2.expr.unquote = .param p) ∨ ItemOf st b.1 (b.2.value .select) item

theorem forall₂_memberItems {bindings : List (Text × Rendering)}
    (hlawful : ∀ b ∈ bindings, LawfulBinding (grammar st .bare) b)
    (hconfined : ∀ b ∈ bindings, b.2.Confined Slate.SameFields)
    (hnames : ∀ b ∈ bindings, b.1 ≠ [] ∧ b.1.all isNameByte = true) {s s' : Slate}
    (hs : s.aliases.Within .bare) (h : Yields (memberItems st bindings) s t s') :
    ∃ items, s'.fields = s.fields ++ items ∧ List.Forall₂ (MemberItem st) bindings items := by
  induction bindings generalizing s t with
  | nil =>
    obtain ⟨-, rfl⟩ := yields_pure.mp h
    exact ⟨[], by simp, .nil⟩
  | cons b bindings ih =>
    obtain ⟨name, e⟩ := b
    obtain ⟨first, s₁, rest, hfirst, hrest, -⟩ := yields_join.mp h
    have hb := hlawful (name, e) (by simp)
    have head : s₁.aliases.Within .bare ∧
        ∃ item, s₁.fields = s.fields ++ [item] ∧ MemberItem st (name, e) item := by
      simp only at hfirst
      split at hfirst
      · rename_i p hp
        refine ⟨(emits_allColumns (K := grammar st .bare) (hb.2.2 p hp) s _ s₁ hs hfirst).1, ?_⟩
        simp only [allColumns, yields_bind, yields_row, yields_addField, yields_pure] at hfirst
        obtain ⟨_, _, ⟨-, -, rfl⟩, _, _, rfl, -, rfl⟩ := hfirst
        exact ⟨_, rfl, .inl ⟨p, hp⟩⟩
      · have hvalue := hb.2.1.value .select
        refine ⟨(emits_selectItem (K := grammar st .bare) hvalue hb.1 s _ s₁ hs hfirst).1, ?_⟩
        obtain ⟨item, hitem, h⟩ := itemOf_selectItem (hnames (name, e) (by simp)) hvalue
          ((hconfined (name, e) (by simp)).value .select) hs hfirst
        exact ⟨item, hitem, .inr h⟩
    obtain ⟨hs₁, item, hitem, hmember⟩ := head
    obtain ⟨items, hitems, hall⟩ := ih (fun b hb => hlawful b (by simp [hb]))
      (fun b hb => hconfined b (by simp [hb])) (fun b hb => hnames b (by simp [hb])) hs₁ hrest
    exact ⟨item :: items, by rw [hitems, hitem, List.append_assoc, List.singleton_append],
      .cons hmember hall⟩

end Rendering

namespace Expr

variable {inlined : Expr → Rendering}

/-- The column that an expression is, if it is a member of a row. -/
def columnOf? (st : Settings) (e : Expr) : Option Column :=
  match e.unquote with
  | member (param p) name _ _ =>
    match st.entityOf p.type with
    | .ok entity => entity.column? name
    | .error _ => none
  | _ => none

theorem columnOf?_eq_some {e : Expr} {c : Column} (h : e.columnOf? st = some c) :
    ∃ p name type owner entity, e.unquote = .member (.param p) name type owner ∧
      st.entityOf p.type = .ok entity ∧ entity.column? name = some c := by
  unfold columnOf? at h
  split at h
  · rename_i p name type owner he
    split at h
    · rename_i entity hentity
      exact ⟨p, name, type, owner, entity, he, hentity, h⟩
    · cases h
  · cases h

/-- The value of an expression that is a column is the column. -/
theorem text_of_columnOf? {e : Expr} {c : Column} {s s' : Slate} {a : Text}
    (hc : e.columnOf? st = some c) (h : Yields ((renderWith st inlined e).value .select) s a s') :
    a = st.ident c.name ∨ ∃ u, a = u ++ "." ++ st.ident c.name := by
  obtain ⟨p, name, type, owner, entity, he, hentity, hcolumn⟩ := columnOf?_eq_some hc
  have hfolded := folded?_of_not_isClosed (isClosed_member_param p name type owner) st.pre
  rw [← value_unquote, he, renderWith] at h
  rcases yields_folding.mp h with ⟨v, hv, -⟩ | ⟨-, h⟩
  · rw [hfolded] at hv
    cases hv
  · obtain ⟨⟨t, c'⟩, s₁, hcol, h⟩ := yields_bind.mp h
    obtain ⟨_, _, -, h⟩ := yields_bind.mp h
    obtain ⟨rfl, -⟩ := yields_pure.mp h
    obtain ⟨⟨entity', rowName⟩, s₂, hrow, hcol⟩ := yields_bind.mp hcol
    obtain ⟨hentity', -, -⟩ := yields_row.mp hrow
    obtain rfl := Except.ok.inj (hentity.symm.trans hentity')
    simp only [hcolumn] at hcol
    split at hcol
    · obtain ⟨heq, -⟩ := yields_pure.mp hcol
      obtain ⟨rfl, rfl⟩ := Prod.mk.inj heq
      exact .inl rfl
    · obtain ⟨heq, -⟩ := yields_pure.mp hcol
      obtain ⟨rfl, rfl⟩ := Prod.mk.inj heq
      exact .inr ⟨_, rfl⟩

/-- A column ends in one of the name if it has the name. -/
theorem endsInColumn_iff_of_columnOf? {e : Expr} {c : Column} {s s' : Slate} {a : Text}
    (hc : e.columnOf? st = some c) (hcolumn : c.name.all isNameByte = true)
    (hname : name.all isNameByte = true)
    (h : Yields ((renderWith st inlined e).value .select) s a s') :
    EndsInColumn st name a ↔ c.name = name := by
  have htext := text_of_columnOf? hc h
  constructor
  · intro hend
    rw [← bareColumn_of_endsInColumn hname hend]
    rcases htext with rfl | ⟨u, rfl⟩
    · exact (bareColumn_ident hcolumn).symm
    · exact (bareColumn_point hcolumn u).symm
  · rintro rfl
    exact htext.elim .inl fun hu => .inr (.inl hu)

/-- The select item of a member of a shape, with at most `depth` nested inlinings. A member that is
a row stands for all its columns. Every other one is its value, as it is emitted from some state,
and its name behind it unless the value ends in a column of the name; for a member that is a column
this is the question whether the column has the name. -/
def ItemOfMember (st : Settings) (depth : Nat) (b : Text × Expr) (item : Text) : Prop :=
  (∃ p, b.2.unquote = .param p) ∨
    ∃ s a s', s.aliases.Within .bare ∧ Yields ((b.2.renderTo st depth).value .select) s a s' ∧
      (EndsInColumn st b.1 a ∧ item = a ∨
        ¬ EndsInColumn st b.1 a ∧ item = a ++ " AS " ++ st.ident b.1) ∧
      ∀ c, b.2.columnOf? st = some c → (EndsInColumn st b.1 a ↔ c.name = b.1)

theorem NamedBindings.of_mem {L : Lexicon} {raw named : Expr → Prop} {bs : List (Text × Expr)}
    (h : NamedBindings st L raw named bs) {b : Text × Expr} (hb : b ∈ bs) :
    NamedWith st L raw named b.2 := by
  induction bs with
  | nil => cases hb
  | cons x bs ih =>
    rcases List.mem_cons.mp hb with rfl | hb
    · exact h.2.1
    · exact ih h.2.2 hb

theorem isNameByte_of_columnOf? {e : Expr} {c : Column} {raw named : Expr → Prop}
    (h : NamedWith st .bare raw named e) (hc : e.columnOf? st = some c) :
    c.name.all isNameByte = true := by
  obtain ⟨p, name, type, owner, entity, he, hentity, hcolumn⟩ := columnOf?_eq_some hc
  have hunquote := NamedWith.unquote h
  rw [he] at hunquote
  have hp : p.Named st .bare := hunquote
  exact ((hp.2 entity hentity).2.2 c (List.mem_of_find?_eq_some hcolumn)).2

/-- **The items of a shape are those of its members**, in their order: a member is written as its
value with its name behind it, unless the value ends in a column of the name. -/
theorem forall₂_itemOfMember (depth : Nat) {e : Expr} {type : Option Ty} {bs : List (Text × Expr)}
    (he : e = .new type bs ∨ e = .init type bs) (hnamed : e.NamedTo st .bare (depth + 1))
    (hnames : ∀ b ∈ bs, b.1 ≠ [] ∧ b.1.all isNameByte = true) {s s' : Slate}
    (hs : s.aliases.Within .bare) (h : Yields (e.renderTo st (depth + 1)).projection s t s') :
    ∃ items, s'.fields = s.fields ++ items ∧ t = listed items ∧
      List.Forall₂ (ItemOfMember st (depth + 1)) bs items := by
  have hbindings : NamedBindings st .bare (RawArgumentTo .bare (depth + 1))
      (NamedTo st .bare depth) bs := by
    rcases he with rfl | rfl <;> exact hnamed
  have hitems : Yields (Rendering.memberItems st (renderBindings st (renderTo st depth) bs))
      s t s' := by
    rcases he with rfl | rfl <;> exact h
  have hlawful : ∀ b ∈ renderBindings st (renderTo st depth) bs,
      Rendering.LawfulBinding (grammar st .bare) b :=
    grammatical_renderBindings (lawful_renderTo depth) bs hbindings
  have hconfined : ∀ b ∈ renderBindings st (renderTo st depth) bs,
      b.2.Confined Slate.SameFields :=
    confined_renderBindings Slate.isFrame_sameFields
      (confined_renderTo Slate.isFrame_sameFields depth) bs
  obtain ⟨items, hfields, hall⟩ := Rendering.forall₂_memberItems hlawful hconfined
    (fun b hb => by
      rw [renderBindings_eq_map] at hb
      obtain ⟨b', hb', rfl⟩ := List.mem_map.mp hb
      exact hnames b' hb') hs hitems
  obtain ⟨items', hfields', rfl⟩ :=
    (confined_renderTo Slate.isFrame_sameFields (depth + 1) e).projection s t s' h
  obtain rfl : items = items' := List.append_cancel_left (hfields.symm.trans hfields')
  refine ⟨items, hfields, rfl, ?_⟩
  rw [renderBindings_eq_map, List.forall₂_map_left_iff] at hall
  have hplain : ∀ b ∈ bs, b.1.all isNameByte = true ∧
      ∀ c, b.2.columnOf? st = some c → c.name.all isNameByte = true := fun b hb =>
    ⟨(hnames b hb).2, fun _ => isNameByte_of_columnOf? (hbindings.of_mem hb)⟩
  refine ((List.forall₂_and_left _ _).mpr ⟨hplain, hall⟩).imp fun b item h => ?_
  obtain ⟨⟨hname, hcolumn⟩, hitem⟩ := h
  rcases hitem with hrow | ⟨s₁, a, s₂, hs₁, ha, hitem⟩
  · rw [renderWith_expr] at hrow
    exact .inl hrow
  · exact .inr ⟨s₁, a, s₂, hs₁, ha, hitem, fun c hc =>
      endsInColumn_iff_of_columnOf? hc (hcolumn c hc) hname ha⟩

end Expr

end Values

namespace Sample

/-- The names of customers are plain. -/
theorem customerRow_bare (d : Dialect) : customerRow.Named (.standard d world) .bare := by
  have row : ("c" : Text) ≠ [] ∧ ("c" : Text).all isNameByte = true := by decide
  have columns : ∀ v ∈ customerColumns, v ≠ [] ∧ v.all isNameByte = true := by decide
  exact customerRow_named_of rfl row trivial columns

/-- The age of a customer under its own name and under another, the age negated, and the row. -/
def ages : List (Text × Expr) :=
  [("age", .field customerRow "Age"), ("years", .field customerRow "Age"),
    ("years", .unary .negate (.field customerRow "Age") none), ("customer", .param customerRow)]

/-- The age of a customer negated, under the name of the column. -/
def negatedAge : Expr :=
  .new none [("age", .unary .negate (.field customerRow "Age") none)]

/-- What an expression emits as a select list at first, if it does: its text and the items that are
recorded. -/
def projection? (e : Expr) : Option (Text × Slate) :=
  match result (e.renderTo (.standard .sqlServer world) 1).projection .empty with
  | (.ok t, s) => some (t, s)
  | _ => none

theorem yields_of_projection? {e : Expr} {t : Text} {s : Slate} (h : projection? e = some (t, s)) :
    Yields (e.renderTo (.standard .sqlServer world) 1).projection .empty t s := by
  unfold projection? at h
  split at h
  · rename_i hr
    cases h
    exact hr
  · cases h

end Sample

open Sample in
theorem Expr.forall₂_itemOfMember_ages :
    ∃ s, Yields ((Expr.new none ages).renderTo (.standard .sqlServer world) 1).projection .empty
        "c.age, c.age AS years, -c.age AS years, c.*, " s ∧
      s.fields = ["c.age", "c.age AS years", "-c.age AS years", "c.*"] ∧
      List.Forall₂ (ItemOfMember (.standard .sqlServer world) 1) ages s.fields := by
  have hrow := customerRow_bare .sqlServer
  have hlabel : ∀ v : Text, v ≠ [] ∧ v.all isNameByte = true → v = [] ∨ Lexicon.bare.Label v :=
    fun v hv => .inr hv
  have hnamed : (Expr.new none ages).NamedTo (.standard .sqlServer world) .bare 1 :=
    ⟨hlabel _ (by decide), hrow, hlabel _ (by decide), hrow, hlabel _ (by decide), hrow,
      hlabel _ (by decide), hrow, trivial⟩
  have hnames : ∀ b ∈ ages, b.1 ≠ [] ∧ b.1.all isNameByte = true := by decide +kernel
  have hitems : (projection? (.new none ages)).map (fun x => (x.1, x.2.fields)) =
      some (("c.age, c.age AS years, -c.age AS years, c.*, " : Text),
        (["c.age", "c.age AS years", "-c.age AS years", "c.*"] : List Text)) := by
    decide +kernel
  obtain ⟨⟨t, s⟩, hp, hx⟩ := Option.map_eq_some_iff.mp hitems
  obtain ⟨rfl, hfields⟩ := Prod.mk.inj hx
  have hy := yields_of_projection? hp
  obtain ⟨items, hi, -, hall⟩ := forall₂_itemOfMember 0 (.inl rfl) hnamed hnames
    (AliasTable.within_empty _) hy
  obtain rfl : s.fields = items := hi
  exact ⟨s, hy, hfields, hall⟩

open Sample in
/-- A negated column is selected without its name, although it is no column. -/
theorem exists_item_without_name :
    ∃ d, (Draft.new (.standard .sqlServer world)).compile negatedAge .select [] = (d, .ok ()) ∧
      d.slate.fields = ["-c.age"] ∧
      (Expr.unary .negate (.field customerRow "Age") none).columnOf?
        (.standard .sqlServer world) = none := by
  have items : selection? negatedAge = some (("-c.age" : Text), (["-c.age"] : List Text)) := by
    decide
  obtain ⟨d, hd, -, hf⟩ := compile_of_selection? items
  exact ⟨d, hd, hf, rfl⟩

end QueryTree
