import QueryTree.Proofs.Clauses
import QueryTree.Proofs.RawNames

/-!
# Marks stand in the order of the bound values

Every text of the grammar is tidy, by induction on the grammar, and so is what an expression adds to
a draft in any clause. A statement under construction is `Draft.Tidy` when its marks are exactly
those of the values bound so far, in order; compiling an expression for a clause keeps it so.

The lexicon is `Lexicon.plain`: names are quoted or hold letters, digits and underscores only.

## Main definitions

* `Draft.Tidy`, `Draft.Ready`: drafts whose marks are in order, and those that may be continued
* `Expr.WritesPlain`: the columns that an expression writes are plain

## Main results

* `ValueText.tidy`, `ConditionText.tidy`, `ListText.tidy`
* `Draft.Ready.compile`: compiling a clause keeps the marks in order
-/

namespace QueryTree

open Sql Emit

variable {st : Settings} {n m : Nat} {t : Text}

/-! ### The grammar -/

theorem tidy_ident {v : Text} (h : (Lexicon.plain st.quoted).Alias v) :
    Sql.Tidy st.dialect n n (st.ident v) := by
  unfold Settings.ident
  split
  · refine ⟨Nat.le_refl n, fun rest hrest => ?_⟩
    rw [markRange_self, List.map_nil, List.nil_append]
    exact signs_quoted (quoteIdent_ne_nil st.dialect v)
      (quotedLength_quoteIdent st.dialect v hrest)
  · rename_i hq
    refine (closed_of_inert ?_).tidy
    rcases h with rfl | h | h
    · nofun
    · exact absurd h hq
    · exact inert_of_nameBytes h

theorem tidy_literal (d : Dialect) (u : Text) :
    Sql.Tidy d n n (Sql.enclose 39 39 u) := by
  refine ⟨Nat.le_refl n, fun rest hrest => ?_⟩
  rw [markRange_self, List.map_nil, List.nil_append]
  exact signs_quoted nofun (quotedLength_enclose (by decide) u (hrest.head?_ne (by decide)))

theorem tidy_word (d : Dialect) (h : t ∈ valueWords) : Sql.Tidy d n n t := by
  have hall :
      ∀ t ∈ valueWords, Inert t ∨ t = Sql.enclose 39 39 [37] ∨ t = Sql.enclose 39 39 [] := by
    decide
  rcases hall t h with hi | rfl | rfl
  · exact (closed_of_inert hi).tidy
  · exact tidy_literal d [37]
  · exact tidy_literal d []

mutual

theorem ValueText.tidy {n m : Nat} {t : Text} :
    ValueText st (.plain st.quoted) n m t → Sql.Tidy st.dialect n m t
  | .word h => tidy_word st.dialect h
  | .mark => tidy_placeholder st.dialect _
  | .column ha hc => (tidy_ident ha).join (by decide) (tidy_ident (.inr hc))
  | .bare hc => tidy_ident (.inr hc)
  | .raw hf hraw _ => by
    have hall : ∀ f ∈ functionNames, Inert (f ++ "(") := by decide
    have harg : Sql.Tidy st.dialect n n _ :=
      (closed_of_inert (inert_of_isField (isField_of_isItem hraw))).tidy
    exact (harg.enclose (hall _ hf) (by decide)).tidy
  | .call hf h => by
    have hall : ∀ f ∈ functionNames, Inert (f ++ "(") := by decide
    exact (h.tidy.enclose (hall _ hf) (by decide)).tidy
  | .op hs ha hb => by
    have hall : ∀ sep ∈ valueSeparators, isBreak sep = true := by decide
    exact ha.tidy.join (hall _ hs) hb.tidy
  | .minus h => (closed_of_inert (by decide)).append_tidy h.tidy
  | .choice hc ha hb => by
    have h := ((((closed_of_inert (by decide : Inert "CASE WHEN ")).append_tidy hc.tidy).join
      (by decide : isBreak " THEN " = true) ha.tidy).join
        (by decide : isBreak " ELSE " = true) hb.tidy)
    exact (h.closed_append (by decide)).tidy
  | .counted hc => (hc.tidy.enclose (by decide) (by decide)).tidy

theorem ConditionText.tidy {n m : Nat} {t : Text} :
    ConditionText st (.plain st.quoted) n m t → Sql.Tidy st.dialect n m t
  | .compare ht ha hb => by
    have hall : ∀ token ∈ comparisonTokens, isBreak token = true := by decide
    exact ha.tidy.join (hall _ ht) hb.tidy
  | .group hc => (hc.tidy.enclose (by decide) (by decide)).tidy
  | .join ht ha hb => by
    have hall : ∀ token ∈ logicalTokens, isBreak token = true := by decide
    exact ha.tidy.join (hall _ ht) hb.tidy
  | .negate (c := c) hc => by
    refine ⟨hc.tidy.le, fun rest hrest => ?_⟩
    rw [← (swapped_negate c).signs_eq, hc.tidy.signs_append rest hrest]

end

theorem ItemText.tidy
    (h : ItemText st (.plain st.quoted) (ValueText st (.plain st.quoted)) n m t) :
    Sql.Tidy st.dialect n m t := by
  induction h with
  | value h => exact h.tidy
  | named h hv => exact h.tidy.join (by decide) (tidy_ident (.inr hv))
  | columns ha => exact ((tidy_ident ha).closed_append (by decide)).tidy
  | raw h => exact (closed_of_inert (h.elim inert_of_isField inert_of_isOrder)).tidy
  | directed _ d ih =>
    refine ih.join (by decide) (closed_of_inert ?_).tidy
    cases d <;> decide

/-- A list is empty or ends with a separator, and what stands before it is tidy. -/
def Listed (d : Dialect) (n m : Nat) (t : Text) : Prop :=
  (t = [] ∧ n = m) ∨ ∃ u, t = u ++ itemSeparator ∧ Sql.Tidy d n m u

theorem Listed.append {d : Dialect} {k : Nat} {u : Text} (ht : Listed d n k t)
    (hu : Listed d k m u) : Listed d n m (t ++ u) :=
  ListOf.append (Q := Sql.Tidy d) (fun ha hb => ha.join (by decide) hb) ht hu

theorem ListText.listed
    (h : ListText st (.plain st.quoted) (ValueText st (.plain st.quoted)) n m t) :
    Listed st.dialect n m t := by
  induction h with
  | nil => exact .inl ⟨rfl, rfl⟩
  | @cons n k m a b ha _ ih =>
    exact Listed.append (.inr ⟨a, rfl, ha.tidy⟩ : Listed st.dialect n k (a ++ itemSeparator)) ih

/-! ### Rows to write -/

/-- Rows to write are tidy. -/
theorem rowTexts_tidy (st : Settings) :
    RowTexts (grammar st (.plain st.quoted)) (Sql.Tidy st.dialect) where
  nil _ := closed_nil.tidy
  name _ hv := tidy_ident (.inr hv)
  value := ValueText.tidy
  join hsep ha hb := by
    have hall : ∀ sep ∈ rowSeparators, isBreak sep = true := by decide
    exact ha.join (hall _ hsep) hb
  enclose hxy h := by
    have hall : ∀ xy ∈ rowBrackets, Inert xy.1 ∧ isBreak xy.2 = true := by decide
    exact (h.enclose (hall _ hxy).1 (hall _ hxy).2).tidy

/-- The columns of the cells are plain names. -/
def Emit.PlainRows (quoted : Bool) (rows : List Row) : Prop :=
  ∀ r ∈ rows, ∀ cell ∈ r.cells, (Lexicon.plain quoted).Name cell.column.name

/-! ### Drafts -/

/-- The columns that an expression writes as rows of a clause are plain names. -/
def Expr.WritesPlain (st : Settings) (e : Expr) : Clause → Prop
  | .insert => ∀ rows, (e.render st).rows .insert (·.insertable) = .ok rows →
      PlainRows st.quoted rows
  | .update => ∀ rows, (e.render st).rows .update (·.updatable) = .ok rows →
      PlainRows st.quoted rows
  | _ => True

namespace Draft

/-- The marks of the draft are those of its bound values, in order. -/
structure Tidy (st : Settings) (d : Draft) : Prop where
  settings : d.settings = st
  aliases : d.slate.aliases.Within (.plain st.quoted)
  text : Sql.Tidy st.dialect 0 d.slate.params.length d.text

/-- The draft is tidy and may be continued by any text. -/
structure Continuable (st : Settings) (d : Draft) : Prop where
  settings : d.settings = st
  aliases : d.slate.aliases.Within (.plain st.quoted)
  text : Closed st.dialect 0 d.slate.params.length d.text

/-- The draft may be continued by any text, also by a list that is empty: it is tidy when it loses
a last separator. -/
structure Ready (st : Settings) (d : Draft) : Prop extends Continuable st d where
  trimmed : Sql.Tidy st.dialect 0 d.slate.params.length (d.text.trimSuffix itemSeparator)

variable {d d' : Draft}

theorem Continuable.tidy (h : Continuable st d) : Tidy st d :=
  ⟨h.settings, h.aliases, h.text.tidy⟩

theorem ready_new (st : Settings) : Ready st (.new st) :=
  ⟨⟨rfl, AliasTable.within_empty _, closed_nil⟩, closed_nil.tidy⟩

/-- A text that ends with `w` loses a separator only if `w` ends with one. -/
theorem trimSuffix_append_of_not {a w s : Text} (hlen : s.length ≤ w.length)
    (h : w.hasSuffix s = false) : (a ++ w).trimSuffix s = a ++ w := by
  have hno : (a ++ w).hasSuffix s = false := by
    rw [Bool.eq_false_iff] at h ⊢
    intro hs
    refine h ?_
    simp only [Text.hasSuffix, List.isSuffixOf_iff_suffix] at hs ⊢
    exact List.suffix_of_suffix_length_le hs (List.suffix_append a w) hlen
  simp [Text.trimSuffix, hno]

/-- Whether a text ends what stands before it and anything may follow it. -/
def isKeyword (w : Text) : Bool :=
  isBreak w &&
    (w == itemSeparator || (itemSeparator.length ≤ w.length && !w.hasSuffix itemSeparator))

theorem Tidy.write_break {w : Text} (h : Tidy st d) (hw : isBreak w = true) :
    Continuable st (d.write w) :=
  ⟨h.settings, h.aliases, h.text.closed_append hw⟩

theorem Tidy.write {w : Text} (h : Tidy st d) (hw : isKeyword w = true) : Ready st (d.write w) := by
  simp only [isKeyword, Bool.and_eq_true, Bool.or_eq_true, beq_iff_eq, decide_eq_true_eq,
    Bool.not_eq_true'] at hw
  refine ⟨h.write_break hw.1, ?_⟩
  show Sql.Tidy _ 0 _ ((d.text ++ w).trimSuffix itemSeparator)
  rcases hw.2 with rfl | ⟨hlen, hno⟩
  · rw [Text.trimSuffix_append]
    exact h.text
  · rw [trimSuffix_append_of_not hlen hno]
    exact (h.text.closed_append hw.1).tidy

/-- Writing a tidy text without marks where anything may stand. -/
theorem Continuable.write {w : Text} (h : Continuable st d) (hw : ∀ n, Sql.Tidy st.dialect n n w) :
    Tidy st (d.write w) :=
  ⟨h.settings, h.aliases, h.text.append_tidy (hw _)⟩

theorem Continuable.run {x : Emit Text} (hd : Continuable st d)
    (hx : Emits (.plain st.quoted) (Sql.Tidy st.dialect) x) (h : d.run x = (d', .ok ())) :
    Tidy st d' := by
  obtain ⟨t, s, hy, rfl⟩ := run_eq_ok h
  obtain ⟨hs, ht⟩ := hx _ t s hd.aliases hy
  exact ⟨hd.settings, hs, hd.text.append_tidy ht⟩

/-- A list written where anything may stand is tidy once it has lost its last separator. -/
theorem Ready.run_listed {x : Emit Text} (hd : Ready st d)
    (hx : Emits (.plain st.quoted) (Listed st.dialect) x) (h : d.run x = (d', .ok ())) :
    Tidy st (d'.trimSuffix itemSeparator) := by
  obtain ⟨t, s, hy, rfl⟩ := run_eq_ok h
  obtain ⟨hs, ht⟩ := hx _ t s hd.aliases hy
  refine ⟨hd.settings, hs, ?_⟩
  show Sql.Tidy _ 0 s.params.length ((d.text ++ t).trimSuffix itemSeparator)
  rcases ht with ⟨rfl, hn⟩ | ⟨u, rfl, hu⟩
  · rw [List.append_nil, ← hn]
    exact hd.trimmed
  · rw [← List.append_assoc, Text.trimSuffix_append]
    exact hd.text.append_tidy hu

theorem Tidy.selectAll (h : Tidy st d) : Tidy st d.selectAll :=
  ⟨h.settings, h.aliases, (h.text.closed_append (by decide)).tidy⟩

/-! ### Clauses -/

theorem emits_aggregateOf {e : Expr} (c : Clause) (h : e.Named st (.plain st.quoted)) :
    Emits (.plain st.quoted) (Sql.Tidy st.dialect) (Rendering.aggregate c (e.render st)) := by
  have hraw := Expr.rawArgumentTo_of_raw (L := .plain st.quoted) fun _ => trivial
  exact (Rendering.emits_aggregate ((Expr.lawful_render h).mono fun _ => hraw _ _)).mono
    fun _ _ _ => ValueText.tidy

theorem Ready.compileHole {c : Clause} (hd : Ready st d) (h : d.compileHole c = (d', .ok ())) :
    Tidy st d' := by
  have aggregate : d.run (Rendering.aggregate c (.unsupported d.settings .hole)) = (d', .ok ()) →
      Tidy st d' := by
    rw [hd.settings]
    exact hd.run ((Rendering.emits_aggregate (K := grammar st (.plain st.quoted))
      (Rendering.lawful_unsupported .hole)).mono fun _ _ _ => ValueText.tidy)
  cases c with
  | select =>
    cases h
    exact hd.tidy.selectAll
  | insert | update => cases h
  | max | min | avg | sum | count => exact aggregate h
  | where_ | join | in_ | groupBy | having | orderBy | unknown =>
    cases h
    exact hd.tidy

theorem Continuable.compile_insert {e : Expr} {ds : List Direction} (hd : Continuable st d)
    (he : e.Named st (.plain st.quoted)) (hw : e.WritesPlain st .insert)
    (h : d.compile e .insert ds = (d', .ok ())) : Tidy st d' := by
  unfold Draft.compile at h
  split at h
  · cases h
  · split at h
    · rename_i d₁ hrun
      rw [hd.settings] at hrun
      cases h
      exact hd.run (emits_rowsOf (Expr.lawful_render he) hw fun _ hr hn =>
        emits_insertRows (rowTexts_tidy st) hr hn) hrun
    · rename_i hno
      exact absurd h (hno d' ·)

/-- **Compiling a clause keeps the marks in order.** -/
theorem Ready.compile {e : Expr} {c : Clause} {ds : List Direction} (hd : Ready st d)
    (he : e.Named st (.plain st.quoted)) (hw : e.WritesPlain st c)
    (h : d.compile e c ds = (d', .ok ())) : Tidy st d' := by
  have hl := Expr.lawful_render he
  have condition : ∀ c, Emits (.plain st.quoted) (Sql.Tidy st.dialect)
      ((e.render st).condition c) := fun c => (hl.condition c).mono fun n k t ht => by
    rcases ht with ⟨rfl, rfl⟩ | ht
    · exact closed_nil.tidy
    · exact ConditionText.tidy ht
  have listing : ∀ c, Emits (.plain st.quoted) (Listed st.dialect)
      (do return (← (e.render st).listing c ds).1) := fun c => by
    intro s t s' hs hy
    simp only [bind_pure_comp, yields_map] at hy
    obtain ⟨p, hp, rfl⟩ := hy
    obtain ⟨hs', ht⟩ := hl.listing c ds s p s' hs hp
    exact ⟨hs', ListText.listed ht⟩
  unfold Draft.compile at h
  split at h
  · exact hd.compileHole h
  · split at h
    · rename_i d₁ hrun
      rw [hd.settings] at hrun
      cases c with
      | select =>
        have ht := hd.run_listed (hl.projection.mono fun _ _ _ => ListText.listed) hrun
        cases h
        split
        · exact ht.selectAll
        · exact ht
      | insert =>
        cases h
        exact hd.run (emits_rowsOf (Expr.lawful_render he) hw fun _ hr hn =>
          emits_insertRows (rowTexts_tidy st) hr hn) hrun
      | update =>
        have ht := hd.run_listed (emits_rowsOf (Expr.lawful_render he) hw fun _ hr hn =>
          emits_assignments (rowTexts_tidy st) hr hn) hrun
        simp only [finish] at h
        split at h
        · cases h
        · cases h
          exact ht
      | where_ | join | having =>
        cases h
        exact hd.run (condition _) hrun
      | in_ =>
        cases h
        exact hd.run (hl.members.mono fun _ _ _ => ValueText.tidy) hrun
      | groupBy | orderBy =>
        cases h
        exact hd.run_listed (listing _) hrun
      | max | min | avg | sum | count =>
        cases h
        exact hd.run (emits_aggregateOf _ he) hrun
      | unknown =>
        cases h
        exact hd.run emits_fail hrun
    · rename_i hno
      exact absurd h (hno d' ·)

end Draft

end QueryTree
