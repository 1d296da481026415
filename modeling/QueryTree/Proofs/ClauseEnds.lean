import QueryTree.Proofs.DraftPairs
import QueryTree.Proofs.Rewriting
import QueryTree.Proofs.SelectLists
import QueryTree.Proofs.Silence
import QueryTree.Proofs.StatementMarks

/-!
# The ends of clauses

What an expression is compiled to in a clause stands by itself, if it is anything: it begins with no
comma and ends with no separator. A select list is always something. A condition is nothing where it
always holds, and a list of groups or orders where its items are silent.

Behind other text the same is appended, with one exception. A list cuts off the last separator of
the whole draft, so a silent one cuts off the separator that was written in front of it. An
expression that is not given is not compiled, and then nothing is cut off.

## Main definitions

* `selfStandingAll`: the kind of texts, conditions among them
* `Expr.HasText`: the text of an expression that is compiled alone
* `Draft.Standing`: drafts in which rows have aliases that stand by themselves

## Main results

* `Sql.selfStanding_negate`: negation adds no separator at either end
* `Expr.HasText.condition`, `Expr.HasText.projection`, `Expr.HasText.item`, `Expr.HasText.items`:
  which texts are empty, and that the others stand by themselves
* `Draft.Standing.clause_list`: what a list leaves of a draft
-/

namespace QueryTree

open Emit

/-! ### Conditions -/

namespace Sql

/-- The second text begins or ends with a separator only where the first does. That a text is a
blank has to be known as well, since a comma in front of it makes it a separator. -/
structure EndsAlike (t t' : Text) : Prop where
  nil : t' = [] ↔ t = []
  head : t'.head? = some (byte ',') → t.head? = some (byte ',')
  blank : t' = [byte ' '] → t = [byte ' ']
  last : itemSeparator <:+ t' → itemSeparator <:+ t

variable {t t' : Text}

theorem EndsAlike.cons (h : EndsAlike t t') (b : UInt8) : EndsAlike (b :: t) (b :: t') where
  nil := by simp
  head := id
  blank hb := by
    obtain ⟨rfl, rfl⟩ := List.cons.inj hb
    rw [h.nil.mp rfl]
  last hs := by
    rcases List.suffix_cons_iff.mp hs with hs | hs
    · obtain ⟨rfl, rfl⟩ := List.cons.inj (show byte ',' :: [byte ' '] = b :: t' from hs)
      rw [h.blank rfl]
      exact List.suffix_rfl
    · exact (h.last hs).trans (List.suffix_cons b t)

theorem EndsAlike.append (h : EndsAlike t t') (q : Text) : EndsAlike (q ++ t) (q ++ t') := by
  induction q with
  | nil => exact h
  | cons b q ih => exact ih.cons b

/-- Tokens and their complements begin with a blank and end with one that is no separator. -/
theorem negations_freeAtEnd {x : Text × Text} (hx : x ∈ negations) :
    x.1 ≠ [] ∧ x.2.head? = some (byte ' ') ∧ x.2.tail ≠ [] ∧
      x.2.getLast? ≠ some (byte ',') ∧ FreeAtEnd x.2 := by
  have hall : ∀ x ∈ negations, x.1 ≠ [] ∧ x.2.head? = some (byte ' ') ∧ x.2.tail ≠ [] ∧
      x.2.getLast? ≠ some (byte ',') ∧ FreeAtEnd x.2 := by decide
  exact hall x hx

theorem rewriting_endsAlike : Rewriting EndsAlike where
  nil := ⟨Iff.rfl, id, id, id⟩
  copy _ h := h.cons _
  quoted _ _ h := h.append _
  token := by
    rintro x w t t' hx hw h
    obtain ⟨hne, hhead, htail, hlast, hfree⟩ := negations_freeAtEnd hx
    have hw : w ≠ [] := by
      rintro rfl
      exact hne (List.map_eq_nil_iff.mp hw.symm)
    obtain ⟨rest, hx₂⟩ := List.head?_eq_some_iff.mp hhead
    refine ⟨by simp [hw, hx₂], fun hc => ?_, fun hb => ?_, fun hs => ?_⟩
    · rw [hx₂, List.cons_append, List.head?_cons] at hc
      exact absurd hc (by decide)
    · rw [hx₂, List.cons_append] at hb
      rw [hx₂] at htail
      exact absurd (List.append_eq_nil_iff.mp (List.cons.inj hb).2).1 htail
    · by_cases ht : itemSeparator <:+ t'
      · exact (h.last ht).trans (List.suffix_append w t)
      · by_cases hnil : t' = []
        · rw [hnil, List.append_nil] at hs
          exact absurd hs hfree.2
        · exact absurd hs (FreeAtEnd.append ⟨hnil, ht⟩ hlast).2

/-- **Negation adds no separator at either end.** -/
theorem selfStanding_negate (h : SelfStanding t) : SelfStanding (negate t) := by
  have hends := rewriting_endsAlike.negate t
  have hne : negate t ≠ [] := fun hnil => h.1.1 (hends.nil.mp hnil)
  exact ⟨⟨hne, fun hb => h.1.2 (hends.head hb)⟩, hne, fun hs => h.2.2 (hends.last hs)⟩

end Sql

variable {st : Settings}

/-- With quotes every name stands by itself. -/
theorem permissive_selfStanding {quoted : Bool} (h : quoted = true) :
    (Lexicon.selfStanding quoted).Permissive :=
  ⟨fun _ => .inl h, fun _ => trivial, fun _ => trivial, fun _ => .inl h⟩

/-- The texts that stand by themselves, conditions among them. -/
def selfStandingAll (st : Settings) : TextKinds st (.selfStanding st.quoted) :=
  { selfStanding st with
    Condition := fun _ _ => SelfStanding
    choice := fun hc ha hb => (selfStanding st).choice hc.1.1 ha hb
    counted := fun hc => (selfStanding st).counted hc.1.1
    compare := fun ht ha hb => ha.between
      ((by decide : ∀ x ∈ comparisonTokens, x ≠ [] ∧ x.getLast? ≠ some (byte ',')) _ ht) hb
    group := fun _ => selfStanding_call (f := []) (by decide) _
    join := fun ht ha hb => ha.between
      ((by decide : ∀ x ∈ logicalTokens, x ≠ [] ∧ x.getLast? ≠ some (byte ',')) _ ht) hb
    negate := Sql.selfStanding_negate
    ne_nil := fun h => h.1.1 }

theorem Expr.lawful_selfStanding {e : Expr} (he : e.Named st (.selfStanding st.quoted)) :
    (e.render st).Lawful (selfStandingAll st)
      (RawArgumentTo (.selfStanding st.quoted) inlineDepth e) :=
  lawfulOf_renderTo (fun _ => minusFits_of_unsigned fun _ => trivial) inlineDepth e he trivial

namespace Expr

variable {c : Clause}

/-- A list stands by itself up to its last separator, unless it is empty. -/
theorem fst_of_yields_listing {e : Expr} {ds : List Direction} {s s' : Slate}
    {p : Text × List Direction} (he : e.Named st (.selfStanding st.quoted))
    (hs : s.aliases.Within (.selfStanding st.quoted))
    (hy : Yields ((e.render st).listing c ds) s p s') :
    s'.aliases.Within (.selfStanding st.quoted) ∧
      (p.1 = [] ∨ ∃ t, SelfStanding t ∧ p.1 = t ++ itemSeparator) := by
  obtain ⟨hs', hlist⟩ := (lawful_selfStanding he).listing c ds s p s' hs hy
  refine ⟨hs', ?_⟩
  rcases hlist.listOf_of ItemText.selfStanding fun ha hb => ha.between (by decide) hb with
    ⟨hnil, -⟩ | ⟨t, ht, hself⟩
  · exact .inl hnil
  · exact .inr ⟨t, hself, ht⟩

/-! ### The texts of expressions -/

/-- The text of an expression that is compiled for a clause alone, where some aliases may be given
already. -/
def HasText (st : Settings) (c : Clause) (ds : List Direction) (e : Expr) (t : Text) : Prop :=
  ∃ s s' : Slate, s.aliases.Within (.selfStanding st.quoted) ∧
    (⟨st, [], s⟩ : Draft).compile e c ds = (⟨st, t, s'⟩, .ok ())

end Expr

namespace Draft

open QueryTree.Expr

/-- A draft with these settings and with aliases that stand by themselves. -/
structure Standing (st : Settings) (d : Draft) : Prop where
  settings : d.settings = st
  aliases : d.slate.aliases.Within (.selfStanding st.quoted)

variable {d d' : Draft} {e : Expr} {c : Clause} {ds : List Direction} {s : Slate} {a : Text}

theorem standing_new (st : Settings) : Standing st (new st) := ⟨rfl, AliasTable.within_empty _⟩

theorem Standing.write (h : Standing st d) (t : Text) : Standing st (d.write t) :=
  ⟨h.settings, h.aliases⟩

theorem compile_of_isHole (he : e.isHole = true) (d : Draft) (c : Clause) (ds : List Direction) :
    d.compile e c ds = d.compileHole c := by
  unfold compile
  rw [if_pos he]

/-- What is emitted in a clause, and what is left to do then behind any other text. -/
theorem exists_of_compile (he : e.isHole = false)
    (h : (⟨st, a, s⟩ : Draft).compile e c ds = (d', .ok ())) : ∃ t s',
      Yields (emitted st e c ds) s t s' ∧ ∀ b : Text, (⟨st, b, s⟩ : Draft).compile e c ds =
        (⟨st, b ++ t, s'⟩ : Draft).finish c b.length := by
  unfold compile at h
  rw [he, if_neg Bool.false_ne_true] at h
  split at h
  · rename_i d₁ hrun
    obtain ⟨t, s', hy, -⟩ := run_eq_ok hrun
    refine ⟨t, s', hy, fun b => ?_⟩
    have hrun : (⟨st, b, s⟩ : Draft).run (emitted st e c ds) = (⟨st, b ++ t, s'⟩, .ok ()) := by
      have hresult : StateT.run (ExceptT.run (emitted st e c ds)) s = (.ok t, s') := hy
      rw [run, hresult]
    unfold compile
    rw [he, if_neg Bool.false_ne_true, hrun]
  · rename_i hno
    exact absurd h (hno d' ·)

theorem compile_conditional (hc : c.isCondition = true)
    (he : e.Named st (.selfStanding st.quoted)) (hs : s.aliases.Within (.selfStanding st.quoted))
    (h : (⟨st, a, s⟩ : Draft).compile e c ds = (d', .ok ())) : ∃ t s',
      s'.aliases.Within (.selfStanding st.quoted) ∧ (t = [] ∨ SelfStanding t) ∧
      ∀ b : Text, (⟨st, b, s⟩ : Draft).compile e c ds = (⟨st, b ++ t, s'⟩, .ok ()) := by
  cases hhole : e.isHole with
  | true =>
    refine ⟨[], s, hs, .inl rfl, fun b => ?_⟩
    rw [compile_of_isHole hhole, compileHole_condition _ hc, List.append_nil]
  | false =>
    obtain ⟨t, s', hy, hall⟩ := exists_of_compile hhole h
    have hy : Yields ((e.render st).condition c) s t s' := by
      cases c <;> first | cases hc; done | exact hy
    obtain ⟨hs', ht⟩ := (lawful_selfStanding he).condition c s t s' hs hy
    refine ⟨t, s', hs', ht.imp_left (·.1), fun b => ?_⟩
    rw [hall b]
    cases c <;> first | cases hc; done | rfl

theorem compile_selection (he : e.Named st (.selfStanding st.quoted))
    (hs : s.aliases.Within (.selfStanding st.quoted))
    (h : (⟨st, a, s⟩ : Draft).compile e .select ds = (d', .ok ())) : ∃ t s',
      s'.aliases.Within (.selfStanding st.quoted) ∧ SelfStanding t ∧
      ∀ b : Text, b.trimSuffix itemSeparator = b →
        (⟨st, b, s⟩ : Draft).compile e .select ds = (⟨st, b ++ t, s'⟩, .ok ()) := by
  have hall : ∀ (b : Text) (s : Slate), (selectAll ⟨st, b, s⟩) =
      ⟨st, b ++ "*", { s with fields := s.fields ++ [("*" : Text)] }⟩ := fun _ _ => rfl
  cases hhole : e.isHole with
  | true =>
    refine ⟨"*", { s with fields := s.fields ++ [("*" : Text)] }, hs, by decide, fun b _ => ?_⟩
    rw [compile_of_isHole hhole]
    rfl
  | false =>
    obtain ⟨t, s', hy, hcompile⟩ := exists_of_compile hhole h
    obtain ⟨hs', hlist⟩ := (lawful_selfStanding he).projection s t s' hs hy
    rcases hlist.listOf_of ItemText.selfStanding fun ha hb => ha.between (by decide) hb with
      ⟨rfl, -⟩ | ⟨u, rfl, hself⟩
    · refine ⟨"*", { s' with fields := s'.fields ++ [("*" : Text)] }, hs', by decide,
        fun b hb => ?_⟩
      simp only [hcompile, finish, trimSuffix, List.append_nil, hb, if_true, hall]
    · refine ⟨u, s', hs', hself, fun b _ => ?_⟩
      have hlength : (b ++ u).length ≠ b.length := by simpa using hself.1.1
      simp only [hcompile, finish, trimSuffix, ← List.append_assoc, Text.trimSuffix_append, hlength,
        if_false]

/-- What a list is compiled to: where it is silent, the separator in front of it is lost, unless
nothing is given. -/
theorem compile_listing (hc : c.isListing = true) (he : e.Named st (.selfStanding st.quoted))
    (hs : s.aliases.Within (.selfStanding st.quoted))
    (h : (⟨st, a, s⟩ : Draft).compile e c ds = (d', .ok ())) : ∃ t s',
      s'.aliases.Within (.selfStanding st.quoted) ∧
      ((e.isHole = true ∧ t = []) ∨ ∃ p, Yields ((e.render st).listing c ds) s p s' ∧
        (t = [] ∧ p.1 = [] ∨ SelfStanding t ∧ p.1 ≠ [])) ∧
      ∀ b : Text, (⟨st, b, s⟩ : Draft).compile e c ds =
        (⟨st, if t ≠ [] then b ++ t else if e.isHole then b else b.trimSuffix itemSeparator, s'⟩,
          .ok ()) := by
  cases hhole : e.isHole with
  | true =>
    refine ⟨[], s, hs, .inl ⟨rfl, rfl⟩, fun b => ?_⟩
    rw [compile_of_isHole hhole]
    cases c <;> first | cases hc; done | rfl
  | false =>
    obtain ⟨body, s', hy, hcompile⟩ := exists_of_compile hhole h
    have hy : Yields (do return (← (e.render st).listing c ds).1 : Emit Text) s body s' := by
      cases c <;> first | cases hc; done | exact hy
    have hfinish : ∀ x n, finish x c n = (x.trimSuffix itemSeparator, .ok ()) := by
      cases c <;> first | cases hc; done | exact fun _ _ => rfl
    simp only [bind_pure_comp, yields_map] at hy
    obtain ⟨p, hp, rfl⟩ := hy
    obtain ⟨hs', hlist⟩ := fst_of_yields_listing he hs hp
    rcases hlist with hnil | ⟨u, hself, hu⟩
    · refine ⟨[], s', hs', .inr ⟨p, hp, .inl ⟨rfl, hnil⟩⟩, fun b => ?_⟩
      rw [hcompile, hfinish, hnil]
      simp [trimSuffix]
    · refine ⟨u, s', hs', .inr ⟨p, hp, .inr ⟨hself, by simp [hu, hself.1.1]⟩⟩, fun b => ?_⟩
      rw [hcompile, hfinish, hu, if_pos hself.1.1]
      simp [trimSuffix, ← List.append_assoc, Text.trimSuffix_append]

/-! ### Clauses in a draft -/

theorem Standing.compile (hd : Standing st d) (h : d.clause e c ds = .ok d') :
    (⟨st, d.text, d.slate⟩ : Draft).compile e c ds = (d', .ok ()) := by
  obtain ⟨st, a, s⟩ := d
  obtain rfl := hd.settings
  exact clause_eq_ok h

/-- A clause that is written as its text. -/
theorem Standing.appended {t : Text} {s' : Slate} (hd : Standing st d)
    (hs' : s'.aliases.Within (.selfStanding st.quoted)) (h : d.clause e c ds = .ok d')
    (hthere : (⟨st, d.text, d.slate⟩ : Draft).compile e c ds = (⟨st, d.text ++ t, s'⟩, .ok ()))
    (halone : (⟨st, [], d.slate⟩ : Draft).compile e c ds = (⟨st, t, s'⟩, .ok ())) :
    Standing st d' ∧ d'.text = d.text ++ t ∧ e.HasText st c ds t := by
  rw [hd.compile h] at hthere
  cases hthere
  exact ⟨⟨rfl, hs'⟩, rfl, d.slate, s', hd.aliases, halone⟩

theorem Standing.clause_condition (hd : Standing st d) (hc : c.isCondition = true)
    (he : e.Named st (.selfStanding st.quoted)) (h : d.clause e c ds = .ok d') :
    Standing st d' ∧ ∃ t, d'.text = d.text ++ t ∧ e.HasText st c ds t := by
  obtain ⟨t, s', hs', -, hall⟩ := compile_conditional hc he hd.aliases (hd.compile h)
  obtain ⟨hd', htext, ht⟩ := hd.appended hs' h (hall d.text) (hall [])
  exact ⟨hd', t, htext, ht⟩

theorem Standing.clause_select (hd : Standing st d) (htrim : d.IsTrimmed)
    (he : e.Named st (.selfStanding st.quoted)) (h : d.clause e .select ds = .ok d') :
    Standing st d' ∧ ∃ t, d'.text = d.text ++ t ∧ e.HasText st .select ds t := by
  obtain ⟨t, s', hs', -, hall⟩ := compile_selection he hd.aliases (hd.compile h)
  obtain ⟨hd', htext, ht⟩ := hd.appended hs' h (hall d.text htrim) (hall [] rfl)
  exact ⟨hd', t, htext, ht⟩

theorem Standing.clause_list (hd : Standing st d) (hc : c.isListing = true)
    (he : e.Named st (.selfStanding st.quoted)) (h : d.clause e c ds = .ok d') :
    Standing st d' ∧ ∃ t, e.HasText st c ds t ∧ d'.text = if t ≠ [] then d.text ++ t
      else if e.isHole then d.text else d.text.trimSuffix itemSeparator := by
  obtain ⟨t, s', hs', -, hall⟩ := compile_listing hc he hd.aliases (hd.compile h)
  have hthere := hall d.text
  rw [hd.compile h] at hthere
  cases hthere
  refine ⟨⟨rfl, hs'⟩, t, ⟨d.slate, s', hd.aliases, ?_⟩, rfl⟩
  rw [hall []]
  by_cases ht : t = [] <;> simp [ht, Text.trimSuffix]

end Draft

namespace Expr

variable {e : Expr} {c : Clause} {ds : List Direction} {t : Text}

/-- A condition has no text, or one that stands by itself. -/
theorem HasText.condition (hc : c.isCondition = true) (he : e.Named st (.selfStanding st.quoted))
    (h : e.HasText st c ds t) : t = [] ∨ SelfStanding t := by
  obtain ⟨s, s', hs, h⟩ := h
  obtain ⟨u, s₁, -, hu, hall⟩ := Draft.compile_conditional hc he hs h
  have halone := hall []
  rw [h] at halone
  cases halone
  exact hu

/-- A projection has a text that stands by itself. -/
theorem HasText.projection (he : e.Named st (.selfStanding st.quoted))
    (h : e.HasText st .select ds t) : SelfStanding t := by
  obtain ⟨s, s', hs, h⟩ := h
  obtain ⟨u, s₁, -, hu, hall⟩ := Draft.compile_selection he hs h
  have halone := hall [] rfl
  rw [h] at halone
  cases halone
  exact hu

/-- What a list has for its text, and what it emits with the last separator. -/
theorem HasText.listed (hc : c.isListing = true) (he : e.Named st (.selfStanding st.quoted))
    (h : e.HasText st c ds t) : (e.isHole = true ∧ t = []) ∨ ∃ s p s',
      Yields ((e.render st).listing c ds) s p s' ∧
        (t = [] ∧ p.1 = [] ∨ SelfStanding t ∧ p.1 ≠ []) := by
  obtain ⟨s, s', hs, h⟩ := h
  obtain ⟨u, s₁, -, hu, hall⟩ := Draft.compile_listing hc he hs h
  have halone := hall []
  rw [h] at halone
  obtain rfl : t = u := by
    have htext := congrArg (fun x => x.1.text) halone
    by_cases hnil : u = [] <;> simpa [hnil, Text.trimSuffix] using htext
  rcases hu with hu | ⟨p, hp, hu⟩
  · exact .inl hu
  · exact .inr ⟨s, p, s₁, hp, hu⟩

/-- An item of a list has a text that stands by itself, unless it is silent. -/
theorem HasText.item (hc : c.isListing = true) (he : e.Named st (.selfStanding st.quoted))
    (h : e.HasText st c ds t) : t = [] ∧ e.Silent st c ∨ SelfStanding t ∧ ¬ e.Silent st c := by
  rcases h.listed hc he with ⟨hhole, rfl⟩ | ⟨s, p, s', hy, ⟨rfl, hp⟩ | ⟨ht, hp⟩⟩
  · exact .inl ⟨rfl, silent_of_isHole hhole⟩
  · exact .inl ⟨rfl, (fst_eq_nil_iff_silent hy).mp hp⟩
  · exact .inr ⟨ht, fun hs => hp ((fst_eq_nil_iff_silent hy).mpr hs)⟩

/-- Several items have a text that stands by itself, unless all of them are silent. -/
theorem HasText.items {es : List Expr} (hne : es ≠ []) (hc : c.isListing = true)
    (he : ∀ e ∈ es, e.Named st (.selfStanding st.quoted)) (h : (ofItems es).HasText st c ds t) :
    t = [] ∧ (∀ e ∈ es, e.Silent st c) ∨ SelfStanding t ∧ ∃ e ∈ es, ¬ e.Silent st c := by
  rcases h.listed hc (named_ofItems he) with ⟨hhole, rfl⟩ | ⟨s, p, s', hy, ⟨rfl, hp⟩ | ⟨ht, hp⟩⟩
  · match es with
    | [e] => exact .inl ⟨rfl, by simpa using silent_of_isHole (e := e) hhole⟩
  · exact .inl ⟨rfl, (fst_eq_nil_iff_forall_silent hne hy).mp hp⟩
  · refine .inr ⟨ht, ?_⟩
    by_contra hall
    push Not at hall
    exact hp ((fst_eq_nil_iff_forall_silent hne hy).mpr hall)

end Expr

end QueryTree
