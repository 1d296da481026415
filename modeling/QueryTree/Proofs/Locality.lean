import QueryTree.Proofs.Clauses
import QueryTree.Proofs.InPlace
import QueryTree.Proofs.Mirrored
import QueryTree.Sample.Conditions

/-!
# Compiling appends

Most clauses only add to a draft: the text, the bound values and the recorded items that are there
stay as they are, and what is added depends neither on the text nor on what is bound or recorded. It
depends on the settings, the aliases, the declared type that is pending, and the number of bound
values, which numbers the placeholders. Lists are the exception: they end with a separator that is
cut off, and so look at the text before.

A compilation that edits its draft in place, by offsets into the whole text, leaves what appending
leaves, so the offsets never reach behind the text that was there. The rest of the proof is about
emitters: it runs them in two drafts. They are related while they have the same aliases and the same
pending type and have been extended alike, and every emitter keeps that.

## Main definitions

* `Clause.appending`: the clauses that only add to a draft
* `Draft.extended`: a draft with something added
* `Slate.ExtendAlike`, `Simulation.extension`: states that are extended alike

## Main results

* `Draft.edit_appends`: what is added in place, and that it is added to every similar draft
-/

namespace QueryTree

open Emit

/-- The clauses whose text is kept as it is emitted. -/
def Clause.appending : List Clause :=
  [where_, join, having, in_, insert, max, min, avg, sum, count]

/-! ### States that are extended alike -/

/-- The first state extends `base` by the same bound values and items by which the second extends
`base'`, and both have the same aliases and the same pending type. -/
structure Slate.ExtendAlike (base base' s s' : Slate) : Prop where
  params : ∃ ps, s.params = base.params ++ ps ∧ s'.params = base'.params ++ ps
  fields : ∃ fs, s.fields = base.fields ++ fs ∧ s'.fields = base'.fields ++ fs
  aliases : s.aliases = s'.aliases
  pendingType : s.pendingType = s'.pendingType

namespace Slate.ExtendAlike

variable {base base' s s' : Slate}

theorem start (ha : base.aliases = base'.aliases) (hp : base.pendingType = base'.pendingType) :
    ExtendAlike base base' base base' :=
  ⟨⟨[], by simp⟩, ⟨[], by simp⟩, ha, hp⟩

theorem bindValue (h : ExtendAlike base base' s s') (p : Profile) (v : Value) (t : Text) :
    ExtendAlike base base' (s.bindValue p v t).2 (s'.bindValue p v t).2 := by
  obtain ⟨ps, hs, hs'⟩ := h.params
  refine { h with params := ⟨ps ++ [⟨v, if t.isEmpty then s.pendingType else t⟩], ?_, ?_⟩,
                  pendingType := rfl }
  · rw [Slate.bindValue, hs, List.append_assoc]
  · rw [Slate.bindValue, hs', h.pendingType, List.append_assoc]

theorem addField (h : ExtendAlike base base' s s') (t : Text) :
    ExtendAlike base base' { s with fields := s.fields ++ [t] }
      { s' with fields := s'.fields ++ [t] } := by
  obtain ⟨fs, hs, hs'⟩ := h.fields
  refine { h with fields := ⟨fs ++ [t], ?_, ?_⟩ }
  · rw [hs, List.append_assoc]
  · rw [hs', List.append_assoc]

end Slate.ExtendAlike

/-- Compilations that extend two states alike. As many values are bound in one as in the other, so
placeholders have the same numbers. -/
def Simulation.extension {base base' : Slate} (h : base.params.length = base'.params.length) :
    Simulation where
  rows := .identity
  sameText := True
  States := Slate.ExtendAlike base base'
  Types := (· = ·)
  types_refl _ := rfl
  pendingType hs := hs.pendingType
  params_length hs _ := by
    obtain ⟨ps, hps, hps'⟩ := hs.params
    rw [hps, hps', List.length_append, List.length_append, h]
  set_pending hs _ _ ht := { hs with pendingType := ht }
  bind_value hs p v _ _ ht := ht ▸ hs.bindValue p v _
  add_field hs t t' ht := ht trivial ▸ hs.addField t
  bind_row hs p table _ := by
    rw [hs.aliases]
    exact { hs with aliases := rfl }
  alias_eq hs p table _ _ := by
    rw [hs.aliases]
    rfl

/-- A rendering mirrors itself in states that are extended alike. -/
theorem Expr.mirrors_extension {base base' : Slate} {st : Settings} (e : Expr)
    (h : base.params.length = base'.params.length) :
    (Simulation.extension h).Mirrors (e.render st) (e.render st) := by
  have hr : (Simulation.extension h).Mirrors (e.render st) ((e.rename .identity).render st) :=
    Expr.mirrors_renderTo Expr.inlineDepth (Renaming.admits_identity e)
  rwa [Expr.rename_of_forall (fun _ => rfl)] at hr

/-! ### Drafts -/

namespace Draft

/-- The draft with text, bound values and recorded items added, and with other aliases and another
pending type. -/
def extended (d : Draft) (t : Text) (ps : List Bound) (fs : List Text) (a : AliasTable)
    (pending : Text) : Draft :=
  { d with
    text := d.text ++ t
    slate := ⟨d.slate.params ++ ps, d.slate.fields ++ fs, a, pending⟩ }

/-- The drafts agree in everything that a compilation looks at. -/
structure Similar (d x : Draft) : Prop where
  settings : x.settings = d.settings
  aliases : x.slate.aliases = d.slate.aliases
  pendingType : x.slate.pendingType = d.slate.pendingType
  params : x.slate.params.length = d.slate.params.length

/-- The result of a compilation is the draft with something added, and the same is added to every
similar draft. -/
def Appends (d : Draft) (f : Draft → Draft × Except (Stop CompileError) Unit) : Prop :=
  ∀ d', f d = (d', .ok ()) → ∃ t ps fs a pending, d' = d.extended t ps fs a pending ∧
    ∀ x, d.Similar x → f x = (x.extended t ps fs a pending, .ok ())

/-- An emitter that runs alike from states that are extended alike appends. -/
theorem appends_run {d : Draft} (m : Settings → Emit Text)
    (h : ∀ {base base' : Slate} (hlen : base.params.length = base'.params.length),
      (Simulation.extension hlen).Agree (Simulation.extension hlen).Same (m d.settings)
        (m d.settings)) :
    d.Appends fun x => x.run (m x.settings) := by
  intro d' hd
  obtain ⟨t, s, hr, rfl⟩ := run_eq_ok hd
  rw [Yields] at hr
  have hlen : d.slate.params.length = d.slate.params.length := rfl
  have hself := h hlen d.slate d.slate (.start rfl rfl)
  rw [hr] at hself
  cases hself with
  | returned _ hs =>
    obtain ⟨ps, hps, -⟩ := hs.params
    obtain ⟨fs, hfs, -⟩ := hs.fields
    refine ⟨t, ps, fs, s.aliases, s.pendingType, ?_, fun x hx => ?_⟩
    · rw [extended, ← hps, ← hfs]
    · have hother := h hx.params.symm d.slate x.slate
        (.start hx.aliases.symm hx.pendingType.symm)
      rw [hr] at hother
      dsimp only
      rw [hx.settings, run_eq]
      generalize result (m d.settings) x.slate = y at hother
      cases hother with
      | returned ht hs' =>
        -- what was added is determined by the first draft
        obtain ⟨ps', hps', hps''⟩ := hs'.params
        obtain ⟨fs', hfs', hfs''⟩ := hs'.fields
        obtain rfl := List.append_cancel_left (hps.symm.trans hps')
        obtain rfl := List.append_cancel_left (hfs.symm.trans hfs')
        rw [extended, hs'.aliases, hs'.pendingType, ← hps'', ← hfs'', ht trivial]

theorem appends_unchanged (d : Draft) : d.Appends fun x => (x, .ok ()) := by
  rintro _ ⟨rfl, -⟩
  refine ⟨[], [], [], d.slate.aliases, d.slate.pendingType, by simp [extended], fun x hx => ?_⟩
  rw [extended, ← hx.aliases, ← hx.pendingType]
  simp

theorem compile_of_appending (d : Draft) {e : Expr} (he : e.isHole = false) {c : Clause}
    (hc : c ∈ Clause.appending) (ds : List Direction) :
    d.compile e c ds = d.run (emitted d.settings e c ds) := by
  have hfinish : ∀ (x : Draft) (n : Nat), x.finish c n = (x, .ok ()) := by
    cases c with
    | select | update | groupBy | orderBy | unknown => simp [Clause.appending] at hc
    | _ => exact fun _ _ => rfl
  unfold compile
  rw [he]
  rcases d.run (emitted d.settings e c ds) with ⟨d', _ | _⟩
  · rfl
  · exact hfinish d' _

/-- What a clause emits for an expression runs alike from states that are extended alike. -/
theorem agree_emitted {base base' : Slate} (h : base.params.length = base'.params.length)
    (st : Settings) (e : Expr) (c : Clause) (ds : List Direction) :
    (Simulation.extension h).Agree (Simulation.extension h).Same (emitted st e c ds)
      (emitted st e c ds) :=
  Simulation.agree_emittedIn (e.mirrors_extension h) c ds

theorem appends_compileHole (d : Draft) {c : Clause} (hc : c ∈ Clause.appending) :
    d.Appends fun x => x.compileHole c := by
  have aggregate : ∀ c, d.Appends fun x =>
      x.run (Rendering.aggregate c (.unsupported x.settings .hole)) := fun c =>
    appends_run (fun st => Rendering.aggregate c (.unsupported st .hole)) fun _ =>
      Simulation.agree_aggregate c (Simulation.mirrors_unsupported Renaming.admits_hole)
  cases c with
  | where_ | join | having | in_ => exact appends_unchanged d
  | insert => exact fun _ h => nomatch h
  | max => exact aggregate .max
  | min => exact aggregate .min
  | avg => exact aggregate .avg
  | sum => exact aggregate .sum
  | count => exact aggregate .count
  | select | update | groupBy | orderBy | unknown => simp [Clause.appending] at hc

theorem appends_compile (d : Draft) (e : Expr) {c : Clause} (hc : c ∈ Clause.appending)
    (ds : List Direction) : d.Appends fun x => x.compile e c ds := by
  cases he : e.isHole with
  | true =>
    have hole : (fun x : Draft => x.compile e c ds) = fun x => x.compileHole c := by
      funext x
      unfold compile
      rw [if_pos he]
    rw [hole]
    exact appends_compileHole d hc
  | false =>
    have run : (fun x : Draft => x.compile e c ds) =
        fun x => x.run (emitted x.settings e c ds) :=
      funext fun x => compile_of_appending x he hc ds
    rw [run]
    exact appends_run (fun st => emitted st e c ds) fun hlen => agree_emitted hlen d.settings e c ds

/-- **Compiling in place only appends.** Whatever is in the draft, a compilation for one of these
clauses that succeeds adds text, bound values and recorded items and changes nothing that was there,
though it inserts, replaces and discards by offsets into the draft; and to every draft with the same
settings, aliases, pending type and number of bound values it adds the same. -/
theorem edit_appends {d d' : Draft} {e : Expr} {c : Clause} (hc : c ∈ Clause.appending)
    {ds : List Direction} (h : d.edit e c ds = (d', .ok ())) :
    ∃ t ps fs a pending, d' = d.extended t ps fs a pending ∧
      ∀ x, d.Similar x → x.edit e c ds = (x.extended t ps fs a pending, .ok ()) := by
  simp only [edit_eq_compile] at h ⊢
  exact appends_compile d e hc ds d' h

end Draft

open Sample in
/-- The draft of a statement with one condition. -/
def Sample.adults : Draft :=
  ((Draft.new (.standard .postgres world)).compile (hasAge 30) .where_ []).1

open Sample in
/-- A second condition is written behind the first, and its operator inserted. -/
theorem Draft.edit_appends_adults :
    (.having : Clause) ∈ Clause.appending ∧
      ∃ d', adults.edit (hasName "Ada") .having [] = (d', .ok ()) ∧
        ∃ t ps fs a pending, d' = adults.extended t ps fs a pending ∧ ∀ x, adults.Similar x →
          x.edit (hasName "Ada") .having [] = (x.extended t ps fs a pending, .ok ()) := by
  have hc : (.having : Clause) ∈ Clause.appending := by decide
  have h : adults.edit (hasName "Ada") .having [] =
      ((adults.compile (hasName "Ada") .having []).1, .ok ()) := by
    rw [edit_eq_compile]
    rfl
  exact ⟨hc, _, h, edit_appends hc h⟩

end QueryTree
