import QueryTree.Compile.Draft
import QueryTree.Proofs.AliasSearch
import QueryTree.Proofs.Lexicon

/-!
# Aliases are stable and distinct

A draft gives aliases to tables, for a hint, and to row parameters. Whatever is asked in whatever
order, an answer that was given once is given again, and different row parameters have different
aliases, also ignoring case. So have different tables and hints, provided that they have hints: a
table without a hint is meant to share the first alias of the table.

Two facts carry this. Every alias that is recorded is in use, and two recorded aliases that differ
in case only are the same text. The second is why a row parameter may compare its alias with those
of other rows byte by byte, although aliases are used up in lower case.

## Main definitions

* `AliasTable.Sound`: what holds of the aliases of every draft
* `AliasCall`, `Draft.ask`, `Draft.answers`: what a draft is asked for, and its answers
* `ConsistentAliases`: answers that are stable and distinct

## Main results

* `consistentAliases_answers`: the answers of a new draft are stable and distinct
-/

namespace QueryTree

namespace AliasTable

/-! ### What holds of every table -/

/-- The aliases that are recorded, for whatever. -/
def recorded (a : AliasTable) : List Text :=
  a.pairs.map (·.2) ++ (a.firsts.map (·.2) ++ a.rows.map (·.2))

/-- What holds of the aliases that are given one after the other. -/
structure Sound (a : AliasTable) : Prop where
  /-- Recorded aliases are in use. -/
  used : ∀ c ∈ a.recorded, c.toLower ∈ a.used
  /-- Recorded aliases that are equal ignoring case are equal. -/
  spelled : ∀ c ∈ a.recorded, ∀ d ∈ a.recorded, c.toLower = d.toLower → c = d
  /-- Different rows have different aliases. -/
  rows : ∀ x ∈ a.rows, ∀ y ∈ a.rows, x.2.toLower = y.2.toLower → x.1 = y.1
  /-- Different tables and hints have different aliases. -/
  pairs : ∀ x ∈ a.pairs, ∀ y ∈ a.pairs, x.1.2 ≠ [] → y.1.2 ≠ [] →
    x.2.toLower = y.2.toLower → x.1 = y.1

variable {a : AliasTable} {c : Text}

theorem mem_recorded : c ∈ a.recorded ↔
    (∃ k, (k, c) ∈ a.pairs) ∨ (∃ t, (t, c) ∈ a.firsts) ∨ ∃ i, (i, c) ∈ a.rows := by
  simp [recorded]

theorem sound_empty : Sound .empty :=
  ⟨nofun, nofun, nofun, nofun⟩

/-- The alias is in use and is not spelled otherwise where it is recorded, so it may be recorded. -/
structure Recordable (a : AliasTable) (c : Text) : Prop where
  used : c.toLower ∈ a.used
  spelled : ∀ d ∈ a.recorded, d.toLower = c.toLower → d = c

/-- The alias is in use and is recorded nowhere. -/
structure New (a : AliasTable) (c : Text) : Prop where
  used : c.toLower ∈ a.used
  apart : ∀ d ∈ a.recorded, d.toLower ≠ c.toLower

theorem New.recordable (h : New a c) : Recordable a c :=
  ⟨h.used, fun d hd heq => absurd heq (h.apart d hd)⟩

theorem Sound.recordable (h : Sound a) (hc : c ∈ a.recorded) : Recordable a c :=
  ⟨h.used c hc, fun d hd => h.spelled d hd c hc⟩

theorem Sound.unique (h : Sound a) (name : Text) :
    Sound (a.unique name).2 ∧ New (a.unique name).2 (a.unique name).1 := by
  have hno := firstUnused_not_mem a.used name
  refine ⟨⟨fun c hc => List.mem_cons_of_mem _ (h.used c hc), h.spelled, h.rows, h.pairs⟩,
    ⟨List.mem_cons_self, fun d hd heq => hno ?_⟩⟩
  show (a.unique name).1.toLower ∈ a.used
  rw [← heq]
  exact h.used d hd

/-- An alias that may be recorded keeps the recorded aliases in use and spelled in one way. -/
theorem Recordable.extend {b : AliasTable} (h : Sound a) (hc : Recordable a c)
    (hb : ∀ d ∈ b.recorded, d = c ∨ d ∈ a.recorded) (hused : b.used = a.used) :
    (∀ d ∈ b.recorded, d.toLower ∈ b.used) ∧
      ∀ d ∈ b.recorded, ∀ e ∈ b.recorded, d.toLower = e.toLower → d = e := by
  refine ⟨fun d hd => ?_, fun d hd e he heq => ?_⟩
  · rw [hused]
    rcases hb d hd with rfl | hd
    · exact hc.used
    · exact h.used d hd
  · rcases hb d hd with rfl | hd
    · rcases hb e he with rfl | he
      · rfl
      · exact (hc.spelled e he heq.symm).symm
    · rcases hb e he with rfl | he
      · exact hc.spelled d hd heq
      · exact h.spelled d hd e he heq

theorem Sound.addPair (h : Sound a) (hc : Recordable a c) {table hint : Text}
    (hnew : hint ≠ [] → New a c) :
    Sound { a with pairs := ((table, hint), c) :: a.pairs } := by
  have hmem : ∀ d ∈ recorded { a with pairs := ((table, hint), c) :: a.pairs },
      d = c ∨ d ∈ a.recorded := fun d hd => by
    simpa [recorded] using hd
  obtain ⟨hused, hspelled⟩ := hc.extend h hmem rfl
  have hother : ∀ x ∈ a.pairs, hint ≠ [] → x.2.toLower ≠ c.toLower := fun x hx hhint =>
    (hnew hhint).apart x.2 (mem_recorded.mpr (.inl ⟨x.1, hx⟩))
  refine ⟨hused, hspelled, h.rows, fun x hx y hy hxh hyh heq => ?_⟩
  rcases List.mem_cons.mp hx with rfl | hx
  · rcases List.mem_cons.mp hy with rfl | hy
    · rfl
    · exact absurd heq.symm (hother y hy hxh)
  · rcases List.mem_cons.mp hy with rfl | hy
    · exact absurd heq (hother x hx hyh)
    · exact h.pairs x hx y hy hxh hyh heq

theorem Sound.addFirst (h : Sound a) (hc : Recordable a c) (table : Text) :
    Sound { a with firsts := (table, c) :: a.firsts } := by
  have hmem : ∀ d ∈ recorded { a with firsts := (table, c) :: a.firsts },
      d = c ∨ d ∈ a.recorded := fun d hd => by
    simp only [mem_recorded, List.mem_cons, Prod.mk.injEq] at hd ⊢
    grind
  obtain ⟨hused, hspelled⟩ := hc.extend h hmem rfl
  exact ⟨hused, hspelled, h.rows, h.pairs⟩

theorem Sound.addRow (h : Sound a) (hc : Recordable a c) {i : Nat}
    (hother : ∀ x ∈ a.rows, x.2.toLower ≠ c.toLower) :
    Sound { a with rows := (i, c) :: a.rows } := by
  have hmem : ∀ d ∈ recorded { a with rows := (i, c) :: a.rows },
      d = c ∨ d ∈ a.recorded := fun d hd => by
    simp only [mem_recorded, List.mem_cons, Prod.mk.injEq] at hd ⊢
    grind
  obtain ⟨hused, hspelled⟩ := hc.extend h hmem rfl
  refine ⟨hused, hspelled, fun x hx y hy heq => ?_, h.pairs⟩
  rcases List.mem_cons.mp hx with rfl | hx
  · rcases List.mem_cons.mp hy with rfl | hy
    · rfl
    · exact absurd heq.symm (hother y hy)
  · rcases List.mem_cons.mp hy with rfl | hy
    · exact absurd heq (hother x hx)
    · exact h.rows x hx y hy heq

/-! ### Aliases of tables and rows -/

/-- What a table that is asked for an alias keeps: the answers that it gave before. -/
structure Keeps (a b : AliasTable) : Prop where
  pairs : ∀ k c, a.pairs.lookup k = some c → b.pairs.lookup k = some c
  rows : ∀ i c, a.rows.lookup i = some c → b.rows.lookup i = some c

theorem Keeps.refl (a : AliasTable) : Keeps a a := ⟨fun _ _ => id, fun _ _ => id⟩

theorem Keeps.trans {b d : AliasTable} (h : Keeps a b) (h' : Keeps b d) : Keeps a d :=
  ⟨fun k c hk => h'.pairs k c (h.pairs k c hk), fun i c hi => h'.rows i c (h.rows i c hi)⟩

theorem lookup_cons_of_none {κ β : Type} [BEq κ] [LawfulBEq κ] {k k' : κ} {c : β} (d : β)
    {l : List (κ × β)} (hk : l.lookup k = none) (h : l.lookup k' = some c) :
    ((k, d) :: l).lookup k' = some c := by
  rw [List.lookup_cons]
  split
  · rename_i heq
    rw [eq_of_beq heq, hk] at h
    cases h
  · exact h

/-- What `aliasFor` does: it finds the pair, or it records it with the first alias of the table or
with a new one. The first alias of a table is taken only where there is no hint. -/
theorem aliasFor_cases (a : AliasTable) (table hint : Text) :
    (∃ c, a.pairs.lookup (table, hint) = some c ∧ a.aliasFor table hint = (c, a)) ∨
    a.pairs.lookup (table, hint) = none ∧ ∃ c b firsts,
      (hint = [] ∧ (table, c) ∈ a.firsts ∧ b = a ∨
        ∃ name, c = (a.unique name).1 ∧ b = (a.unique name).2) ∧
      (firsts = a.firsts ∨ firsts = (table, c) :: a.firsts) ∧
      a.aliasFor table hint =
        (c, { b with pairs := ((table, hint), c) :: b.pairs, firsts := firsts }) := by
  unfold aliasFor
  cases hp : a.pairs.lookup (table, hint) with
  | some c => exact .inl ⟨c, rfl, rfl⟩
  | none =>
    refine .inr ⟨rfl, ?_⟩
    have firsts : ∀ c, (if (a.firsts.lookup table).isSome then a.firsts
        else (table, c) :: a.firsts) = a.firsts ∨
        (if (a.firsts.lookup table).isSome then a.firsts
        else (table, c) :: a.firsts) = (table, c) :: a.firsts := fun c => by
      split
      · exact .inl rfl
      · exact .inr rfl
    cases hint with
    | nil =>
      cases hf : a.firsts.lookup table with
      | some c => exact ⟨c, a, a.firsts, .inl ⟨rfl, mem_of_lookup hf, rfl⟩, .inl rfl, rfl⟩
      | none =>
        exact ⟨_, _, _, .inr ⟨table, rfl, rfl⟩, .inr rfl, rfl⟩
    | cons x hint =>
      exact ⟨_, _, _, .inr ⟨x :: hint, rfl, rfl⟩, firsts _, rfl⟩

theorem Sound.aliasFor (h : Sound a) (table hint : Text) :
    Sound (a.aliasFor table hint).2 ∧
      Recordable (a.aliasFor table hint).2 (a.aliasFor table hint).1 := by
  rcases a.aliasFor_cases table hint with ⟨c, hc, heq⟩ | ⟨-, c, b, firsts, hb, hfirsts, heq⟩
  · rw [heq]
    exact ⟨h, h.recordable (mem_recorded.mpr (.inl ⟨_, mem_of_lookup hc⟩))⟩
  · have hsound : Sound b ∧ Recordable b c ∧ (hint ≠ [] → New b c) ∧ b.firsts = a.firsts := by
      rcases hb with ⟨rfl, hc, rfl⟩ | ⟨name, rfl, rfl⟩
      · exact ⟨h, h.recordable (mem_recorded.mpr (.inr (.inl ⟨_, hc⟩))), fun hne => absurd rfl hne,
          rfl⟩
      · obtain ⟨hb, hnew⟩ := h.unique name
        exact ⟨hb, hnew.recordable, fun _ => hnew, rfl⟩
    obtain ⟨hb, hc, hnew, hbf⟩ := hsound
    have hpair : Sound { b with pairs := ((table, hint), c) :: b.pairs } := hb.addPair hc hnew
    have hmem : c ∈ recorded { b with pairs := ((table, hint), c) :: b.pairs } :=
      mem_recorded.mpr (.inl ⟨_, List.mem_cons_self⟩)
    have hrecordable := hpair.recordable hmem
    rw [heq]
    rcases hfirsts with rfl | rfl
    · rw [← hbf]
      exact ⟨hpair, hrecordable⟩
    · rw [← hbf]
      have hfirst := hpair.addFirst hrecordable table
      exact ⟨hfirst, hfirst.recordable (mem_recorded.mpr (.inl ⟨_, List.mem_cons_self⟩))⟩

theorem lookup_aliasFor (a : AliasTable) (table hint : Text) :
    (a.aliasFor table hint).2.pairs.lookup (table, hint) = some (a.aliasFor table hint).1 := by
  rcases a.aliasFor_cases table hint with ⟨c, hc, heq⟩ | ⟨-, c, b, firsts, -, -, heq⟩
  · rw [heq]
    exact hc
  · rw [heq]
    exact List.lookup_cons_self

theorem keeps_aliasFor (a : AliasTable) (table hint : Text) :
    Keeps a (a.aliasFor table hint).2 := by
  rcases a.aliasFor_cases table hint with ⟨c, hc, heq⟩ | ⟨hno, c, b, firsts, hb, -, heq⟩
  · rw [heq]
    exact .refl a
  · have hsame : b.pairs = a.pairs ∧ b.rows = a.rows := by
      rcases hb with ⟨-, -, rfl⟩ | ⟨name, -, rfl⟩
      · exact ⟨rfl, rfl⟩
      · exact ⟨rfl, rfl⟩
    rw [heq]
    refine ⟨fun k d hk => ?_, fun i d hi => ?_⟩
    · show List.lookup k (((table, hint), c) :: b.pairs) = some d
      rw [hsame.1]
      exact lookup_cons_of_none c hno hk
    · rwa [show ({ b with pairs := ((table, hint), c) :: b.pairs, firsts := firsts } :
        AliasTable).rows = a.rows from hsame.2]

/-- What `bind` does: it finds the row, or it records it with the alias of its name and table, or
with a new alias if another row has that one. -/
theorem bind_cases (a : AliasTable) (p : Param) (table : Text) :
    (∃ c, a.rows.lookup p.id = some c ∧ a.bind p table = (c, a)) ∨
    a.rows.lookup p.id = none ∧ ∃ c b, b.rows = a.rows ∧
      (c = (a.aliasFor table p.name).1 ∧ b = (a.aliasFor table p.name).2 ∧
          (∀ x ∈ b.rows, x.2 ≠ c) ∨
        c = ((a.aliasFor table p.name).2.unique p.name).1 ∧
          b = ((a.aliasFor table p.name).2.unique p.name).2) ∧
      a.bind p table = (c, { b with rows := (p.id, c) :: b.rows }) := by
  have hrows : (a.aliasFor table p.name).2.rows = a.rows := by
    rcases a.aliasFor_cases table p.name with ⟨c, -, heq⟩ | ⟨-, c, b, firsts, hb, -, heq⟩
    · rw [heq]
    · rw [heq]
      rcases hb with ⟨-, -, rfl⟩ | ⟨name, -, rfl⟩
      · rfl
      · rfl
  unfold AliasTable.bind
  cases hr : a.rows.lookup p.id with
  | some c => exact .inl ⟨c, rfl, rfl⟩
  | none =>
    refine .inr ⟨rfl, ?_⟩
    dsimp only
    split
    · exact ⟨_, ((a.aliasFor table p.name).2.unique p.name).2, hrows, .inr ⟨rfl, rfl⟩, rfl⟩
    · rename_i hany
      refine ⟨_, _, hrows, .inl ⟨rfl, rfl, fun x hx heq => hany ?_⟩, rfl⟩
      exact List.any_eq_true.mpr ⟨x, hx, decide_eq_true heq⟩

theorem Sound.bind (h : Sound a) (p : Param) (table : Text) : Sound (a.bind p table).2 := by
  obtain ⟨hsound, hrecordable⟩ := h.aliasFor table p.name
  rcases a.bind_cases p table with ⟨c, -, heq⟩ | ⟨-, c, b, -, hb, heq⟩
  · rw [heq]
    exact h
  · rw [heq]
    rcases hb with ⟨rfl, rfl, hother⟩ | ⟨rfl, rfl⟩
    · refine hsound.addRow hrecordable fun x hx hlower => hother x hx ?_
      -- a row with this alias in another case would have it in this case
      exact hrecordable.spelled x.2 (mem_recorded.mpr (.inr (.inr ⟨x.1, hx⟩))) hlower
    · obtain ⟨hunique, hnew⟩ := hsound.unique p.name
      exact hunique.addRow hnew.recordable fun x hx =>
        hnew.apart x.2 (mem_recorded.mpr (.inr (.inr ⟨x.1, hx⟩)))

theorem lookup_bind (a : AliasTable) (p : Param) (table : Text) :
    (a.bind p table).2.rows.lookup p.id = some (a.bind p table).1 := by
  rcases a.bind_cases p table with ⟨c, hc, heq⟩ | ⟨-, c, b, -, -, heq⟩
  · rw [heq]
    exact hc
  · rw [heq]
    exact List.lookup_cons_self

theorem keeps_bind (a : AliasTable) (p : Param) (table : Text) : Keeps a (a.bind p table).2 := by
  have hkeeps := a.keeps_aliasFor table p.name
  rcases a.bind_cases p table with ⟨c, -, heq⟩ | ⟨hno, c, b, hrows, hb, heq⟩
  · rw [heq]
    exact .refl a
  · have hpairs : b.pairs = (a.aliasFor table p.name).2.pairs := by
      rcases hb with ⟨-, rfl, -⟩ | ⟨-, rfl⟩
      · rfl
      · rfl
    rw [heq]
    refine ⟨fun k d hk => ?_, fun i d hi => ?_⟩
    · rw [show ({ b with rows := (p.id, c) :: b.rows } : AliasTable).pairs = _ from hpairs]
      exact hkeeps.pairs k d hk
    · show List.lookup i ((p.id, c) :: b.rows) = some d
      rw [hrows]
      exact lookup_cons_of_none c hno hi

end AliasTable

/-! ### Answers -/

/-- What a draft can be asked for: the alias of a table for a hint, or the alias of a row of a
table. -/
inductive AliasCall where
  | table (table hint : Text)
  | row (p : Param) (table : Text)

/-- The answer that is recorded for a call. -/
def AliasTable.Records (a : AliasTable) : AliasCall × Text → Prop
  | (.table table hint, c) => a.pairs.lookup (table, hint) = some c
  | (.row p _, c) => a.rows.lookup p.id = some c

theorem AliasTable.Keeps.records {a b : AliasTable} (h : Keeps a b) {x : AliasCall × Text}
    (hx : a.Records x) : b.Records x := by
  obtain ⟨call, c⟩ := x
  cases call with
  | table table hint => exact h.pairs _ c hx
  | row p _ => exact h.rows _ c hx

/-- Answers that are stable and distinct. -/
structure ConsistentAliases (answers : List (AliasCall × Text)) : Prop where
  /-- A table and a hint have one alias. -/
  table_stable : ∀ t h c d, (.table t h, c) ∈ answers → (.table t h, d) ∈ answers → c = d
  /-- A row has one alias, whatever table is named with it. -/
  row_stable : ∀ p q t u c d, (.row p t, c) ∈ answers → (.row q u, d) ∈ answers →
    p.id = q.id → c = d
  /-- Different rows have different aliases, ignoring case. -/
  row_distinct : ∀ p q t u c d, (.row p t, c) ∈ answers → (.row q u, d) ∈ answers →
    p.id ≠ q.id → c.toLower ≠ d.toLower
  /-- Different tables and hints have different aliases, ignoring case. -/
  table_distinct : ∀ t h u k c d, (.table t h, c) ∈ answers → (.table u k, d) ∈ answers →
    h ≠ [] → k ≠ [] → (t, h) ≠ (u, k) → c.toLower ≠ d.toLower

namespace Draft

/-- The alias that a draft is asked for, and the draft afterwards. -/
def ask (d : Draft) : AliasCall → Text × Draft
  | .table table hint => d.aliasFor table hint
  | .row p table => d.bindParam p table

/-- The answers of a draft that is asked for aliases one after the other. -/
def answers (d : Draft) : List AliasCall → List (AliasCall × Text)
  | [] => []
  | x :: xs => (x, (d.ask x).1) :: (d.ask x).2.answers xs

/-- One call: the aliases stay sound, earlier answers stay recorded, and so is the new one. -/
theorem ask_step (d : Draft) (x : AliasCall) (h : d.slate.aliases.Sound) :
    (d.ask x).2.slate.aliases.Sound ∧ d.slate.aliases.Keeps (d.ask x).2.slate.aliases ∧
      (d.ask x).2.slate.aliases.Records (x, (d.ask x).1) := by
  cases x with
  | table table hint =>
    exact ⟨(h.aliasFor table hint).1, AliasTable.keeps_aliasFor _ table hint,
      AliasTable.lookup_aliasFor _ table hint⟩
  | row p table =>
    exact ⟨h.bind p table, AliasTable.keeps_bind _ p table, AliasTable.lookup_bind _ p table⟩

/-- All calls: in the end there are sound aliases that record every answer. -/
theorem exists_records_answers (d : Draft) (xs : List AliasCall) (h : d.slate.aliases.Sound) :
    ∃ a : AliasTable, a.Sound ∧ d.slate.aliases.Keeps a ∧ ∀ y ∈ d.answers xs, a.Records y := by
  induction xs generalizing d with
  | nil => exact ⟨_, h, .refl _, nofun⟩
  | cons x xs ih =>
    obtain ⟨hsound, hkeeps, hrecords⟩ := d.ask_step x h
    obtain ⟨a, ha, hkeeps', hall⟩ := ih (d.ask x).2 hsound
    refine ⟨a, ha, hkeeps.trans hkeeps', fun y hy => ?_⟩
    rcases List.mem_cons.mp hy with rfl | hy
    · exact hkeeps'.records hrecords
    · exact hall y hy

end Draft

/-- **Aliases are stable and distinct.** A new draft that is asked for aliases, whichever and in
whatever order, gives the same table and hint the same alias and the same row the same alias. It
gives different rows aliases that differ in more than case, and so for different tables and hints
that are not empty. -/
theorem consistentAliases_answers (st : Settings) (calls : List AliasCall) :
    ConsistentAliases ((Draft.new st).answers calls) := by
  obtain ⟨a, ha, -, hall⟩ :=
    (Draft.new st).exists_records_answers calls AliasTable.sound_empty
  refine ⟨fun t h c d hc hd => ?_, fun p q t u c d hc hd heq => ?_,
    fun p q t u c d hc hd hne heq => ?_, fun t h u k c d hc hd hh hk hne heq => ?_⟩
  · exact Option.some.inj ((hall _ hc).symm.trans (hall _ hd))
  · have hp : a.rows.lookup p.id = some c := hall _ hc
    have hq : a.rows.lookup q.id = some d := hall _ hd
    rw [heq, hq] at hp
    exact (Option.some.inj hp).symm
  · exact hne (ha.rows _ (AliasTable.mem_of_lookup (hall _ hc)) _
      (AliasTable.mem_of_lookup (hall _ hd)) heq)
  · exact hne (ha.pairs _ (AliasTable.mem_of_lookup (hall _ hc)) _
      (AliasTable.mem_of_lookup (hall _ hd)) hh hk heq)

/-- Two rows of one name and table, and a hint that is taken by then. -/
example : ((Draft.new (.standard .sqlServer .empty)).answers
      [.row ⟨0, "c", none⟩ "customers", .row ⟨1, "c", none⟩ "customers", .table "orders" "C2",
        .row ⟨2, [], none⟩ "customers", .row ⟨1, "c", none⟩ "orders"]).map (·.2) =
    (["c", "c2", "C22", "", "c2"] : List Text) := by
  decide

end QueryTree
