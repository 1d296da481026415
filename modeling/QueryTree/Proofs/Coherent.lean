import QueryTree.Proofs.States

/-!
# What holds in every state

The commands that are not about the statement leave its fields alone, and those that look at it find
it where the kind of statement says. So every line keeps a state in step and does to the session
that the state stands for what it does in that session, whatever files and databases answer. A run
of lines in a state is then a run in a session, whichever of them were refused, and the invariant of
sessions speaks about the fields of every state that commands lead to.

## Main definitions

* `Plan.Follows`: what a command can leave of a state, and of the session it stands for
* `State.Run`: lines that are run one after the other
* `State.Coherent`: the fields of a state belong together

## Main results

* `State.InStep.run`, `State.InStep.runLine`: every line keeps a state in step and follows the
  session
* `State.Run.view`: a run in a state is a run in a session
* `State.coherent_of_lines`: every state that commands lead to is coherent
-/

namespace QueryTree.Shell

/-! ### Plans

A plan is a computation that asks for files and answers of a database. What it ends with can be
looked at through a function, in whatever way the questions are answered. -/

namespace Plan

variable {α β γ : Type} {p : Plan α} {f g : α → β}

theorem map_map (p : Plan α) (f : α → β) (g : β → γ) : (p.map f).map g = p.map (g ∘ f) := by
  cases p <;> rfl

theorem map_id (p : Plan α) : p.map id = p := by
  cases p <;> rfl

/-- Only what a plan can lead to matters. -/
theorem map_congr (h : ∀ a, p.CanEnd a → f a = g a) : p.map f = p.map g := by
  cases p with
  | done a => exact congrArg Plan.done (h a (.done a))
  | read path next =>
    exact congrArg (Plan.read path) (funext fun answer => h _ (.read path next answer))
  | write path content next =>
    exact congrArg (Plan.write path content)
      (funext fun answer => h _ (.write path content next answer))
  | query sql args next =>
    exact congrArg (Plan.query sql args) (funext fun answer => h _ (.query sql args next answer))
  | execute sql args next =>
    exact congrArg (Plan.execute sql args)
      (funext fun answer => h _ (.execute sql args next answer))
  | connect d dsn next =>
    exact congrArg (Plan.connect d dsn) (funext fun answer => h _ (.connect d dsn next answer))

/-- What a mapped plan ends with is the image of an end of the plan. -/
theorem CanEnd.of_map {b : β} (h : (p.map f).CanEnd b) : ∃ a, p.CanEnd a ∧ b = f a := by
  cases p with
  | done a =>
    cases h
    exact ⟨a, .done a, rfl⟩
  | read path next =>
    cases h with
    | read _ _ answer => exact ⟨_, .read path next answer, rfl⟩
  | write path content next =>
    cases h with
    | write _ _ _ answer => exact ⟨_, .write path content next answer, rfl⟩
  | query sql args next =>
    cases h with
    | query _ _ _ answer => exact ⟨_, .query sql args next answer, rfl⟩
  | execute sql args next =>
    cases h with
    | execute _ _ _ answer => exact ⟨_, .execute sql args next answer, rfl⟩
  | connect d dsn next =>
    cases h with
    | connect _ _ _ answer => exact ⟨_, .connect d dsn next answer, rfl⟩

theorem CanEnd.map {a : α} (h : p.CanEnd a) (f : α → β) : (p.map f).CanEnd (f a) := by
  cases h with
  | done a => exact .done (f a)
  | read path next answer => exact .read path (f ∘ next) answer
  | write path content next answer => exact .write path content (f ∘ next) answer
  | query sql args next answer => exact .query sql args (f ∘ next) answer
  | execute sql args next answer => exact .execute sql args (f ∘ next) answer
  | connect d dsn next answer => exact .connect d dsn (f ∘ next) answer

end Plan

/-! ### Commands that are not about the statement

They change settings, entities or the connection. Their effect on a state is that on the session,
written back into the fields. -/

namespace Session

variable {s s' : Session}

/-- The induction is on the changes that settings, entities and connections are made of. -/
theorem Settles.same_statement (h : s.Settles s') :
    s'.aliases = s.aliases ∧ s'.pending = s.pending := by
  induction h with
  | same _ _ h => exact ⟨h.aliases, h.pending⟩
  | defines => exact ⟨rfl, rfl⟩
  | trans _ _ ih ih' => exact ⟨ih'.1.trans ih.1, ih'.2.trans ih.2⟩

/-- Commands that are not about the statement leave it alone, with the aliases of its rows. -/
theorem same_statement_of_run {c : Command} {o : Outcome} (hc : c.verb.buildsStatement = false)
    (h : (s.run c).CanEnd o) : o.session.aliases = s.aliases ∧ o.session.pending = s.pending := by
  by_cases hsoft : c.verb = .softDelete
  · obtain ⟨verb, args⟩ := c
    cases hsoft
    cases h
    exact after_ofAttempt (P := fun s' => s'.aliases = s.aliases ∧ s'.pending = s.pending)
      ⟨rfl, rfl⟩ fun _ _ h => ⟨(sameScene_softDelete h).aliases, (sameScene_softDelete h).pending⟩
  · by_cases hpolicy : c.verb = .policy
    · obtain ⟨verb, args⟩ := c
      cases hpolicy
      cases h
      exact after_ofExcept (P := fun s' => s'.aliases = s.aliases ∧ s'.pending = s.pending)
        ⟨rfl, rfl⟩ fun _ _ h => ⟨(sameScene_policy h).aliases, (sameScene_policy h).pending⟩
    · exact (settles_run hc hsoft hpolicy h).same_statement

end Session

/-! ### Faults

A selection whose rows are bound, and an insertion whose entity is found, are shown and built
without a fault. In the session this follows from its invariant. -/

/-- A computation that returns or refuses does not fault. -/
theorem Outcome.stop_ofExcept (s : Session) (x : Except ShellError (Session × Text)) :
    (ofExcept s x).stop ≠ some .fault := by
  rcases x with e | ⟨s', t⟩
  · nofun
  · nofun

namespace Session

variable {s : Session} {args : Text} {o : Outcome}

/-- A statement is shown as a graph without a fault. -/
theorem stop_dot (h : (s.dot args).CanEnd o) : o.stop ≠ some .fault := by
  unfold dot at h
  split at h
  · cases h
    nofun
  · split at h
    · cases h
      nofun
    · cases h
      dsimp only
      split
      · nofun
      · nofun

/-- Statements are built without a fault. Further values for an insertion are for the entity that it
is about, which is found. -/
theorem Coherent.stop_of_building (hs : s.Coherent) {c : Command}
    (hc : c.verb.buildsStatement = true) (h : (s.run c).CanEnd o) : o.stop ≠ some .fault := by
  obtain ⟨verb, args⟩ := c
  cases verb with
  | help | entities | plugins | sql | inline | all | dot | entity | load | dialect | quoted |
      softDelete | policy | connect | disconnect | execute => cases hc
  | reset =>
    cases h
    rintro ⟨⟩
  | select | distinct | filter | group | having | limit | offset | join =>
    cases h
    exact Outcome.stop_ofExcept s _
  | source =>
    cases h
    unfold from_
    split
    · rintro ⟨⟩
    · split
      · rintro ⟨⟩
      · rintro ⟨⟩
  | order =>
    cases h
    unfold order
    split
    · rintro ⟨⟩
    · dsimp only
      split
      · rintro ⟨⟩
      · rintro ⟨⟩
  | insert =>
    cases h
    unfold insert
    split
    · split
      · rintro ⟨⟩
      · dsimp only
        split
        · rintro ⟨⟩
        · rintro ⟨⟩
    · rintro ⟨⟩
  | values =>
    cases h
    dsimp only
    have hfound := hs.values args
    rcases hvalues : s.values args with (e | _) | ⟨s', t⟩
    · rintro ⟨⟩
    · exact absurd hvalues hfound
    · rintro ⟨⟩
  | update =>
    cases h
    unfold update
    split
    · split
      · rintro ⟨⟩
      · split
        · rintro ⟨⟩
        · exact Outcome.stop_ofExcept _ _
    · rintro ⟨⟩
  | delete =>
    cases h
    unfold delete
    split
    · rintro ⟨⟩
    · split
      · rintro ⟨⟩
      · exact Outcome.stop_ofExcept _ _

end Session

/-! ### Lines

One case per command: those that build a statement are followed field by field, and the others leave
the statement alone. -/

/-- What a command can leave of a state is in step, and stands for what it can leave of the
session. -/
structure Plan.Follows (p : Plan Reaction) (q : Plan Outcome) : Prop where
  inStep : ∀ r, p.CanEnd r → r.state.InStep
  view : p.map Reaction.view = q

theorem Reaction.Follows.done {r : Reaction} {o : Outcome} (h : r.Follows o) :
    Plan.Follows (.done r) (.done o) where
  inStep _ hr := by
    cases hr
    exact h.inStep
  view := congrArg Plan.done h.view

namespace State

variable {s s' : State} {c : Command}

/-- The fields that other commands do not change stay as they were. -/
theorem follows_settling (h : s.InStep) (hc : c.verb.buildsStatement = false) :
    (s.settling c).Follows (s.view.run c) where
  inStep r hr := by
    obtain ⟨o, -, rfl⟩ := hr.of_map
    exact ⟨h.keys, h.nodup, h.managed, h.alone⟩
  view := by
    -- What is written back is what the command left, except for the aliases and the statement,
    -- which it left alone.
    rw [settling, Plan.map_map]
    refine (Plan.map_congr fun o ho => ?_).trans (Plan.map_id _)
    obtain ⟨haliases, hpending⟩ := Session.same_statement_of_run hc ho
    obtain ⟨⟨⟩, output, stop⟩ := o
    cases haliases
    cases hpending
    rfl

/-- The statement that commands look at is there. -/
theorem InStep.current_eq (h : s.InStep) : s.current = .ok s.pending := by
  unfold current
  by_cases hm : s.mode = .select
  · simp [hm]
  · obtain ⟨p, hp⟩ := Option.isSome_iff_exists.mp (h.managed hm)
    simp [hp]

/-- A command that looks at the statement finds it. -/
theorem follows_looking (h : s.InStep) (hc : c.verb.buildsStatement = false) :
    (s.looking c).Follows (s.view.run c) := by
  rw [looking, h.current_eq]
  exact follows_settling h hc

/-- **Every command keeps a state in step**, and does to the session that the state stands for what
it does in that session. -/
theorem InStep.run (h : s.InStep) (c : Command) : (s.run c).Follows (s.view.run c) := by
  obtain ⟨verb, args⟩ := c
  cases verb with
  | source => exact (follows_from h args).done
  | select => exact (follows_select h args).done
  | distinct => exact (follows_distinct h).done
  | filter => exact (follows_where h args).done
  | group => exact (follows_group h args).done
  | having => exact (follows_having h args).done
  | order => exact (follows_order h args).done
  | limit => exact (follows_limit h args).done
  | offset => exact (follows_offset h args).done
  | join kind => exact (follows_join h kind args).done
  | insert => exact (follows_insert h args).done
  | values => exact (follows_values h args).done
  | update => exact (follows_update h args).done
  | delete => exact (follows_delete h args).done
  | reset => exact Reaction.Follows.done ⟨inStep_cleared s, rfl⟩
  | sql | inline | all => exact follows_looking h rfl
  | dot =>
    unfold State.run
    dsimp only
    split
    · exact follows_settling h rfl
    · exact follows_looking h rfl
  | execute =>
    unfold State.run
    dsimp only
    split
    · exact follows_settling h rfl
    · exact follows_looking h rfl
  | help | entity | load | entities | dialect | quoted | softDelete | policy | plugins | connect |
      disconnect => exact follows_settling h rfl

/-- A line that cannot be read, or that is empty, changes nothing. -/
theorem InStep.runLine (h : s.InStep) (line : Text) :
    (s.runLine line).Follows (s.view.runLine line) := by
  unfold State.runLine Session.runLine
  rcases Command.read line with e | _ | c
  · exact Reaction.Follows.done ⟨h, rfl⟩
  · exact Reaction.Follows.done ⟨h, rfl⟩
  · exact h.run c

/-! ### Runs

The step lemma on lines gives a run of the session for every run of the state, by induction on the
lines. -/

/-- Lines that are run one after the other, whether they succeed or not. -/
inductive Run : State → List Text → State → Prop
  | nil (s : State) : Run s [] s
  | cons {s s' : State} {line : Text} {lines : List Text} {r : Reaction}
    (first : (s.runLine line).CanEnd r) (rest : Run r.state lines s') : Run s (line :: lines) s'

/-- **A run in a state is a run in the session that it stands for.** -/
theorem Run.view {lines : List Text} (h : Run s lines s') (hs : s.InStep) :
    s'.InStep ∧ ∃ xs, Shell.Run s.view xs s'.view ∧ xs.map (·.line) = lines := by
  induction h with
  | nil s => exact ⟨hs, [], .nil s.view, rfl⟩
  | @cons s s' line lines r first rest ih =>
    obtain ⟨hkept, hview⟩ := hs.runLine line
    obtain ⟨hend, xs, hrun, hlines⟩ := ih (hkept r first)
    have carried : (s.view.runLine line).CanEnd r.view := hview ▸ first.map Reaction.view
    exact ⟨hend, ⟨s.view, line, r.view, carried⟩ :: xs, .cons ⟨s.view, line, r.view, carried⟩ hrun,
      congrArg (line :: ·) hlines⟩

/-! ### States that commands lead to

The invariant of sessions is about the merged form of the fields. Together with the fact that the
fields are in step it says what the fields themselves hold. -/

/-- The fields of a state belong together. -/
structure Coherent (s : State) : Prop where
  /-- The statement of a state that inserts, updates or deletes is there. -/
  managed : (s.mode = .insert → s.insertQuery.isSome) ∧
    (s.mode = .update → s.updateQuery.isSome) ∧ (s.mode = .delete → s.deleteQuery.isSome)
  /-- The same aliases have rows and entities. -/
  keys : s.aliases.map (·.1) = s.bound.map (·.1) ∧ (s.aliases.map (·.1)).Nodup
  /-- The row of an alias has the type of its entity, which is defined. -/
  aliases : ∀ name p, s.aliases.lookup name = some p → p.name = name ∧
    ∃ e, s.bound.lookup name = some e ∧ p.type = some e.type ∧ e ∈ s.entities
  /-- The rows of a selection are those that aliases stand for, and no row occurs twice. -/
  selection : ∀ q, s.mode = .select → s.query = some q →
    q.source :: q.joins.map (·.row) = (s.aliases.map fun a => some a.2) ∧
      (s.aliases.map (·.2.id)).Nodup
  /-- Entities have different types. -/
  types : (s.entities.map (·.type)).Nodup
  /-- The registry maps each entity to its own table. -/
  tables : ∀ e ∈ s.entities, s.registry.table (some e.type) = .ok e.table
  /-- The row that an insertion is about has the type of exactly one entity. -/
  target : ∀ q, s.mode = .insert → s.insertQuery = some q → ∃ p, q.target = some p ∧
    ∃! e, e ∈ s.entities ∧ p.type = some e.type
  /-- No row of the statement is missing. -/
  given : ∀ q, s.pending = some q → none ∉ q.rows ++ q.inserted
  /-- The statement that is compiled is there, unless it is a selection that has not begun. -/
  current : s.current ≠ .fault
  /-- So is the one that is shown as a graph. -/
  dot : ∀ path r, (s.run ⟨.dot, path⟩).CanEnd r → r.stop ≠ some .fault
  /-- No command that builds a statement misses a statement or an entity. -/
  building : ∀ c r, c.verb.buildsStatement = true → (s.run c).CanEnd r → r.stop ≠ some .fault

/-- A statement of the state is the statement of the session. -/
theorem pending_of_mode {m : Mode} {p : Option Pending} (hm : s.mode = m)
    (hp : s.statement? m = p) : s.view.pending = p := by
  show s.statement? s.mode = p
  rw [hm, hp]

/-- What holds in the session that a state in step stands for holds of its fields. -/
theorem InStep.coherent (h : s.InStep) (hs : s.view.Coherent) : s.Coherent where
  managed := by
    have there : ∀ m, m ≠ .select → s.mode = m → (s.statement? m).isSome := by
      rintro m hm rfl
      exact h.managed hm
    refine ⟨fun hm => ?_, fun hm => ?_, fun hm => ?_⟩
    · simpa [statement?] using there .insert (by decide) hm
    · simpa [statement?] using there .update (by decide) hm
    · simpa [statement?] using there .delete (by decide) hm
  keys := ⟨h.keys, h.nodup⟩
  aliases name p hp := by
    have hbound := h.isSome_lookup name
    rw [hp] at hbound
    obtain ⟨e, he⟩ := Option.isSome_iff_exists.mp hbound.symm
    have hresolve : s.view.resolve name = .ok (p, e) := by
      have hnamed : s.view.aliases.lookup name = some (p, e) := by
        show s.namedRows.lookup name = _
        rw [lookup_namedRows, hp, he]
        rfl
      rw [Session.resolve, hnamed]
    obtain ⟨hname, htype, hdefined⟩ := hs.aliases.2 name p e hresolve
    exact ⟨hname, e, he, htype, hdefined⟩
  selection q hm hq := by
    obtain ⟨hrows, hids⟩ := hs.selection q (pending_of_mode hm (by rw [statement?, hq]; rfl))
    rw [hrows, ← h.map_namedRows, List.map_map, List.map_map]
    exact ⟨rfl, hids⟩
  types := hs.types
  tables := hs.tables
  target q hm hq := hs.target q (pending_of_mode hm (by rw [statement?, hq]; rfl))
  given := hs.given
  current := by
    rw [h.current_eq]
    rintro ⟨⟩
  dot path r hr := by
    obtain ⟨-, hview⟩ := h.run ⟨.dot, path⟩
    have hend : (s.view.run ⟨.dot, path⟩).CanEnd r.view := hview ▸ hr.map Reaction.view
    exact Session.stop_dot (s := s.view) hend
  building c r hc hr := by
    obtain ⟨-, hview⟩ := h.run c
    have hend : (s.view.run c).CanEnd r.view := hview ▸ hr.map Reaction.view
    exact hs.stop_of_building hc hend

/-- **Every state that commands lead to is coherent**, whichever of them were refused. -/
theorem coherent_of_lines {d : Dialect} {lines : List Text} (h : Run (new d) lines s) :
    s.Coherent := by
  obtain ⟨hs, xs, hrun, -⟩ := h.view (inStep_new d)
  rw [view_new] at hrun
  exact hs.coherent (Session.coherent_of_run hrun)

end State

end QueryTree.Shell

namespace QueryTree

open Sample Shell

namespace Sample

theorem run_stateAfter (s : State) (w : World) (lines : List Text) :
    s.Run lines (stateAfter s w lines).1 := by
  induction lines generalizing s w with
  | nil => exact .nil s
  | cons line lines ih => exact .cons (w.canEnd_carryOut (s.runLine line)) (ih _ _)

/-- Entities with the same fields, a selection whose second and third joins are refused, and an
insertion with a row that is refused. -/
def refusedInPlaces : List Text :=
  ["entity book id:int:pk title:string", "entity Film id:int:pk title:string",
    "entity film id:int", "from book b", "join film f on f.id = b.id", "join film f on true",
    "join film g on g.nope = 1", "insert film title='Alien'", "values nope=1", "values id=2"]

/-- The state after them. -/
def inserting : State := (stateAfter (.new .oracle) ⟨[], [], []⟩ refusedInPlaces).1

end Sample

/-- A row is added to the right one of two entities with the same fields. -/
theorem coherent_of_lines_inserting :
    (State.new .oracle).Run refusedInPlaces inserting ∧ inserting.mode = .insert ∧
      inserting.insertQuery.map (·.values.length) = some 2 ∧
      inserting.entities.map (·.name) = ["book", "Film"] ∧ inserting.Coherent := by
  have facts : inserting.mode = .insert ∧
      inserting.insertQuery.map (·.values.length) = some 2 ∧
      inserting.entities.map (·.name) = ["book", "Film"] := by
    decide +kernel
  obtain ⟨hmode, hvalues, hnames⟩ := facts
  have run := run_stateAfter (.new .oracle) ⟨[], [], []⟩ refusedInPlaces
  exact ⟨run, hmode, hvalues, hnames, State.coherent_of_lines run⟩

end QueryTree
