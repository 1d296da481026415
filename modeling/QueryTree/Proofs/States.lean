import QueryTree.Proofs.Refused
import QueryTree.Proofs.Sessions
import QueryTree.Shell.State

/-!
# States behind sessions

The fields of a state are changed one after the other, by every command in its own way, and they can
contradict each other: a kind of statement without a statement of that kind, an alias with a row but
no entity, statements of several kinds at once. They are in step when none of this is so. Every
command keeps a state in step, whether it succeeds or is refused on the way, and what it leaves
behind is what the command leaves of the session that the state stands for.

The commands that build a statement are followed here, each through the changes that it makes one
after the other. They are the ones that a refusal can catch between two changes.

## Main definitions

* `State.InStep`: the fields do not contradict each other
* `Reaction.Follows`: what a command leaves of a state, and of the session it stands for

## Main results

* `State.result_read`, `State.bind_cases`: what the parts of commands do to a state in step
* `State.follows_from`, `State.follows_join`, `State.follows_order`: commands on selections
* `State.follows_values`, `State.follows_update`, `State.follows_delete`: commands on other
  statements
-/

namespace QueryTree.Shell

open Doing Stateful

variable {s s' : State} {e : Declared} {name args t : Text} {p : Param} {α : Type}

namespace State

/-! ### Fields in step

The session that a state stands for has one list of aliases and one statement. A state in step is
one that can be put together from these two without a loss. -/

/-- The fields do not contradict each other. -/
structure InStep (s : State) : Prop where
  /-- Every alias has a row and an entity. -/
  keys : s.aliases.map (·.1) = s.bound.map (·.1)
  nodup : (s.aliases.map (·.1)).Nodup
  /-- The statement of the mode is there, unless it is a selection that has not begun. -/
  managed : s.mode ≠ .select → s.pending.isSome
  /-- There is no other one. -/
  alone : ∀ m, (s.statement? m).isSome → m = s.mode

/-- Nothing is left to contradict: no alias, no statement, and a selection to come. -/
theorem inStep_cleared (s : State) : s.cleared.InStep where
  keys := rfl
  nodup := .nil
  managed h := absurd rfl h
  alone m h := by cases m <;> cases h

theorem inStep_new (d : Dialect) : (new d).InStep := inStep_cleared (new d)

theorem view_new (d : Dialect) : (new d).view = .new d := rfl

@[simp]
theorem view_cleared (s : State) : s.cleared.view = s.view.cleared := rfl

/-- A key is found if it is one of the keys. -/
theorem isSome_lookup_iff {α : Type} {l : List (Text × α)} :
    (l.lookup name).isSome ↔ name ∈ l.map (·.1) := by
  induction l with
  | nil => simp
  | cons b l ih =>
    rw [List.lookup_cons, List.map_cons, List.mem_cons]
    by_cases hb : name = b.1
    · simp [hb]
    · have hne : (name == b.1) = false := by simpa using hb
      rw [hne, ih]
      exact (or_iff_right hb).symm

theorem InStep.isSome_lookup (h : s.InStep) (name : Text) :
    (s.aliases.lookup name).isSome = (s.bound.lookup name).isSome := by
  rw [Bool.eq_iff_iff, isSome_lookup_iff, isSome_lookup_iff, h.keys]

/-- No alias has lost its entity. -/
theorem InStep.exists_bound (h : s.InStep) {a : Text × Param} (ha : a ∈ s.aliases) :
    ∃ e, s.bound.lookup a.1 = some e := by
  have hkey : a.1 ∈ s.bound.map (·.1) := h.keys ▸ List.mem_map_of_mem ha
  exact Option.isSome_iff_exists.mp (isSome_lookup_iff.mpr hkey)

/-- All aliases are among those that have an entity. -/
theorem InStep.map_namedRows (h : s.InStep) :
    s.namedRows.map (fun a => (a.1, a.2.1)) = s.aliases := by
  have hall : ∀ as : List (Text × Param), (∀ a ∈ as, ∃ e, s.bound.lookup a.1 = some e) →
      (as.filterMap fun a => (s.bound.lookup a.1).map fun e => (a.1, a.2, e)).map
        (fun a => (a.1, a.2.1)) = as := by
    intro as has
    induction as with
    | nil => rfl
    | cons a as ih =>
      obtain ⟨e, he⟩ := has a List.mem_cons_self
      rw [List.filterMap_cons_some (by simp only [he]; rfl), List.map_cons,
        ih fun b hb => has b (List.mem_cons_of_mem a hb)]
  exact hall s.aliases fun a ha => h.exists_bound ha

/-- An alias stands for its row and its entity in the session if both are there. -/
theorem lookup_namedRows (s : State) (name : Text) : s.namedRows.lookup name =
    (s.aliases.lookup name).bind fun p => (s.bound.lookup name).map fun e => (p, e) := by
  unfold namedRows
  induction s.aliases with
  | nil => rfl
  | cons a as ih =>
    obtain ⟨key, p⟩ := a
    by_cases hkey : name = key
    · subst hkey
      rw [List.lookup_cons_self]
      cases hb : s.bound.lookup name with
      | none =>
        rw [List.filterMap_cons_none (by simp only [hb]; rfl), ih, hb]
        simp
      | some e =>
        rw [List.filterMap_cons_some (by simp only [hb]; rfl), List.lookup_cons_self]
        rfl
    · have hne : (name == key) = false := by simpa using hkey
      rw [List.lookup_cons, hne]
      cases hb : s.bound.lookup key with
      | none => rw [List.filterMap_cons_none (by simp only [hb]; rfl), ih]
      | some e => rw [List.filterMap_cons_some (by simp only [hb]; rfl), List.lookup_cons, hne, ih]

/-! ### What the parts of commands do

The parts that commands share read the state, bind and unbind an alias, replace a statement or undo
what was done. Each is compared with what the session does at its place. -/

theorem result_ofExcept (x : Except ShellError α) (s : State) :
    result (ofExcept x) s = (x.mapError .error, s) := by
  cases x <;> rfl

/-- Reading never meets an alias that has lost its entity. -/
theorem result_read (h : s.InStep) (f : Session → Except ShellError α) :
    result (read f) s = ((f s.view).mapError .error, s) := by
  have hlost : ∀ name,
      ((s.aliases.lookup name).isSome && (s.bound.lookup name).isNone) = false := by
    intro name
    rw [h.isSome_lookup]
    cases s.bound.lookup name <;> rfl
  rw [Doing.read, result_bind, result_get]
  dsimp only
  cases f s.view with
  | ok a => rfl
  | error err =>
    simp only [hlost]
    cases unknownAlias? err <;> rfl

/-- A selection is looked for in the field of selections, and the session has one there. -/
theorem result_requireSelect (s : State) :
    result requireSelect s = (s.view.selection.mapError .error, s) := by
  obtain ⟨_, _, _, _, _, mode, query⟩ := s
  cases mode with
  | select => cases query <;> rfl
  | insert => rename_i q _ _ _ _ _ _ _ _; cases q <;> rfl
  | update => rename_i q _ _ _ _ _ _ _; cases q <;> rfl
  | delete => rename_i q _ _ _ _ _ _; cases q <;> rfl

/-- A selection that is there is the one of the state. -/
theorem mode_of_selection {q : Select} (h : s.view.selection = .ok q) :
    s.mode = .select ∧ s.query = some q := by
  have hp : s.pending = some (.select q) := Session.pending_of_selection h
  unfold pending at hp
  cases hm : s.mode with
  | select =>
    rw [hm] at hp
    obtain ⟨q', hq', hqq'⟩ := Option.map_eq_some_iff.mp hp
    cases hqq'
    exact ⟨rfl, hq'⟩
  | insert | update | delete =>
    rw [hm] at hp
    obtain ⟨q', -, hqq'⟩ := Option.map_eq_some_iff.mp hp
    cases hqq'

theorem view_setQuery (hm : s.mode = .select) (q : Select) :
    view { s with query := some q } = s.view.withSelection q := by
  simp only [view, pending, hm]
  rfl

/-- The statement of the mode may be replaced or put in place. -/
theorem InStep.withStatement (h : s.InStep) (haliases : s'.aliases = s.aliases)
    (hbound : s'.bound = s.bound) (honly : ∀ m, (s'.statement? m).isSome ↔ m = s'.mode) :
    s'.InStep where
  keys := by rw [haliases, hbound, h.keys]
  nodup := haliases ▸ h.nodup
  managed _ := (honly s'.mode).mpr rfl
  alone m := (honly m).mp

/-- The statement of the mode may be changed while the others stay as they are. -/
theorem InStep.changed (h : s.InStep) (haliases : s'.aliases = s.aliases)
    (hbound : s'.bound = s.bound) (hmode : s'.mode = s.mode)
    (hthere : (s'.statement? s.mode).isSome)
    (hothers : ∀ m ≠ s.mode, s'.statement? m = s.statement? m) : s'.InStep := by
  refine h.withStatement haliases hbound fun m => ?_
  rw [hmode]
  by_cases hm : m = s.mode
  · rw [hm]
    exact iff_of_true hthere rfl
  · rw [hothers m hm]
    exact iff_of_false (fun hsome => hm (h.alone m hsome)) hm

/-- A selection may be changed while it is the one to build. -/
theorem InStep.setQuery (h : s.InStep) (hm : s.mode = .select) (q : Select) :
    InStep { s with query := some q } := by
  refine h.changed rfl rfl rfl (by rw [hm]; rfl) fun m hne => ?_
  cases m with
  | select => exact absurd hm.symm hne
  | insert | update | delete => rfl

/-- The state in which an alias is bound to a new row. -/
def bindingTo (s : State) (e : Declared) (name : Text) : State :=
  State.withAlias { s with fresh := s.fresh + 1 } name ⟨s.fresh, name, some e.type⟩ e

/-- A free alias is free in both fields. -/
theorem notMem_bound (h : s.InStep) (hfree : s.aliases.lookup name = none) :
    name ∉ s.aliases.map (·.1) ∧ name ∉ s.bound.map (·.1) := by
  rw [← h.keys, ← isSome_lookup_iff, hfree]
  exact ⟨nofun, nofun⟩

theorem filter_ne_eq_self {β : Type} {l : List (Text × β)} (h : name ∉ l.map (·.1)) :
    (l.filter fun b => b.1 ≠ name) = l := by
  rw [List.filter_eq_self]
  intro b hb
  have hne : b.1 ≠ name := fun heq => h (heq ▸ List.mem_map_of_mem hb)
  simpa using hne

/-- A new alias is added to both fields. -/
theorem InStep.bindingTo (h : s.InStep) (hfree : s.aliases.lookup name = none) (e : Declared) :
    (s.bindingTo e name).InStep := by
  obtain ⟨haliases, hbound⟩ := notMem_bound h hfree
  refine ⟨?_, ?_, h.managed, h.alone⟩
  · simp only [State.bindingTo, withAlias, filter_ne_eq_self hbound, List.map_append, h.keys,
      List.map_cons, List.map_nil]
  · simp only [State.bindingTo, withAlias, List.map_append, List.map_cons, List.map_nil]
    exact h.nodup.append (List.nodup_singleton name) (by simpa using haliases)

/-- The session of a state with a new alias has the alias behind the others. -/
theorem view_bindingTo (h : s.InStep) (hfree : s.aliases.lookup name = none) (e : Declared) :
    (s.bindingTo e name).view =
      { s.view with
        fresh := s.fresh + 1
        aliases := s.view.aliases ++ [(name, ⟨s.fresh, name, some e.type⟩, e)] } := by
  obtain ⟨haliases, hbound⟩ := notMem_bound h hfree
  have hnamed : (s.bindingTo e name).namedRows =
      s.namedRows ++ [(name, ⟨s.fresh, name, some e.type⟩, e)] := by
    simp only [State.bindingTo, withAlias, namedRows, filter_ne_eq_self hbound,
      List.filterMap_append]
    congr 1
    · refine List.filterMap_congr fun a ha => ?_
      obtain ⟨e', he'⟩ := h.exists_bound ha
      simp [List.lookup_append, he']
    · have hnone : s.bound.lookup name = none := by
        rw [← Option.not_isSome_iff_eq_none, isSome_lookup_iff]
        exact hbound
      simp [List.lookup_append, hnone]
  show staged _ _ = _
  rw [staged, hnamed]
  rfl

/-- An alias is bound, or refused, as it is in the session. -/
theorem bind_cases (h : s.InStep) (e : Declared) (name : Text) :
    (∃ err, s.view.bind e name = .error err ∧
      result (bind e name) s = (.error (.error err), s)) ∨
    s.aliases.lookup name = none ∧
      s.view.bind e name = .ok (⟨s.fresh, name, some e.type⟩, (s.bindingTo e name).view) ∧
      result (bind e name) s = (.ok ⟨s.fresh, name, some e.type⟩, s.bindingTo e name) := by
  have hview : (s.view.aliases.lookup name).isSome = (s.aliases.lookup name).isSome := by
    have hbound := h.isSome_lookup name
    show (s.namedRows.lookup name).isSome = _
    rw [lookup_namedRows]
    cases ha : s.aliases.lookup name with
    | none => rfl
    | some p =>
      rw [ha] at hbound
      obtain ⟨e, he⟩ := Option.isSome_iff_exists.mp hbound.symm
      rw [he]
      rfl
  rw [bind, result_bind, result_get, Session.bind, hview]
  dsimp only
  split
  · exact .inl ⟨_, rfl, rfl⟩
  · rename_i hfree
    split
    · exact .inl ⟨_, rfl, rfl⟩
    · have hfree : s.aliases.lookup name = none := Option.not_isSome_iff_eq_none.mp hfree
      -- The new row is numbered before its alias is bound, in the state and in the session alike.
      refine .inr ⟨hfree, ?_, rfl⟩
      rw [view_bindingTo h hfree e]
      rfl

/-- Taking the alias back restores the state. -/
theorem result_unbind (h : s.InStep) (hfree : s.aliases.lookup name = none) (e : Declared) :
    result (unbind name ⟨s.fresh, name, some e.type⟩) (s.bindingTo e name) = (.ok (), s) := by
  obtain ⟨haliases, hbound⟩ := notMem_bound h hfree
  have hback : ∀ {β : Type} {l : List (Text × β)} {b : β}, name ∉ l.map (·.1) →
      ((l ++ [(name, b)]).filter fun b => b.1 ≠ name) = l := by
    intro β l b hl
    rw [List.filter_append, filter_ne_eq_self hl]
    simp
  rw [unbind, result_bind, result_modify]
  simp only [State.bindingTo, withAlias, filter_ne_eq_self hbound, hback haliases, hback hbound]
  rfl

/-- Discarding the statement leaves the state that it began with. -/
theorem result_discard (s : State) (e : Declared) (name : Text) :
    result (discard ⟨s.fresh, name, some e.type⟩) (s.cleared.bindingTo e name) =
      (.ok (), s.cleared) := rfl

/-- What succeeds is not undone. -/
theorem result_undoing_ok {x : Doing α} {a : α} (undo : Doing Unit)
    (hx : result x s = (.ok a, s')) : result (undoing x undo) s = (.ok a, s') := by
  rw [undoing, result_tryCatch, hx]

/-- A refusal is passed on when what was done has been undone. -/
theorem result_undoing_error {x : Doing α} {undo : Doing Unit} {err : ShellError} {s₀ : State}
    (hx : result x s = (.error (.error err), s)) (hundo : result undo s = (.ok (), s₀)) :
    result (undoing x undo) s = (.error (.error err), s₀) := by
  rw [undoing, result_tryCatch, hx]
  dsimp only
  rw [result_bind, hundo]
  rfl

end State

/-- What a command leaves of a state is in step, and stands for what it leaves of the session. -/
structure Reaction.Follows (r : Reaction) (o : Outcome) : Prop where
  inStep : r.state.InStep
  view : r.view = o

namespace State

/-! ### Selections

A command on a selection reads its arguments in the session and replaces the selection. The rules
for reading and replacing settle all of them, except those that bind an alias or stop halfway. -/

section Selections

variable {q : Select}

/-- What only reads is refused as in the session, and goes on with the same result. -/
theorem follows_read (h : s.InStep) {f : Session → Except ShellError α} {x : α → Doing Text}
    {y : α → Except ShellError (Session × Text)}
    (hx : ∀ a, f s.view = .ok a → (s.react (x a)).Follows (.ofExcept s.view (y a))) :
    (s.react (do let a ← Doing.read f; x a)).Follows (.ofExcept s.view (f s.view >>= y)) := by
  unfold react
  rw [result_bind, result_read h]
  cases hf : f s.view with
  | error err => exact ⟨h, rfl⟩
  | ok a => exact hx a hf

/-- Commands on selections are refused without one. -/
theorem follows_requireSelect (h : s.InStep) {x : Select → Doing Text}
    {y : Select → Except ShellError (Session × Text)}
    (hx : ∀ q, s.view.selection = .ok q → (s.react (x q)).Follows (.ofExcept s.view (y q))) :
    (s.react (do let q ← requireSelect; x q)).Follows
      (.ofExcept s.view (s.view.selection >>= y)) := by
  unfold react
  rw [result_bind, result_requireSelect]
  cases hq : s.view.selection with
  | error err => exact ⟨h, rfl⟩
  | ok q => exact hx q hq

/-- Replacing the selection is replacing it in the session. -/
theorem follows_setQuery (h : s.InStep) (hq : s.view.selection = .ok q) (q' : Select) (t : Text) :
    (s.react (do setQuery q'; return t)).Follows
      (.ofExcept s.view (.ok (s.view.withSelection q', t))) := by
  obtain ⟨hm, -⟩ := mode_of_selection hq
  refine ⟨h.setQuery hm q', ?_⟩
  rw [← view_setQuery hm]
  rfl

/-- The old statement is given up before the new alias is bound, so a refused one leaves nothing
behind. -/
theorem follows_from (h : s.InStep) (args : Text) :
    (s.react (from_ args)).Follows (s.view.from_ args) := by
  unfold react from_ Session.from_
  rw [result_bind, result_read h]
  cases s.view.entityAndAlias args.fields with
  | error err => exact ⟨h, rfl⟩
  | ok found =>
    obtain ⟨e, name⟩ := found
    simp only [Except.mapError]
    rw [result_bind, resetStatement, result_modify]
    dsimp only
    rw [result_bind]
    have hcleared := inStep_cleared s
    obtain ⟨err, hview, hresult⟩ | ⟨hfree, hview, hresult⟩ := bind_cases hcleared e name
    · rw [hresult]
      rw [view_cleared] at hview
      rw [hview]
      exact ⟨hcleared, rfl⟩
    · rw [hresult]
      rw [view_cleared] at hview
      rw [hview]
      have hbound := hcleared.bindingTo hfree e
      refine ⟨hbound.setQuery rfl _, ?_⟩
      simp only [Outcome.success]
      rw [← view_setQuery rfl]
      rfl

/-- The alias is bound before the condition is read, which may be about it, and is taken back if the
condition is refused. -/
theorem follows_join (h : s.InStep) (kind : JoinKind) (args : Text) :
    (s.react (join kind args)).Follows (.ofExcept s.view (s.view.join kind args)) := by
  refine follows_requireSelect h fun q hq => ?_
  obtain ⟨hm, -⟩ := mode_of_selection hq
  generalize Session.splitOn (Token.scan args) = split
  obtain ⟨head, condition⟩ := split
  refine follows_read h (f := fun s => (s.entityAndAlias head).mapError (.inside "join"))
    fun (e, name) _ => ?_
  unfold react
  rw [result_bind]
  obtain ⟨err, hview, hresult⟩ | ⟨hfree, hview, hresult⟩ := bind_cases h e name
  · dsimp only
    rw [hresult, hview]
    exact ⟨h, rfl⟩
  · have hbound := h.bindingTo hfree e
    have joined : ∀ on, ((s.bindingTo e name).react do
        setQuery (q.addJoin ⟨kind, some ⟨s.fresh, name, some e.type⟩, on⟩)
        return "  " ++ kind.keywords ++ " " ++ e.table ++ " AS " ++ name ++ "\n").Follows
        (.success ((s.bindingTo e name).view.withSelection
          (q.addJoin ⟨kind, some ⟨s.fresh, name, some e.type⟩, on⟩))
          ("  " ++ kind.keywords ++ " " ++ e.table ++ " AS " ++ name ++ "\n")) := by
      intro on
      refine ⟨hbound.setQuery hm _, ?_⟩
      rw [← view_setQuery (s := s.bindingTo e name) hm]
      rfl
    dsimp only
    rw [hresult, hview]
    dsimp only
    cases condition with
    | none => exact joined .hole
    | some ts =>
      have hread := result_read hbound fun s => (s.parse ts).mapError (.inside "join")
      rw [result_bind]
      simp only [Bind.bind, Except.bind]
      cases hparse : (s.bindingTo e name).view.parse ts with
      | error err =>
        rw [hparse] at hread
        rw [result_undoing_error hread (result_unbind h hfree e)]
        exact ⟨h, rfl⟩
      | ok on =>
        rw [hparse] at hread
        rw [result_undoing_ok _ hread]
        exact joined on

theorem follows_select (h : s.InStep) (args : Text) :
    (s.react (select args)).Follows (.ofExcept s.view (s.view.select args)) := by
  refine follows_requireSelect h fun q hq => ?_
  split
  · exact follows_setQuery h hq _ _
  · exact follows_read h (f := fun s => (s.projection _).mapError (.inside "select"))
      fun items _ => follows_setQuery h hq _ _

theorem follows_distinct (h : s.InStep) :
    (s.react distinct).Follows (.ofExcept s.view s.view.distinct) :=
  follows_requireSelect h fun _ hq => follows_setQuery h hq _ _

theorem follows_group (h : s.InStep) (args : Text) :
    (s.react (group args)).Follows (.ofExcept s.view (s.view.group args)) :=
  follows_requireSelect h fun _ hq =>
    follows_read h (f := fun s =>
      ((Token.splitCommas (Token.scan args)).mapM s.parse).mapError (.inside "group"))
      fun _ _ => follows_setQuery h hq _ _

theorem follows_having (h : s.InStep) (args : Text) :
    (s.react (having args)).Follows (.ofExcept s.view (s.view.having args)) :=
  follows_requireSelect h fun _ hq =>
    follows_read h (f := fun s => (s.parse (Token.scan args)).mapError (.inside "having"))
      fun _ _ => follows_setQuery h hq _ _

/-- Limits and offsets. -/
theorem follows_ofExcept (h : s.InStep) {r : Except ShellError α} {x : α → Doing Text}
    {y : α → Except ShellError (Session × Text)}
    (hx : ∀ a, (s.react (x a)).Follows (.ofExcept s.view (y a))) :
    (s.react (do let a ← ofExcept r; x a)).Follows (.ofExcept s.view (r >>= y)) := by
  unfold react
  rw [result_bind, result_ofExcept]
  cases r with
  | error err => exact ⟨h, rfl⟩
  | ok a => exact hx a

theorem follows_limit (h : s.InStep) (args : Text) :
    (s.react (limit args)).Follows (.ofExcept s.view (s.view.limit args)) :=
  follows_requireSelect h fun _ hq => follows_ofExcept h fun _ => follows_setQuery h hq _ _

theorem follows_offset (h : s.InStep) (args : Text) :
    (s.react (offset args)).Follows (.ofExcept s.view (s.view.offset args)) :=
  follows_requireSelect h fun _ hq => follows_ofExcept h fun _ => follows_setQuery h hq _ _

/-- Items of an ordering are read in the same session whatever the selection is. -/
theorem addOrders_withSelection (s : Session) (q q' : Select) (parts : List (List Token)) :
    (s.withSelection q').addOrders q parts = s.addOrders q parts := by
  induction parts generalizing q with
  | nil => rfl
  | cons part parts ih =>
    have hparse : (s.withSelection q').parse = s.parse := rfl
    simp only [Session.addOrders, hparse, ih]

/-- The items before a refused one stay. -/
theorem result_addOrders (h : s.InStep) (hq : s.view.selection = .ok q)
    (parts : List (List Token)) :
    result (addOrders parts) s =
      (match (s.view.addOrders q parts).2 with
        | none => .ok ()
        | some err => .error (.error (.inside "order" err)),
        { s with query := some (s.view.addOrders q parts).1 }) := by
  -- Every item changes the selection, so both the state and the selection are general.
  induction parts generalizing s q with
  | nil =>
    obtain ⟨-, hquery⟩ := mode_of_selection hq
    obtain ⟨⟩ := s
    cases hquery
    rfl
  | cons part parts ih =>
    obtain ⟨hm, hquery⟩ := mode_of_selection hq
    rw [addOrders, Session.addOrders]
    dsimp only
    rw [result_bind, result_read h]
    cases s.view.parse (Session.splitDirection part).1 with
    | error err =>
      obtain ⟨⟩ := s
      cases hquery
      rfl
    | ok x =>
      simp only [Except.mapError]
      rw [result_bind, result_requireSelect, hq]
      simp only [Except.mapError]
      rw [result_bind, State.setQuery, result_modify]
      dsimp only
      have hview := view_setQuery hm
        { q with orders := q.orders ++ [(x, [(Session.splitDirection part).2])] }
      rw [ih (h.setQuery hm _) (by rw [hview]; rfl), hview, addOrders_withSelection]

/-- The items before a refused one have been added. -/
theorem follows_order (h : s.InStep) (args : Text) :
    (s.react (order args)).Follows (s.view.order args) := by
  unfold react order Session.order
  rw [result_bind, result_requireSelect]
  cases hq : s.view.selection with
  | error err => exact ⟨h, rfl⟩
  | ok q =>
    obtain ⟨hm, -⟩ := mode_of_selection hq
    simp only [Except.mapError]
    rw [result_bind, result_addOrders h hq]
    rcases s.view.addOrders q (Token.splitCommas (Token.scan args)) with ⟨q', _ | err⟩
    · refine ⟨h.setQuery hm q', ?_⟩
      dsimp only
      rw [← view_setQuery hm]
      rfl
    · refine ⟨h.setQuery hm q', ?_⟩
      dsimp only
      rw [← view_setQuery hm]
      rfl

end Selections

/-! ### Conditions -/

/-- A condition is added to the statement of the mode, which is there. -/
theorem follows_where (h : s.InStep) (args : Text) :
    (s.react (where_ args)).Follows (.ofExcept s.view (s.view.where_ args)) := by
  refine follows_read h (f := fun s => (s.parse (Token.scan args)).mapError (.inside "where"))
    fun x _ => ?_
  obtain ⟨_, _, _, _, _, mode, query, insertQuery, updateQuery, deleteQuery⟩ := s
  cases mode with
  | select =>
    cases query with
    | none => exact ⟨h, rfl⟩
    | some q => exact ⟨h.setQuery rfl _, rfl⟩
  | insert =>
    cases insertQuery with
    | none => cases h.managed (by rintro ⟨⟩)
    | some q => exact ⟨h, rfl⟩
  | update =>
    cases updateQuery with
    | none => cases h.managed (by rintro ⟨⟩)
    | some q =>
      refine ⟨h.changed rfl rfl rfl rfl fun m hne => ?_, rfl⟩
      cases m with
      | update => exact absurd rfl hne
      | select | insert | delete => rfl
  | delete =>
    cases deleteQuery with
    | none => cases h.managed (by rintro ⟨⟩)
    | some q =>
      refine ⟨h.changed rfl rfl rfl rfl fun m hne => ?_, rfl⟩
      cases m with
      | delete => exact absurd rfl hne
      | select | insert | update => rfl

/-! ### Insertions, updates and deletions

These begin with a state whose statement and aliases have been given up, in which no old alias can
clash with the new one. -/

/-- The old statement is given up before the assignments are read. -/
theorem follows_insert (h : s.InStep) (args : Text) :
    (s.react (insert args)).Follows (s.view.insert args) := by
  unfold react insert Session.insert
  rcases Token.scan args with _ | ⟨name, _ | ⟨a, _ | ⟨b, _ | ⟨c, ts⟩⟩⟩⟩
  · exact ⟨h, rfl⟩
  · exact ⟨h, rfl⟩
  · exact ⟨h, rfl⟩
  · exact ⟨h, rfl⟩
  · dsimp only
    rw [result_bind, result_read h]
    cases s.view.entity name with
    | error err => exact ⟨h, rfl⟩
    | ok e =>
      have hcleared := inStep_cleared s
      simp only [Except.mapError]
      rw [result_bind, resetStatement, result_modify]
      dsimp only
      rw [result_bind, result_read hcleared, view_cleared]
      cases s.view.cleared.assignments e (a :: b :: c :: ts) with
      | error err => exact ⟨hcleared, rfl⟩
      | ok assigned =>
        refine ⟨hcleared.withStatement rfl rfl fun m => ?_, rfl⟩
        cases m with
        | insert => exact iff_of_true rfl rfl
        | select | update | delete => exact ⟨nofun, nofun⟩

/-- The entity of the row that an insertion is about. -/
theorem bind_entityOfParam? (s : State) (target : Option Param) :
    target.bind s.entityOfParam? =
      s.entities.find? fun e => target.any fun p => p.type = some e.type := by
  cases target with
  | some p => rfl
  | none =>
    symm
    rw [Option.bind_none, List.find?_eq_none]
    exact fun _ _ => nofun

/-- The entity is found by the type of the row that the insertion is about. -/
theorem follows_values (h : s.InStep) (args : Text) :
    (s.react (values args)).Follows (.ofAttempt s.view (s.view.values args)) := by
  unfold react values
  rw [result_bind, result_get]
  obtain ⟨_, _, entities, _, _, mode, query, insertQuery, updateQuery, deleteQuery⟩ := s
  cases mode with
  | select => cases query <;> exact ⟨h, rfl⟩
  | update => cases updateQuery <;> exact ⟨h, rfl⟩
  | delete => cases deleteQuery <;> exact ⟨h, rfl⟩
  | insert =>
    cases insertQuery with
    | none => cases h.managed (by rintro ⟨⟩)
    | some q =>
      dsimp only
      rw [if_neg (by simp), bind_entityOfParam?]
      simp only [Session.values, view, staged, pending, statement?, Option.map_some]
      cases entities.find? fun e => q.target.any fun p => p.type = some e.type with
      | none => exact ⟨h, rfl⟩
      | some e =>
        dsimp only
        rw [result_bind, result_read h]
        simp only [view, staged, pending, statement?, Option.map_some]
        generalize Session.assignments _ e (Token.scan args) = assigned
        cases assigned with
        | error err => exact ⟨h, rfl⟩
        | ok assigned =>
          refine ⟨h.changed rfl rfl rfl rfl fun m hne => ?_, rfl⟩
          cases m with
          | insert => exact absurd rfl hne
          | select | update | delete => rfl

/-- A statement on the rows of an entity begins by giving up the old one and binding the name of the
entity. -/
theorem follows_beginning (s : State) (e : Declared) {x : Param → Doing Text}
    {y : Param × Session → Except ShellError (Session × Text)}
    (hx : s.cleared.aliases.lookup e.name = none →
      ((s.cleared.bindingTo e e.name).react (x ⟨s.fresh, e.name, some e.type⟩)).Follows
        (.ofExcept s.view.cleared
          (y (⟨s.fresh, e.name, some e.type⟩, (s.cleared.bindingTo e e.name).view)))) :
    (s.react (do resetStatement; let p ← bind e e.name; x p)).Follows
      (.ofExcept s.view.cleared (s.view.cleared.bind e e.name >>= y)) := by
  have hcleared := inStep_cleared s
  unfold react
  rw [result_bind, resetStatement, result_modify]
  dsimp only
  rw [result_bind, ← view_cleared]
  obtain ⟨err, hview, hresult⟩ | ⟨hfree, hview, hresult⟩ := bind_cases hcleared e e.name
  · rw [hresult, hview]
    exact ⟨hcleared, rfl⟩
  · rw [hresult, hview]
    exact hx hfree

/-- What is refused after a statement has begun discards it. -/
theorem follows_discarding (hfree : s.cleared.aliases.lookup name = none)
    {f : Session → Except ShellError α} {x : α → Doing Text}
    {y : α → Except ShellError (Session × Text)}
    (hx : ∀ a, ((s.cleared.bindingTo e name).react (x a)).Follows
      (.ofExcept s.view.cleared (y a))) :
    ((s.cleared.bindingTo e name).react do
        let a ← undoing (read f) (discard ⟨s.fresh, name, some e.type⟩)
        x a).Follows
      (.ofExcept s.view.cleared (f (s.cleared.bindingTo e name).view >>= y)) := by
  have hread := result_read ((inStep_cleared s).bindingTo hfree e) f
  unfold react
  rw [result_bind]
  cases hf : f (s.cleared.bindingTo e name).view with
  | ok a =>
    rw [hf] at hread
    rw [result_undoing_ok _ hread]
    exact hx a
  | error err =>
    rw [hf] at hread
    rw [result_undoing_error hread (result_discard s e name)]
    exact ⟨inStep_cleared s, rfl⟩

/-- The assignments and the condition are read with the new alias, and either refusal discards the
statement. -/
theorem follows_update (h : s.InStep) (args : Text) :
    (s.react (update args)).Follows (s.view.update args) := by
  unfold update Session.update
  rcases Token.scan args with _ | ⟨name, _ | ⟨word, _ | ⟨a, _ | ⟨b, _ | ⟨c, ts⟩⟩⟩⟩⟩
  · exact ⟨h, rfl⟩
  · exact ⟨h, rfl⟩
  · exact ⟨h, rfl⟩
  · exact ⟨h, rfl⟩
  · exact ⟨h, rfl⟩
  · dsimp only
    by_cases hset : (!word.equalFold "set") = true
    · rw [if_pos hset, if_pos hset]
      exact ⟨h, rfl⟩
    · rw [if_neg hset, if_neg hset]
      rw [react, result_bind, result_read h]
      cases s.view.entity name with
      | error err => exact ⟨h, rfl⟩
      | ok e =>
        refine follows_beginning s e fun hfree => ?_
        refine follows_discarding hfree (f := fun s =>
          (s.assignments e (Session.splitWhere (a :: b :: c :: ts)).1).mapError (.inside "update"))
          fun assigned => ?_
        refine follows_discarding hfree
          (f := (·.condition (Session.splitWhere (a :: b :: c :: ts)).2)) fun wheres => ?_
        refine ⟨((inStep_cleared s).bindingTo hfree e).withStatement rfl rfl fun m => ?_, ?_⟩
        · cases m with
          | update => exact iff_of_true rfl rfl
          | select | insert | delete => exact ⟨nofun, nofun⟩
        · rfl

theorem follows_delete (h : s.InStep) (args : Text) :
    (s.react (delete args)).Follows (s.view.delete args) := by
  unfold delete Session.delete
  rcases Token.scan args with _ | ⟨name, ts⟩
  · exact ⟨h, rfl⟩
  · dsimp only
    rw [react, result_bind, result_read h]
    cases s.view.entity name with
    | error err => exact ⟨h, rfl⟩
    | ok e =>
      refine follows_beginning s e fun hfree => ?_
      have deleting : ∀ wheres, ((s.cleared.bindingTo e e.name).react do
          modify fun begun =>
            { begun with
              deleteQuery := some ⟨some ⟨s.fresh, e.name, some e.type⟩, wheres, []⟩
              mode := .delete }
          return "  DELETE FROM " ++ e.table ++ "\n").Follows
          (.success
            { (s.cleared.bindingTo e e.name).view with
              pending := some (.delete ⟨some ⟨s.fresh, e.name, some e.type⟩, wheres, []⟩) }
            ("  DELETE FROM " ++ e.table ++ "\n")) := by
        intro wheres
        refine ⟨((inStep_cleared s).bindingTo hfree e).withStatement rfl rfl fun m => ?_, ?_⟩
        · cases m with
          | delete => exact iff_of_true rfl rfl
          | select | insert | update => exact ⟨nofun, nofun⟩
        · rfl
      cases ts with
      | nil => exact deleting []
      | cons word rest =>
        dsimp only
        by_cases hwhere : word.equalFold "where" = true
        · rw [if_pos hwhere, if_pos hwhere]
          exact follows_discarding hfree (f := (·.condition (some rest))) deleting
        · rw [if_neg hwhere, if_neg hwhere]
          exact ⟨inStep_cleared s, rfl⟩

end State

end QueryTree.Shell
