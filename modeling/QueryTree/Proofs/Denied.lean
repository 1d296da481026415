import QueryTree.Proofs.Consulted
import QueryTree.Sample.Sessions

/-!
# Denied tables over whole sessions

A session that denies the statements on a table keeps denying them, whatever is done in between,
until the policy is turned off. Three things have to stay together for that: the rule stays among
the rules of the session, the policy stays enabled while there are rules, and a statement that is
built by commands is never refused for its key before the policy is asked.

Commands are run one after the other. A command may need an answer from outside, of a file or a
database, and every answer is possible; a command that is refused is a step like any other.

## Main definitions

* `Plan.CanEnd`: what a plan can lead to
* `Step`, `Run`: commands that are run one after the other
* `Session.Moves`: what commands do to the entities and the statement of a session
* `Session.Settles`: what commands do that are about neither the statement nor plugins
* `Session.Touches`: the tables that the statement of a session reads or changes

## Main results

* `Session.moves_run`: every command that is not about plugins is made of moves
* `Session.runLine_cases`: what a line does to the rules of a session
* `Session.Guarded.run`: what holds in every session
* `denied_of_policy_deny`: a denied table stays denied
-/

namespace QueryTree

theorem Registry.table_eq_ok {r : Registry} {t : Option Ty} {table : Text}
    (h : r.table t = .ok table) : ∃ e, r.entity t = .ok e ∧ e.table = table := by
  unfold Registry.table at h
  cases he : r.entity t with
  | error =>
    rw [he] at h
    cases h
  | ok e =>
    rw [he] at h
    cases h
    exact ⟨e, rfl, rfl⟩

namespace Shell

variable {s s' : Session} {t args : Text}

/-! ### Runs

A run is a list of steps, each with what it left behind. What the world answers is part of the step,
so a run may go on in any way that the world allows. -/

/-- What a plan can lead to, whatever the answer to its request is. -/
inductive Plan.CanEnd {α : Type} : Plan α → α → Prop
  | done (a : α) : CanEnd (.done a) a
  | read (path : Text) (next : Except Text Text → α) (answer : Except Text Text) :
    CanEnd (.read path next) (next answer)
  | write (path content : Text) (next : Except Text Unit → α) (answer : Except Text Unit) :
    CanEnd (.write path content next) (next answer)
  | query (sql : Text) (args : List Value) (next : Except Text Rows → α)
    (answer : Except Text Rows) : CanEnd (.query sql args next) (next answer)
  | execute (sql : Text) (args : List Value) (next : Except Text Effect → α)
    (answer : Except Text Effect) : CanEnd (.execute sql args next) (next answer)
  | connect (dialect : Dialect) (dsn : Text) (next : Except Text (List Text) → α)
    (answer : Except Text (List Text)) : CanEnd (.connect dialect dsn next) (next answer)

/-- What a world carries out is one of the things that a plan can lead to. -/
theorem World.canEnd_carryOut {α : Type} (w : World) (p : Plan α) : p.CanEnd (w.carryOut p).1 := by
  cases p with
  | done a => exact .done a
  | read path next => exact .read path next _
  | write path content next =>
    simp only [carryOut]
    split
    · exact .write path content next _
    · exact .write path content next _
  | query sql args next => exact .query sql args next _
  | execute sql args next => exact .execute sql args next _
  | connect dialect dsn next => exact .connect dialect dsn next _

/-- A line that is run in a session, and what it leaves behind. -/
structure Step where
  start : Session
  line : Text
  outcome : Outcome
  carried : (start.runLine line).CanEnd outcome

/-- Lines that are run one after the other, those that are refused included. -/
inductive Run : Session → List Step → Session → Prop
  | nil (s : Session) : Run s [] s
  | cons (x : Step) {xs : List Step} {s : Session} (rest : Run x.outcome.session xs s) :
    Run x.start (x :: xs) s

theorem Run.append {xs ys : List Step} (h : Run s (xs ++ ys) s') :
    ∃ s₁, Run s xs s₁ ∧ Run s₁ ys s' := by
  induction xs generalizing s with
  | nil => exact ⟨s, .nil s, h⟩
  | cons x xs ih =>
    cases h with
    | cons _ rest =>
      obtain ⟨s₁, h₁, h₂⟩ := ih rest
      exact ⟨s₁, .cons x h₁, h₂⟩

/-- What every step of a run keeps holds after the run. -/
theorem Run.induction {P : Session → Prop} {xs : List Step} (h : Run s xs s')
    (step : ∀ x ∈ xs, P x.start → P x.outcome.session) (hs : P s) : P s' := by
  induction h with
  | nil => exact hs
  | cons x rest ih =>
    exact ih (fun y hy => step y (List.mem_cons_of_mem x hy)) (step x List.mem_cons_self hs)

/-! ### What commands do

There are only a few things that a command may do to the parts that matter here, and what it does is
one of them or several in a row. The invariants below are proved about these, and not about
commands. -/

/-- Whether a command begins, changes or discards the statement. -/
def Verb.buildsStatement : Verb → Bool
  | .source | .select | .distinct | .filter | .group | .having | .order | .limit | .offset | .join _
  | .insert | .values | .update | .delete | .reset => true
  | _ => false

namespace Pending

/-- A statement that does not ask for the key of an entity. -/
def IsKeyless : Pending → Prop
  | .update q => ∃ type fields, q.assigned = .new type fields
  | .delete q => q.byKey = []
  | .select _ | .insert _ => True

/-- The rows of a statement that have aliases. -/
def rows : Pending → List (Option Param)
  | .select q => q.source :: q.joins.map (·.row)
  | .insert _ => []
  | .update q => [q.target]
  | .delete q => [q.source]

/-- The row that stands for what a statement inserts. -/
def inserted : Pending → List (Option Param)
  | .insert q => [q.target]
  | .select _ | .update _ | .delete _ => []

end Pending

namespace Session

/-- The entities and the statement are the same, with the aliases of its rows. -/
structure SameScene (s s' : Session) : Prop where
  entities : s'.entities = s.entities
  registry : s'.registry = s.registry
  aliases : s'.aliases = s.aliases
  pending : s'.pending = s.pending
  fresh : s.fresh ≤ s'.fresh

theorem SameScene.refl (s : Session) : s.SameScene s := ⟨rfl, rfl, rfl, rfl, Nat.le_refl _⟩

/-- What commands that are not about plugins do. -/
inductive Moves : Session → Session → Prop
  | settles {s s' : Session} (hrules : s'.rules = s.rules) (hplugins : s'.plugins = s.plugins)
    (h : s.SameScene s') : Moves s s'
  | clears (s : Session) : Moves s s.cleared
  | defines {s : Session} {d : EntityDef} {e : Declared} (hnew : s.entity? d.name = none)
    (hd : d.declare = .ok e) :
    Moves s { s with
      entities := s.entities ++ [e]
      registry := s.registry.register (some e.type) e.table }
  /-- A statement on the rows of an entity. -/
  | starts {s s₁ : Session} {e : Declared} {name : Text} {p : Param} {q : Pending}
    (he : e ∈ s.entities) (hempty : s.aliases = []) (hbind : s.bind e name = .ok (p, s₁))
    (hrows : q.rows = [some p]) (hinserted : q.inserted = []) (hkey : q.IsKeyless) :
    Moves s { s₁ with pending := some q }
  | inserts {s : Session} {e : Declared} (he : e ∈ s.entities) (hempty : s.aliases = [])
    (values : List Expr) :
    Moves s { (s.row e e.name).2 with
      pending := some (.insert ⟨some (s.row e e.name).1, values, false⟩) }
  | joins {s s₁ : Session} {e : Declared} {name : Text} {p : Param} {q : Select}
    (he : e ∈ s.entities) (hq : s.pending = some (.select q))
    (hbind : s.bind e name = .ok (p, s₁)) (kind : JoinKind) (on : Expr) :
    Moves s (s₁.withSelection (q.addJoin ⟨kind, some p, on⟩))
  /-- A statement on the same rows takes the place of the one before. -/
  | alters {s : Session} {q q' : Pending} (hq : s.pending = some q) (hrows : q'.rows = q.rows)
    (hinserted : q'.inserted = q.inserted) (hkey : q.IsKeyless → q'.IsKeyless) :
    Moves s { s with pending := some q' }
  | trans {s s₁ s' : Session} (h : Moves s s₁) (h' : Moves s₁ s') : Moves s s'

theorem Moves.refl (s : Session) : s.Moves s := .settles rfl rfl (.refl s)

/-- What commands do that are about neither the statement nor plugins: they change settings and
define entities. -/
inductive Settles : Session → Session → Prop
  | same {s s' : Session} (hrules : s'.rules = s.rules) (hplugins : s'.plugins = s.plugins)
    (h : s.SameScene s') : Settles s s'
  | defines {s : Session} {d : EntityDef} {e : Declared} (hnew : s.entity? d.name = none)
    (hd : d.declare = .ok e) :
    Settles s { s with
      entities := s.entities ++ [e]
      registry := s.registry.register (some e.type) e.table }
  | trans {s s₁ s' : Session} (h : Settles s s₁) (h' : Settles s₁ s') : Settles s s'

theorem Settles.refl (s : Session) : s.Settles s := .same rfl rfl (.refl s)

theorem Settles.moves (h : s.Settles s') : s.Moves s' := by
  induction h with
  | same hrules hplugins h => exact .settles hrules hplugins h
  | defines hnew hd => exact .defines hnew hd
  | trans _ _ ih ih' => exact .trans ih ih'

theorem mem_of_entity {e : Declared} {name : Text} (h : s.entity name = .ok e) :
    e ∈ s.entities := by
  unfold entity at h
  split at h
  · rename_i hfound
    cases h
    exact List.mem_of_find?_eq_some hfound
  · cases h

theorem mem_of_entityAndAlias {e : Declared} {name : Text} {words : List Text}
    (h : s.entityAndAlias words = .ok (e, name)) : e ∈ s.entities := by
  unfold entityAndAlias at h
  split at h
  · obtain ⟨e, he, h⟩ := bind_eq_ok.mp h
    cases h
    exact mem_of_entity he
  · obtain ⟨e, he, h⟩ := bind_eq_ok.mp h
    cases h
    exact mem_of_entity he
  · cases h

/-! #### Selections -/

theorem moves_from (s : Session) (args : Text) : s.Moves (s.from_ args).session := by
  unfold from_
  split
  · exact .refl s
  · rename_i he
    split
    · exact .clears s
    · rename_i hbind
      exact .trans (.clears s)
        (.starts (s := s.cleared) (mem_of_entityAndAlias he) rfl hbind rfl rfl trivial)

theorem pending_of_selection {q : Select} (h : s.selection = .ok q) :
    s.pending = some (.select q) := by
  unfold selection at h
  split at h
  · rename_i hpending
    cases h
    exact hpending
  · cases h

theorem moves_join {kind : JoinKind} (h : s.join kind args = .ok (s', t)) : s.Moves s' := by
  obtain ⟨q, hq, h⟩ := bind_eq_ok.mp h
  obtain ⟨⟨e, name⟩, he, h⟩ := bind_eq_ok.mp h
  obtain ⟨⟨p, s₁⟩, hbind, h⟩ := bind_eq_ok.mp h
  have he := mem_of_entityAndAlias (Emit.mapError_eq_ok.mp he)
  have hjoins := Moves.joins he (pending_of_selection hq) hbind kind
  dsimp only at h
  split at h
  · obtain ⟨on, -, h⟩ := bind_eq_ok.mp h
    cases h
    exact hjoins on
  · cases h
    exact hjoins .hole

/-- A selection of the same rows takes the place of the one before. -/
theorem moves_withSelection {q q' : Select} (h : s.selection = .ok q)
    (hsource : q'.source = q.source) (hjoins : q'.joins = q.joins) :
    s.Moves (s.withSelection q') :=
  .alters (pending_of_selection h) (by rw [Pending.rows, Pending.rows, hsource, hjoins]) rfl
    fun _ => trivial

theorem moves_select (h : s.select args = .ok (s', t)) : s.Moves s' := by
  obtain ⟨q, hq, h⟩ := bind_eq_ok.mp h
  split at h
  · cases h
    exact moves_withSelection hq rfl rfl
  · obtain ⟨items, -, h⟩ := bind_eq_ok.mp h
    cases h
    exact moves_withSelection hq rfl rfl

theorem moves_distinct (h : s.distinct = .ok (s', t)) : s.Moves s' := by
  obtain ⟨q, hq, h⟩ := bind_eq_ok.mp h
  cases h
  exact moves_withSelection hq rfl rfl

theorem moves_where (h : s.where_ args = .ok (s', t)) : s.Moves s' := by
  obtain ⟨e, -, h⟩ := bind_eq_ok.mp h
  split at h
  · rename_i q hq
    cases h
    exact .alters hq rfl rfl id
  · rename_i q hq
    cases h
    exact .alters hq rfl rfl id
  · rename_i q hq
    cases h
    exact .alters hq rfl rfl id
  · cases h
  · cases h

theorem moves_group (h : s.group args = .ok (s', t)) : s.Moves s' := by
  obtain ⟨q, hq, h⟩ := bind_eq_ok.mp h
  obtain ⟨groups, -, h⟩ := bind_eq_ok.mp h
  cases h
  exact moves_withSelection hq rfl rfl

theorem moves_having (h : s.having args = .ok (s', t)) : s.Moves s' := by
  obtain ⟨q, hq, h⟩ := bind_eq_ok.mp h
  obtain ⟨e, -, h⟩ := bind_eq_ok.mp h
  cases h
  exact moves_withSelection hq rfl rfl

/-- The rows of a selection stay when it is ordered. -/
theorem rows_addOrders (s : Session) (q : Select) (parts : List (List Token)) :
    (s.addOrders q parts).1.source = q.source ∧ (s.addOrders q parts).1.joins = q.joins := by
  induction parts generalizing q with
  | nil => exact ⟨rfl, rfl⟩
  | cons part parts ih =>
    rw [addOrders]
    dsimp only
    split
    · exact ⟨rfl, rfl⟩
    · exact ih _

theorem moves_order (s : Session) (args : Text) : s.Moves (s.order args).session := by
  unfold order
  split
  · exact .refl s
  · rename_i q hq
    obtain ⟨hsource, hjoins⟩ := rows_addOrders s q (Token.splitCommas (Token.scan args))
    dsimp only
    split
    · rename_i hadded
      rw [hadded] at hsource hjoins
      exact moves_withSelection hq hsource hjoins
    · rename_i hadded
      rw [hadded] at hsource hjoins
      exact moves_withSelection hq hsource hjoins

theorem moves_limit (h : s.limit args = .ok (s', t)) : s.Moves s' := by
  obtain ⟨q, hq, h⟩ := bind_eq_ok.mp h
  obtain ⟨n, -, h⟩ := bind_eq_ok.mp h
  cases h
  exact moves_withSelection hq rfl rfl

theorem moves_offset (h : s.offset args = .ok (s', t)) : s.Moves s' := by
  obtain ⟨q, hq, h⟩ := bind_eq_ok.mp h
  obtain ⟨n, -, h⟩ := bind_eq_ok.mp h
  cases h
  exact moves_withSelection hq rfl rfl

/-! #### Insertions, updates and deletions -/

theorem moves_insert (s : Session) (args : Text) : s.Moves (s.insert args).session := by
  unfold insert
  split
  · split
    · exact .refl s
    · rename_i he
      dsimp only
      split
      · exact .clears s
      · exact .trans (.clears s) (.inserts (s := s.cleared) (mem_of_entity he) rfl _)
  · exact .refl s

theorem moves_values (h : s.values args = .ok (s', t)) : s.Moves s' := by
  unfold values at h
  split at h
  · rename_i q hq
    split at h
    · cases h
    · split at h
      · cases h
      · cases h
        exact .alters hq rfl rfl id
  · cases h

theorem moves_updateOf {e : Declared} {ts : List Token} (he : e ∈ s.entities)
    (hempty : s.aliases = []) (h : s.updateOf e ts = .ok (s', t)) : s.Moves s' := by
  obtain ⟨⟨p, s₁⟩, hbind, h⟩ := bind_eq_ok.mp h
  obtain ⟨assigned, -, h⟩ := bind_eq_ok.mp h
  obtain ⟨wheres, -, h⟩ := bind_eq_ok.mp h
  cases h
  exact .starts he hempty hbind rfl rfl ⟨none, assigned, rfl⟩

theorem moves_deleteOf {e : Declared} {ts : List Token} (he : e ∈ s.entities)
    (hempty : s.aliases = []) (h : s.deleteOf e ts = .ok (s', t)) : s.Moves s' := by
  obtain ⟨⟨p, s₁⟩, hbind, h⟩ := bind_eq_ok.mp h
  dsimp only at h
  split at h
  · cases h
    exact .starts he hempty hbind rfl rfl rfl
  · split at h
    · obtain ⟨wheres, -, h⟩ := bind_eq_ok.mp h
      cases h
      exact .starts he hempty hbind rfl rfl rfl
    · cases h

/-- A change that is refused does nothing. -/
theorem after_ofExcept {P : Session → Prop} {x : Except ShellError (Session × Text)} (hs : P s)
    (h : ∀ s' t, x = .ok (s', t) → P s') : P (Outcome.ofExcept s x).session := by
  rcases x with e | ⟨s', t⟩
  · exact hs
  · exact h s' t rfl

theorem after_ofAttempt {P : Session → Prop} {x : Attempt ShellError (Session × Text)} (hs : P s)
    (h : ∀ s' t, x = .ok (s', t) → P s') : P (Outcome.ofAttempt s x).session := by
  rcases x with e | ⟨s', t⟩
  · exact hs
  · exact h s' t rfl

theorem moves_ofExcept {x : Except ShellError (Session × Text)}
    (h : ∀ s' t, x = .ok (s', t) → s.Moves s') : s.Moves (Outcome.ofExcept s x).session :=
  after_ofExcept (.refl s) h

theorem settles_ofReport (s : Session) (x : Attempt ShellError Text) :
    s.Settles (Outcome.ofReport s x).session := by
  rcases x with e | t
  · exact .refl s
  · exact .refl s

theorem moves_update (s : Session) (args : Text) : s.Moves (s.update args).session := by
  unfold update
  split
  · split
    · exact .refl s
    · split
      · exact .refl s
      · rename_i he
        exact .trans (.clears s)
          (moves_ofExcept fun _ _ => moves_updateOf (mem_of_entity he) rfl)
  · exact .refl s

theorem moves_delete (s : Session) (args : Text) : s.Moves (s.delete args).session := by
  unfold delete
  split
  · exact .refl s
  · split
    · exact .refl s
    · rename_i he
      exact .trans (.clears s)
        (moves_ofExcept fun _ _ => moves_deleteOf (mem_of_entity he) rfl)

/-! #### Settings and entities -/

theorem settles_setDialect (h : s.setDialect args = .ok (s', t)) : s.Settles s' := by
  unfold setDialect at h
  split at h
  · cases h
    exact .refl s
  · split at h
    · cases h
    · split at h
      · split at h
        · cases h
          exact .same rfl rfl ⟨rfl, rfl, rfl, rfl, Nat.le_refl _⟩
        · cases h
      · cases h
        exact .same rfl rfl ⟨rfl, rfl, rfl, rfl, Nat.le_refl _⟩

theorem settles_setQuoted (h : s.setQuoted args = .ok (s', t)) : s.Settles s' := by
  unfold setQuoted at h
  split at h
  · cases h
  · cases h
    exact .same rfl rfl ⟨rfl, rfl, rfl, rfl, Nat.le_refl _⟩

theorem settles_define {d : EntityDef} (h : s.define d = .ok (s', t)) : s.Settles s' := by
  unfold define at h
  split at h
  · cases h
  · rename_i hnew
    obtain ⟨e, he, h⟩ := bind_eq_ok.mp h
    cases h
    exact .defines (Option.not_isSome_iff_eq_none.mp hnew) (Attempt.eq_ok_of_mapError he)

theorem settles_defineEntity (h : s.defineEntity args = .ok (s', t)) : s.Settles s' := by
  unfold defineEntity at h
  split at h
  · cases h
  · exact settles_define h

theorem settles_defineAll (s : Session) (ds : List EntityDef) :
    s.Settles (s.defineAll ds).session := by
  induction ds generalizing s with
  | nil => exact .refl s
  | cons d ds ih =>
    rw [defineAll]
    split
    · exact .refl s
    · rename_i s₁ output hdefine
      exact .trans (settles_define hdefine) (ih s₁)

theorem settles_load {o : Outcome} (h : (s.load args).CanEnd o) : s.Settles o.session := by
  unfold load at h
  split at h
  · cases h
    exact .refl s
  · cases h
    dsimp only
    split
    · exact .refl s
    · exact settles_defineAll s _

/-! #### Databases and files -/

theorem settles_connected (s : Session) (dsn : Text) (answer : Except Text (List Text)) :
    s.Settles (s.connected dsn answer).session := by
  rcases answer with m | tables
  · exact .refl s
  · exact .same rfl rfl ⟨rfl, rfl, rfl, rfl, Nat.le_refl _⟩

theorem settles_connect {o : Outcome} (h : (s.connect args).CanEnd o) : s.Settles o.session := by
  have closed : s.Settles { s with connection := none } :=
    .same rfl rfl ⟨rfl, rfl, rfl, rfl, Nat.le_refl _⟩
  unfold connect at h
  dsimp only at h
  generalize (if args.isEmpty then s.lastDsn else args) = dsn at h
  split at h
  · cases h
    exact .refl s
  · split at h
    · cases h
      exact closed
    · split at h
      · cases h
        exact closed
      · cases h
        exact closed.trans (settles_connected _ _ _)
    · cases h
      exact closed.trans (settles_connected _ _ _)

theorem settles_disconnect (s : Session) : s.Settles s.disconnect.session := by
  unfold disconnect
  split
  · exact .refl s
  · exact .same rfl rfl ⟨rfl, rfl, rfl, rfl, Nat.le_refl _⟩

theorem settles_execute {o : Outcome} (h : s.execute.CanEnd o) : s.Settles o.session := by
  unfold execute at h
  split at h
  · cases h
    exact .refl s
  · split at h
    · cases h
      exact .refl s
    · dsimp only at h
      split at h
      · cases h
        dsimp only
        split
        · exact .refl s
        · exact settles_ofReport s _
      · cases h
        dsimp only
        split
        · exact .refl s
        · rename_i effect
          refine after_ofExcept (.refl s) fun s' t h => ?_
          cases hreport : effect.report with
          | error =>
            rw [hreport] at h
            cases h
          | ok report =>
            rw [hreport] at h
            cases h
            exact .refl s

theorem settles_dot {o : Outcome} (h : (s.dot args).CanEnd o) : s.Settles o.session := by
  unfold dot at h
  split at h
  · cases h
    exact .refl s
  · split at h
    · cases h
      exact .refl s
    · cases h
      dsimp only
      split
      · exact .refl s
      · exact .refl s

theorem settles_showDialects (s : Session) (ds : List Dialect) :
    s.Settles (s.showDialects ds).session := by
  induction ds with
  | nil => exact .refl s
  | cons d ds ih =>
    rw [showDialects]
    split
    · exact ih
    · exact .refl s
    · exact .refl s

/-! #### All commands -/

/-- A command that is about neither the statement nor plugins. -/
theorem settles_run {c : Command} {o : Outcome} (hc : c.verb.buildsStatement = false)
    (hsoft : c.verb ≠ .softDelete) (hpolicy : c.verb ≠ .policy) (h : (s.run c).CanEnd o) :
    s.Settles o.session := by
  obtain ⟨verb, args⟩ := c
  cases verb with
  | softDelete => exact absurd rfl hsoft
  | policy => exact absurd rfl hpolicy
  | source | select | distinct | filter | group | having | order | limit | offset | join | insert |
      values | update | delete | reset => cases hc
  | dot => exact settles_dot h
  | load => exact settles_load h
  | connect => exact settles_connect h
  | execute => exact settles_execute h
  | help | entities | plugins =>
    cases h
    exact .refl s
  | sql | inline =>
    cases h
    exact settles_ofReport s _
  | all =>
    cases h
    exact settles_showDialects s Dialect.all
  | entity =>
    cases h
    exact after_ofAttempt (.refl s) fun _ _ => settles_defineEntity
  | dialect =>
    cases h
    exact after_ofExcept (.refl s) fun _ _ => settles_setDialect
  | quoted =>
    cases h
    exact after_ofExcept (.refl s) fun _ _ => settles_setQuoted
  | disconnect =>
    cases h
    exact settles_disconnect s

/-- A command that is about the statement. -/
theorem moves_building {c : Command} {o : Outcome} (hc : c.verb.buildsStatement = true)
    (h : (s.run c).CanEnd o) : s.Moves o.session := by
  obtain ⟨verb, args⟩ := c
  cases verb with
  | help | entities | plugins | sql | inline | all | dot | entity | load | dialect | quoted |
      softDelete | policy | connect | disconnect | execute => cases hc
  | reset =>
    cases h
    exact .clears s
  | source =>
    cases h
    exact moves_from s args
  | select =>
    cases h
    exact moves_ofExcept fun _ _ => moves_select
  | distinct =>
    cases h
    exact moves_ofExcept fun _ _ => moves_distinct
  | filter =>
    cases h
    exact moves_ofExcept fun _ _ => moves_where
  | group =>
    cases h
    exact moves_ofExcept fun _ _ => moves_group
  | having =>
    cases h
    exact moves_ofExcept fun _ _ => moves_having
  | order =>
    cases h
    exact moves_order s args
  | limit =>
    cases h
    exact moves_ofExcept fun _ _ => moves_limit
  | offset =>
    cases h
    exact moves_ofExcept fun _ _ => moves_offset
  | join kind =>
    cases h
    exact moves_ofExcept fun _ _ => moves_join
  | insert =>
    cases h
    exact moves_insert s args
  | values =>
    cases h
    exact after_ofAttempt (.refl s) fun _ _ => moves_values
  | update =>
    cases h
    exact moves_update s args
  | delete =>
    cases h
    exact moves_delete s args

/-- A command that is not about plugins. -/
theorem moves_run {c : Command} {o : Outcome} (hsoft : c.verb ≠ .softDelete)
    (hpolicy : c.verb ≠ .policy) (h : (s.run c).CanEnd o) : s.Moves o.session := by
  cases hc : c.verb.buildsStatement with
  | true => exact moves_building hc h
  | false => exact (settles_run hc hsoft hpolicy h).moves

/-! ### What commands keep

The policy and its rules are changed by one command alone. -/

/-- What the commands that are not about plugins keep. -/
structure Keeps (s s' : Session) : Prop where
  rules : s'.rules = s.rules
  plugins : s'.plugins = s.plugins
  keyless : (∀ p ∈ s.pending, p.IsKeyless) → ∀ p ∈ s'.pending, p.IsKeyless

/-- A new statement may take the place of another one. -/
theorem Keeps.of_pending {p : Pending} (hrules : s'.rules = s.rules)
    (hplugins : s'.plugins = s.plugins) (hp : s'.pending = some p) (h : p.IsKeyless) :
    s.Keeps s' := by
  refine ⟨hrules, hplugins, fun _ q hq => ?_⟩
  rw [hp] at hq
  cases hq
  exact h

theorem bind_eq {e : Declared} {name : Text} {p : Param} (h : s.bind e name = .ok (p, s')) :
    s.aliases.lookup name = none ∧ p = ⟨s.fresh, name, some e.type⟩ ∧
      s' = { s with fresh := s.fresh + 1, aliases := s.aliases ++ [(name, p, e)] } := by
  unfold bind at h
  split at h
  · cases h
  · rename_i hfree
    split at h
    · cases h
    · cases h
      exact ⟨Option.not_isSome_iff_eq_none.mp hfree, rfl, rfl⟩

/-- A statement keeps its rows, and no command asks for a key. -/
theorem Moves.keeps (h : s.Moves s') : s.Keeps s' := by
  induction h with
  | settles hrules hplugins h => exact ⟨hrules, hplugins, fun hs p hp => hs p (h.pending ▸ hp)⟩
  | clears => exact ⟨rfl, rfl, fun _ => nofun⟩
  | defines => exact ⟨rfl, rfl, id⟩
  | starts he hempty hbind hrows hinserted hkey =>
    obtain ⟨-, -, rfl⟩ := bind_eq hbind
    exact .of_pending rfl rfl rfl hkey
  | inserts => exact .of_pending rfl rfl rfl trivial
  | joins he hq hbind =>
    obtain ⟨-, -, rfl⟩ := bind_eq hbind
    exact .of_pending rfl rfl rfl trivial
  | alters hq hrows hinserted hkey =>
    refine ⟨rfl, rfl, fun hs p hp => ?_⟩
    cases hp
    exact hkey (hs _ hq)
  | trans _ _ ih ih' =>
    exact ⟨ih'.rules.trans ih.rules, ih'.plugins.trans ih.plugins,
      fun hs => ih'.keyless (ih.keyless hs)⟩

end Session

/-! ### Plugins

A plugin is registered under its name, so enabling it again replaces it. -/

namespace Plugin

variable {ps : List Plugin} {p q : Plugin}

theorem mem_register_self (ps : List Plugin) (p : Plugin) : p ∈ register ps p := by
  unfold register
  split
  · rename_i h
    obtain ⟨q, hq, hname⟩ := List.any_eq_true.mp h
    exact List.mem_map.mpr ⟨q, hq, if_pos (of_decide_eq_true hname)⟩
  · exact List.mem_append_right ps (List.mem_singleton_self p)

theorem mem_register_of_ne (hq : q ∈ ps) (h : q.name ≠ p.name) : q ∈ register ps p := by
  unfold register
  split
  · exact List.mem_map.mpr ⟨q, hq, if_neg h⟩
  · exact List.mem_append_left [p] hq

theorem mem_deregister_of_ne {name : Text} (hq : q ∈ ps) (h : q.name ≠ name) :
    q ∈ deregister ps name := List.mem_filter.mpr ⟨hq, decide_eq_true h⟩

end Plugin

/-- What a rule adds for its table. -/
def Rule.condition : Rule → Except Refusal Expr
  | .filter p e => .ok (.lambda e [p])
  | .deny => .error ⟨"access denied", [.policyDenied]⟩

/-- The entity whose table a command denies. -/
def Command.denied? (c : Command) : Option Text :=
  match c.verb, c.arguments.fields with
  | .policy, [word, name] => if word.equalFold "deny" then some name else none
  | _, _ => none

/-- Whether a command turns the policy off. -/
def Command.isPolicyOff (c : Command) : Bool :=
  match c.verb, c.arguments.fields with
  | .policy, [word] => word.equalFold "off"
  | _, _ => false

/-- The entity whose table a line denies. -/
def deniedEntity? (line : Text) : Option Text :=
  match Command.read line with
  | .ok (some c) => c.denied?
  | _ => none

/-- Whether a line turns the policy off. -/
def turnsPolicyOff (line : Text) : Bool :=
  match Command.read line with
  | .ok (some c) => c.isPolicyOff
  | _ => false

namespace Session

/-- Soft deletion leaves the policy alone. -/
theorem softDelete_eq_ok (h : s.softDelete args = .ok (s', t)) : s'.rules = s.rules ∧
    s'.pending = s.pending ∧ (.policy ∈ s.plugins → .policy ∈ s'.plugins) := by
  unfold softDelete at h
  split at h
  · split at h
    · cases h
      exact ⟨rfl, rfl, fun hp => Plugin.mem_deregister_of_ne hp (by decide)⟩
    · cases h
  · obtain ⟨⟨rule, status⟩, -, h⟩ := bind_eq_ok.mp h
    cases h
    exact ⟨rfl, rfl, fun hp => Plugin.mem_register_of_ne hp (by decide : _ ≠ ("softdelete" : Text))⟩

theorem addFilter_eq_ok {e : Declared} {condition : Text}
    (h : s.addFilter e condition = .ok (s', t)) : s'.pending = s.pending ∧
      ∃ r, s'.rules = s.rules ++ [r] ∧ .policy ∈ s'.plugins := by
  obtain ⟨x, -, h⟩ := bind_eq_ok.mp h
  cases h
  exact ⟨rfl, _, rfl, Plugin.mem_register_self _ _⟩

/-- The policy is turned off, or a rule is added to it. -/
theorem policy_eq_ok (h : s.policy args = .ok (s', t)) : s'.pending = s.pending ∧
    ((Command.mk .policy args).isPolicyOff = true ∧ s'.rules = [] ∨
      ∃ r, s'.rules = s.rules ++ [r] ∧ .policy ∈ s'.plugins) := by
  unfold policy at h
  extract_lets other at h
  have filter : ∀ words, other words = .ok (s', t) → s'.pending = s.pending ∧
      ((Command.mk .policy args).isPolicyOff = true ∧ s'.rules = [] ∨
        ∃ r, s'.rules = s.rules ++ [r] ∧ .policy ∈ s'.plugins) := by
    intro words hw
    simp only [other] at hw
    split at hw
    · obtain ⟨e, -, hw⟩ := bind_eq_ok.mp hw
      obtain ⟨hpending, hrule⟩ := addFilter_eq_ok hw
      exact ⟨hpending, .inr hrule⟩
    · cases hw
  split at h
  · rename_i word hfields
    split at h
    · rename_i hoff
      cases h
      exact ⟨rfl, .inl ⟨by simp only [Command.isPolicyOff, hfields, hoff], rfl⟩⟩
    · exact filter [word] h
  · rename_i word name hfields
    split at h
    · obtain ⟨e, -, h⟩ := bind_eq_ok.mp h
      cases h
      exact ⟨rfl, .inr ⟨_, rfl, Plugin.mem_register_self _ _⟩⟩
    · exact filter [word, name] h
  · exact filter _ h

/-- A table is denied by a rule. -/
theorem policy_deny {c : Command} {name : Text} (hc : c.denied? = some name)
    (h : s.policy c.arguments = .ok (s', t)) :
    ∃ e, s.entity name = .ok e ∧ (e.table, .deny) ∈ s'.rules := by
  unfold Command.denied? at hc
  split at hc
  · rename_i word _ _ hfields
    split at hc
    · rename_i hdeny
      cases hc
      unfold policy at h
      simp only [hfields, hdeny] at h
      obtain ⟨e, he, h⟩ := bind_eq_ok.mp h
      cases h
      exact ⟨e, he, List.mem_append_right _ (List.mem_singleton_self _)⟩
    · cases hc
  · cases hc

/-! ### Steps

A line either keeps the rules, adds one or turns the policy off, which is all that a run of lines
needs to know. -/

/-- **What a line does to a session.** The statement still asks for no key. The line keeps the rules
and does not disable the policy, or it adds a rule and enables the policy, or it turns the policy
off. -/
theorem runLine_cases {line : Text} {o : Outcome} (h : (s.runLine line).CanEnd o) :
    ((∀ p ∈ s.pending, p.IsKeyless) → ∀ p ∈ o.session.pending, p.IsKeyless) ∧
    ((o.session.rules = s.rules ∧ (.policy ∈ s.plugins → .policy ∈ o.session.plugins)) ∨
      (∃ r, o.session.rules = s.rules ++ [r] ∧ .policy ∈ o.session.plugins) ∨
      (o.session.rules = [] ∧ o.stop = none ∧ turnsPolicyOff line = true)) := by
  unfold runLine at h
  split at h
  · cases h
    exact ⟨id, .inl ⟨rfl, id⟩⟩
  · cases h
    exact ⟨id, .inl ⟨rfl, id⟩⟩
  · rename_i c hread
    obtain ⟨verb, args⟩ := c
    by_cases hsoft : verb = .softDelete
    · subst hsoft
      cases h
      cases hs : s.softDelete args with
      | error => exact ⟨id, .inl ⟨rfl, id⟩⟩
      | ok x =>
        obtain ⟨hrules, hpending, hplugins⟩ := softDelete_eq_ok hs
        exact ⟨fun hk p hp => hk p (hpending ▸ hp), .inl ⟨hrules, hplugins⟩⟩
    · by_cases hpolicy : verb = .policy
      · subst hpolicy
        cases h
        cases hs : s.policy args with
        | error => exact ⟨id, .inl ⟨rfl, id⟩⟩
        | ok x =>
          obtain ⟨hpending, hrules⟩ := policy_eq_ok hs
          refine ⟨fun hk p hp => hk p (hpending ▸ hp), ?_⟩
          rcases hrules with ⟨hoff, hrules⟩ | hadded
          · exact .inr (.inr ⟨hrules, rfl, by simp only [turnsPolicyOff, hread, hoff]⟩)
          · exact .inr (.inl hadded)
      · have hkeeps := (moves_run hsoft hpolicy h).keeps
        exact ⟨hkeeps.keyless, .inl ⟨hkeeps.rules, fun hp => by rwa [hkeeps.plugins]⟩⟩

/-- A line that denies a table adds the rule that denies it, if the table is that of an entity. -/
theorem exists_denied {line : Text} {o : Outcome} {name : Text}
    (h : (s.runLine line).CanEnd o) (hdeny : deniedEntity? line = some name) (hok : o.stop = none) :
    ∃ e, s.entity name = .ok e ∧ (e.table, .deny) ∈ o.session.rules := by
  unfold deniedEntity? at hdeny
  split at hdeny
  · rename_i c hread
    have hverb : c.verb = .policy := by
      unfold Command.denied? at hdeny
      split at hdeny
      · assumption
      · cases hdeny
    simp only [runLine, hread, run, hverb] at h
    cases h
    cases hs : s.policy c.arguments with
    | error =>
      rw [hs] at hok
      cases hok
    | ok y => exact policy_deny hdeny hs
  · cases hdeny

/-- What holds in every session: a rule enables the policy, and the statement asks for no key. -/
structure Guarded (s : Session) : Prop where
  enabled : s.rules ≠ [] → .policy ∈ s.plugins
  keyless : ∀ p ∈ s.pending, p.IsKeyless

theorem guarded_new (d : Dialect) : (new d).Guarded := ⟨fun h => absurd rfl h, nofun⟩

theorem Guarded.runLine {line : Text} {o : Outcome} (hs : s.Guarded)
    (h : (s.runLine line).CanEnd o) : o.session.Guarded := by
  obtain ⟨hkeyless, hrules⟩ := runLine_cases h
  refine ⟨fun hne => ?_, hkeyless hs.keyless⟩
  rcases hrules with ⟨hrules, hplugins⟩ | ⟨r, -, henabled⟩ | ⟨hrules, -⟩
  · exact hplugins (hs.enabled (hrules ▸ hne))
  · exact henabled
  · exact absurd hrules hne

theorem Guarded.run {xs : List Step} (hs : s.Guarded) (h : Run s xs s') : s'.Guarded :=
  h.induction (fun x _ hx => hx.runLine x.carried) hs

/-- A rule stays until the policy is turned off. -/
theorem mem_rules_of_run {xs : List Step} {r : Text × Rule} (h : Run s xs s') (hr : r ∈ s.rules)
    (hoff : ∀ x ∈ xs, turnsPolicyOff x.line = true → x.outcome.stop ≠ none) : r ∈ s'.rules := by
  refine h.induction (P := fun s => r ∈ s.rules) (fun x hx hr => ?_) hr
  rcases (runLine_cases x.carried).2 with ⟨hrules, -⟩ | ⟨r', hrules, -⟩ | ⟨-, hstop, hturned⟩
  · rwa [hrules]
  · rw [hrules]
    exact List.mem_append_left [r'] hr
  · exact absurd hstop (hoff x hx hturned)

/-! ### Compiling

The policy goes through the rows of a statement and asks for the conditions on the table of each. A
rule that denies the table refuses, and the statement is refused with it. -/

theorem conditionsOn_eq (s : Session) (table : Text) : s.conditionsOn table =
    (s.rules.filter fun r => r.1 = table).mapM fun r => r.2.condition := rfl

/-- The statement of a session reads or changes rows of a table. -/
def Touches (s : Session) (table : Text) : Prop :=
  ∃ p ∈ s.pending, ∃ row ∈ p.statement.rows, s.registry.table row.type = .ok table

/-- A rule that denies a table refuses it. -/
theorem conditionsOn_of_deny {table : Text} (h : (table, .deny) ∈ s.rules) :
    ∃ r, s.conditionsOn table = .error r := by
  rw [conditionsOn_eq]
  exact exists_mapM_eq_error (List.mem_filter.mpr ⟨h, decide_eq_true rfl⟩) rfl

/-- Every refusal is a denial. -/
theorem classes_of_conditionsOn {table : Text} {r : Refusal} (h : s.conditionsOn table = .error r) :
    r.classes = [.policyDenied] := by
  rw [conditionsOn_eq] at h
  obtain ⟨⟨_, rule⟩, -, hrule⟩ := exists_of_mapM_eq_error h
  cases rule with
  | filter => cases hrule
  | deny =>
    cases hrule
    rfl

/-- A policy of the session that denies a table refuses the rows that stand for it. -/
theorem conditions_of_deny {table : Text} {rows : List Param} {row : Param}
    (h : (table, .deny) ∈ s.rules) (hrow : row ∈ rows)
    (htable : s.registry.table row.type = .ok table) :
    ∃ e, Policy.conditions ⟨s.conditionsOn, s.registry⟩ rows = .error e ∧
      .policyDenied ∈ e.classes := by
  obtain ⟨e, he, rfl⟩ := Registry.table_eq_ok htable
  obtain ⟨r, hr⟩ := conditionsOn_of_deny h
  obtain ⟨y, -, r', hr', hfail⟩ := Policy.conditions_eq_error (p := ⟨s.conditionsOn, s.registry⟩)
    (mem_mappedRows_iff.mpr ⟨hrow, he⟩ : (row, e) ∈ _) hr
  refine ⟨_, hfail, ?_⟩
  have hclasses := classes_of_conditionsOn hr'
  simp only [Policy.refusal, StatementError.classes, hclasses, List.mem_singleton]

/-- The transforms of a session are its policy and soft deletions. -/
theorem transform_cases (s : Session) (ps : List Plugin) : ∀ t ∈ ps.map s.transform,
    t = .policy ⟨s.conditionsOn, s.registry⟩ ∨ ∃ r, t = .softDelete r := by
  intro t ht
  obtain ⟨p, -, rfl⟩ := List.mem_map.mp ht
  cases p with
  | softDelete rule status => exact .inr ⟨_, rfl⟩
  | policy => exact .inl rfl

/-- A statement of a session that its policy refuses is refused. -/
theorem compile_of_conditions {p : Pending} {row : Param} {e : StatementError} (hs : s.Guarded)
    (hpolicy : .policy ∈ s.plugins) (hp : s.pending = some p) (hrow : row ∈ p.statement.rows)
    {entity : Entity} (hentity : s.registry.entity row.type = .ok entity)
    (he : Policy.conditions ⟨s.conditionsOn, s.registry⟩ p.statement.rows = .error e)
    (d : Dialect) : p.statement.compile (s.plugins.map s.transform) (s.settings d) = .fail e := by
  have hmem : .policy ⟨s.conditionsOn, s.registry⟩ ∈ s.plugins.map s.transform :=
    List.mem_map.mpr ⟨.policy, hpolicy, rfl⟩
  have hkeyless := hs.keyless p hp
  cases p with
  | select q =>
    have hfail : transformAll Transform.select (s.plugins.map s.transform) q = .fail e :=
      Select.askAboutRows.refused (fun _ _ => ⟨_, rfl⟩) hmem (s.transform_cases _) he
    simp only [Pending.statement, Statement.compile, Select.compile, hfail]
    rfl
  | insert q => cases hrow
  | update q =>
    have htarget : q.target = some row := Option.mem_toList.mp hrow
    have hfail : transformAll Transform.update (s.plugins.map s.transform) q = .fail e :=
      Update.askAboutRows.refused (fun _ _ => ⟨_, rfl⟩) hmem (s.transform_cases _) he
    obtain ⟨type, fields, hassigned⟩ := hkeyless
    have hkeyed : q.keyed entity row = .ok q := by
      unfold Update.keyed
      split
      · rename_i hconst
        rw [hassigned] at hconst
        cases hconst
      · rfl
    obtain ⟨name, draft, hsource⟩ := Draft.exists_source_of_entity
      (d := .new (q.settings row (s.settings d))) hentity
    simp only [Pending.statement, Statement.compile,
      Update.compile_eq_of_keyed htarget hsource hkeyed, hfail]
    rfl
  | delete q =>
    have hsource' : q.source = some row := Option.mem_toList.mp hrow
    have hfail : transformAll Transform.delete (s.plugins.map s.transform) q = .fail e :=
      Delete.askAboutRows.refused (fun _ _ => ⟨_, rfl⟩) hmem (s.transform_cases _) he
    have hkeyed : q.keyed entity row = .ok q := by
      unfold Delete.keyed
      rw [show q.byKey = [] from hkeyless]
      rfl
    obtain ⟨name, draft, hsource⟩ := Draft.exists_source_of_entity
      (d := .new (Delete.settings (s.settings d))) hentity
    simp only [Pending.statement, Statement.compile,
      Delete.compile_eq_of_keyed hsource' hsource hkeyed, hfail]
    rfl

/-- A statement on a table that a rule denies is refused. -/
theorem compile_of_deny {table : Text} (hs : s.Guarded) (hdeny : (table, .deny) ∈ s.rules)
    (ht : s.Touches table) (d : Dialect) :
    ∃ err, s.compile d = .fail err ∧ .policyDenied ∈ err.classes := by
  obtain ⟨p, hp, row, hrow, htable⟩ := ht
  obtain ⟨e, he, hclass⟩ := conditions_of_deny hdeny hrow htable
  have hpolicy : .policy ∈ s.plugins := hs.enabled (List.ne_nil_of_mem hdeny)
  obtain ⟨entity, hentity, -⟩ := Registry.table_eq_ok htable
  have hfail := compile_of_conditions hs hpolicy hp hrow hentity he d
  refine ⟨.statement e, ?_, hclass⟩
  rw [compile, show s.pending = some p from hp]
  simp only [hfail]
  rfl

end Session

/-- **A denied table stays denied.** Once a command has denied the table of an entity, and as long
as no command turns the policy off, a selection, update or deletion that touches the table does not
compile for any dialect: it is refused because the policy denies it, whatever else is run. -/
theorem denied_of_policy_deny {d₀ : Dialect} {before after : List Step} {x : Step} {s : Session}
    {name : Text} (h : Run (.new d₀) (before ++ x :: after) s)
    (hdeny : deniedEntity? x.line = some name) (hok : x.outcome.stop = none)
    (hoff : ∀ y ∈ after, turnsPolicyOff y.line = true → y.outcome.stop ≠ none) :
    ∃ e, x.start.entity name = .ok e ∧ (s.Touches e.table → ∀ d, ∃ err,
      s.compile d = .fail err ∧ .policyDenied ∈ err.classes) := by
  obtain ⟨s₁, hbefore, hrun⟩ := h.append
  have hguarded := (Session.guarded_new d₀).run h
  cases hrun with
  | cons _ hafter =>
    obtain ⟨e, he, hrule⟩ := Session.exists_denied x.carried hdeny hok
    exact ⟨e, he, Session.compile_of_deny hguarded (Session.mem_rules_of_run hafter hrule hoff)⟩

end Shell

/-! ### Customers that are denied -/

namespace Sample

open Shell

/-- A line that is run in a world. -/
def stepIn (w : World) (s : Session) (line : Text) : Step :=
  ⟨s, line, (w.carryOut (s.runLine line)).1, w.canEnd_carryOut _⟩

/-- Lines that are run in a world one after the other. -/
def stepsIn : World → Session → List Text → List Step
  | _, _, [] => []
  | w, s, line :: lines =>
    stepIn w s line ::
      stepsIn (w.carryOut (s.runLine line)).2 (stepIn w s line).outcome.session lines

theorem run_stepsIn (w : World) (s : Session) (lines : List Text) :
    Run s (stepsIn w s lines) (after s w lines).1 := by
  induction lines generalizing w s with
  | nil => exact .nil s
  | cons line lines ih => exact .cons (stepIn w s line) (ih _ _)

theorem stepsIn_append (w : World) (s : Session) (lines more : List Text) :
    stepsIn w s (lines ++ more) =
      stepsIn w s lines ++ stepsIn (after s w lines).2 (after s w lines).1 more := by
  induction lines generalizing w s with
  | nil => rfl
  | cons line lines ih =>
    rw [List.cons_append, stepsIn, ih]
    rfl

theorem line_mem_of_mem_stepsIn {w : World} {s : Session} {lines : List Text} {x : Step}
    (h : x ∈ stepsIn w s lines) : x.line ∈ lines := by
  induction lines generalizing w s with
  | nil => cases h
  | cons line lines ih =>
    rcases List.mem_cons.mp h with rfl | h
    · exact List.mem_cons_self
    · exact List.mem_cons_of_mem line (ih h)

/-- The definition of customers. -/
def defineCustomer : List Text := ["entity customer id:int:pk name:string"]

/-- Lines after customers are denied. They do not turn the policy off. -/
def askForCustomers : List Text :=
  ["softdelete", "update customer set name = 'x' where customer.id = 1", "policy of",
    "from customer c"]

/-- The session in which customers are denied and then asked for. -/
def denied : Session :=
  (after (.new .sqlServer) ⟨[], [], []⟩
    (defineCustomer ++ ("policy deny Customer" : Text) :: askForCustomers)).1

end Sample

open Sample Shell

theorem denied_of_policy_deny_customers :
    ∃ err, denied.compile .postgres = .fail err ∧ .policyDenied ∈ err.classes := by
  have run := run_stepsIn ⟨[], [], []⟩ (.new .sqlServer)
    (defineCustomer ++ ("policy deny Customer" : Text) :: askForCustomers)
  rw [stepsIn_append, stepsIn] at run
  have off : ∀ line ∈ askForCustomers, turnsPolicyOff line = false := by decide
  obtain ⟨e, he, hdenied⟩ := denied_of_policy_deny run
    (by decide : _ = some ("Customer" : Text)) (by decide) fun y hy hoff => by
      rw [off y.line (line_mem_of_mem_stepsIn hy)] at hoff
      cases hoff
  have table : ((after (.new .sqlServer) ⟨[], [], []⟩ defineCustomer).1.entity
      "Customer").toOption.map (·.table) = some ("customers" : Text) := by
    decide
  have touched : denied.pending.toList.flatMap (fun p => p.statement.rows.map fun row =>
      (denied.registry.table row.type).toOption) = [some ("customers" : Text)] := by
    decide
  refine hdenied ?_ .postgres
  replace he : (after (.new .sqlServer) ⟨[], [], []⟩ defineCustomer).1.entity "Customer" =
      .ok e := he
  rw [he] at table
  have hname : e.table = ("customers" : Text) := Option.some.inj table
  have hmem : some e.table ∈ [some ("customers" : Text)] := by
    rw [hname]
    exact List.mem_singleton_self _
  rw [← touched] at hmem
  obtain ⟨p, hp, hmem⟩ := List.mem_flatMap.mp hmem
  obtain ⟨row, hrow, htable⟩ := List.mem_map.mp hmem
  exact ⟨p, Option.mem_toList.mp hp, row, hrow, eq_ok_of_toOption htable⟩

end QueryTree
