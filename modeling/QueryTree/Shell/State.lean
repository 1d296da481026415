import QueryTree.Shell.Run
import QueryTree.Stateful

/-!
# States of sessions

A session as its commands change it, field by field. What it knows of its statement is spread over
the kind of statement, one place for a statement of each kind, and two maps that give an alias its
row and its entity. Nothing in the type keeps them in step: that is left to the commands, each of
which changes the fields one after the other and may stop on the way. What has been changed then
stays changed, unless the command puts it back itself.

A statement that is missing where the kind says that there is one, and an alias that has a row but
no entity, lead to faults wherever they are used.

`State.view` puts the fields together into a `Session`.

## Main definitions

* `State`, `State.new`
* `Doing`: computations that change a state
* `State.bind`, `State.unbind`, `State.resetStatement`: what commands do to the fields
* `State.current`, `State.view`
* `State.run`, `State.runLine`
-/

namespace QueryTree.Shell

/-- What the commands of a session have set up, field by field. -/
structure State where
  dialect : Dialect
  registry : Registry
  entities : List Declared
  /-- The rows that aliases stand for. -/
  aliases : List (Text × Param)
  /-- The entities of these rows. -/
  bound : List (Text × Declared)
  mode : Mode
  query : Option Select
  insertQuery : Option Insert
  updateQuery : Option Update
  deleteQuery : Option Delete
  plugins : List Plugin
  rules : List (Text × Rule)
  quoted : Bool
  connection : Option Dialect
  lastDsn : Text
  /-- A number that no row parameter in use has. -/
  fresh : Nat

/-- What a command leaves behind: the state, what it printed, and why it stopped if it did. -/
structure Reaction where
  state : State
  output : Text
  stop : Option (Stop ShellError)

namespace State

/-- A state for a dialect in which nothing is set up. -/
def new (d : Dialect) : State :=
  ⟨d, .standard, [], [], [], .select, none, none, none, none, [], [], false, none, [], 0⟩

/-! ### The statement -/

/-- The statement of a kind, if there is one. -/
def statement? (s : State) : Mode → Option Pending
  | .select => s.query.map .select
  | .insert => s.insertQuery.map .insert
  | .update => s.updateQuery.map .update
  | .delete => s.deleteQuery.map .delete

/-- The statement of the mode, if it is there. -/
def pending (s : State) : Option Pending := s.statement? s.mode

/-- The statement that is being built. Only a selection may be missing. -/
def current (s : State) : Attempt ShellError (Option Pending) :=
  if s.mode ≠ .select && s.pending.isNone then .fault else .ok s.pending

/-- The aliases that have a row and an entity. -/
def namedRows (s : State) : List (Text × Param × Declared) :=
  s.aliases.filterMap fun (name, p) => (s.bound.lookup name).map fun e => (name, p, e)

/-- The state as a session that builds a statement. -/
def staged (s : State) (p : Option Pending) : Session :=
  { dialect := s.dialect
    registry := s.registry
    entities := s.entities
    aliases := s.namedRows
    pending := p
    plugins := s.plugins
    rules := s.rules
    quoted := s.quoted
    connection := s.connection
    lastDsn := s.lastDsn
    fresh := s.fresh }

/-- The state as a session. -/
def view (s : State) : Session := s.staged s.pending

end State

/-- A computation that changes a state. -/
abbrev Doing (α : Type) := Stateful (Stop ShellError) State α

namespace Doing

variable {α : Type}

/-- Stops with an error. -/
def refuse (e : ShellError) : Doing α := throw (.error e)

/-- Stops with a fault. -/
def fault : Doing α := throw .fault

/-- The alias that an error is about, if it is one that does not resolve. -/
def unknownAlias? : ShellError → Option Text
  | .parse (.unknownAlias name) => some name
  | .inside _ cause => unknownAlias? cause
  | _ => none

/-- Reads something in which aliases may occur. Reading stops at the first alias that lacks its row
or its entity; if it has the row but no entity, that is a fault. -/
def read (f : Session → Except ShellError α) : Doing α := do
  let s ← get
  match f s.view with
  | .ok a => return a
  | .error e =>
    let lost := fun name => (s.aliases.lookup name).isSome && (s.bound.lookup name).isNone
    if (unknownAlias? e).any lost then fault else refuse e

/-- The result of something that may be refused. -/
def ofExcept : Except ShellError α → Doing α
  | .ok a => return a
  | .error e => refuse e

/-- Carries out `undo` if `x` is refused. -/
def undoing (x : Doing α) (undo : Doing Unit) : Doing α :=
  tryCatch x fun cause => do
    if let .error _ := cause then undo
    throw cause

end Doing

namespace State

open Doing

/-! ### Aliases and statements -/

/-- The state without a statement and aliases. -/
def cleared (s : State) : State :=
  { s with
    mode := .select
    query := none
    insertQuery := none
    updateQuery := none
    deleteQuery := none
    aliases := []
    bound := [] }

/-- Discards the statement with its aliases. -/
def resetStatement : Doing Unit := modify cleared

/-- A new row parameter for the rows of an entity. -/
def newRow (e : Declared) (name : Text) : Doing Param := do
  let s ← get
  set { s with fresh := s.fresh + 1 }
  return ⟨s.fresh, name, some e.type⟩

/-- The number of a row parameter that nothing refers to any more is free again. -/
def release (p : Param) : Doing Unit := modify fun s => { s with fresh := p.id }

/-- The state in which an alias has a row and its entity. -/
def withAlias (s : State) (name : Text) (p : Param) (e : Declared) : State :=
  { s with
    aliases := s.aliases ++ [(name, p)]
    bound := (s.bound.filter fun b => b.1 ≠ name) ++ [(name, e)] }

/-- Binds an alias to a new row of an entity. -/
def bind (e : Declared) (name : Text) : Doing Param := do
  if ((← get).aliases.lookup name).isSome then refuse (.aliasTaken name)
  else if !Session.isAlias name then refuse (.aliasName name)
  else
    let p ← newRow e name
    modify (·.withAlias name p e)
    return p

/-- Takes an alias back. -/
def unbind (name : Text) (p : Param) : Doing Unit := do
  modify fun s =>
    { s with
      aliases := s.aliases.filter fun a => a.1 ≠ name
      bound := s.bound.filter fun b => b.1 ≠ name }
  release p

/-- Discards the statement whose row is `p`. -/
def discard (p : Param) : Doing Unit := do
  resetStatement
  release p

/-- The selection that is being built. -/
def requireSelect : Doing Select := do
  let s ← get
  match s.mode, s.query with
  | .select, some q => return q
  | _, _ => refuse .noQuery

/-- Replaces the selection. -/
def setQuery (q : Select) : Doing Unit := modify fun s => { s with query := some q }

/-! ### Selections -/

/-- Starts a selection from the rows of an entity. -/
def from_ (args : Text) : Doing Text := do
  let (e, name) ← read fun s => (s.entityAndAlias args.fields).mapError (.inside "from")
  resetStatement
  let p ← bind e name
  setQuery (.all (some p))
  return "  Query FROM " ++ e.table ++ " AS " ++ name ++ "\n"

/-- Joins the rows of an entity, on a condition if one is given. The alias is bound before the
condition is read, and taken back if this is refused. -/
def join (kind : JoinKind) (args : Text) : Doing Text := do
  let q ← requireSelect
  let (head, condition) := Session.splitOn (Token.scan args)
  let (e, name) ← read fun s => (s.entityAndAlias head).mapError (.inside "join")
  let p ← bind e name
  let on ← match condition with
    | some ts => undoing (read fun s => (s.parse ts).mapError (.inside "join")) (unbind name p)
    | none => pure .hole
  setQuery (q.addJoin ⟨kind, some p, on⟩)
  return "  " ++ kind.keywords ++ " " ++ e.table ++ " AS " ++ name ++ "\n"

/-- Sets the projection; a star selects all columns. -/
def select (args : Text) : Doing Text := do
  let q ← requireSelect
  if args = ("*" : Text) then
    setQuery (q.project [])
    return "  Projection cleared (SELECT *)\n"
  else
    let parts := Token.splitCommas (Token.scan args)
    let items ← read fun s => (s.projection parts).mapError (.inside "select")
    setQuery (q.project items)
    return "  Projection set (" ++ Text.ofNat parts.length ++ " columns)\n"

/-- Selects different rows only. -/
def distinct : Doing Text := do
  let q ← requireSelect
  setQuery { q with distinct := true }
  return "  DISTINCT enabled\n"

/-- Adds a condition to the statement of the mode. -/
def where_ (args : Text) : Doing Text := do
  let e ← read fun s => (s.parse (Token.scan args)).mapError (.inside "where")
  let s ← get
  match s.mode with
  | .update =>
    match s.updateQuery with
    | some q => set { s with updateQuery := some { q with wheres := q.wheres ++ [e] } }
    | none => fault
  | .delete =>
    match s.deleteQuery with
    | some q => set { s with deleteQuery := some { q with wheres := q.wheres ++ [e] } }
    | none => fault
  | .insert => refuse .whereInInsert
  | .select =>
    match s.query with
    | some q => set { s with query := some { q with wheres := q.wheres ++ [e] } }
    | none => refuse .noQuery
  return "  WHERE condition added\n"

/-- Adds groups. -/
def group (args : Text) : Doing Text := do
  let q ← requireSelect
  let groups ← read fun s =>
    ((Token.splitCommas (Token.scan args)).mapM s.parse).mapError (.inside "group")
  setQuery { q with groups := q.groups ++ groups }
  return "  GROUP BY set (" ++ Text.ofNat groups.length ++ " columns)\n"

/-- Adds a condition on groups. -/
def having (args : Text) : Doing Text := do
  let q ← requireSelect
  let e ← read fun s => (s.parse (Token.scan args)).mapError (.inside "having")
  setQuery { q with havings := q.havings ++ [e] }
  return "  HAVING condition added\n"

/-- Adds the items of an ordering one after the other. -/
def addOrders : List (List Token) → Doing Unit
  | [] => return ()
  | part :: parts => do
    let (ts, direction) := Session.splitDirection part
    let e ← read fun s => (s.parse ts).mapError (.inside "order")
    let q ← requireSelect
    setQuery { q with orders := q.orders ++ [(e, [direction])] }
    addOrders parts

/-- Adds an ordering. -/
def order (args : Text) : Doing Text := do
  let _ ← requireSelect
  let parts := Token.splitCommas (Token.scan args)
  addOrders parts
  return "  ORDER BY set (" ++ Text.ofNat parts.length ++ " columns)\n"

/-- Bounds the number of rows. -/
def limit (args : Text) : Doing Text := do
  let q ← requireSelect
  let n ← ofExcept (Session.rowCount args "limit")
  setQuery { q with limit := n }
  return "  LIMIT " ++ Text.ofInt n ++ "\n"

/-- Skips rows. -/
def offset (args : Text) : Doing Text := do
  let q ← requireSelect
  let n ← ofExcept (Session.rowCount args "offset")
  setQuery { q with offset := n }
  return "  OFFSET " ++ Text.ofInt n ++ "\n"

/-! ### Insertions, updates and deletions -/

/-- Starts an insertion. -/
def insert (args : Text) : Doing Text := do
  match Token.scan args with
  | name :: a :: b :: c :: ts =>
    let e ← read (·.entity name)
    resetStatement
    let assigned ← read fun s => (s.assignments e (a :: b :: c :: ts)).mapError (.inside "insert")
    let p ← newRow e e.name
    modify fun s =>
      { s with insertQuery := some ⟨some p, [.new none assigned], false⟩, mode := .insert }
    return "  INSERT INTO " ++ e.table ++ " (" ++ Text.ofNat assigned.length ++ " values)\n"
  | _ => refuse (.usage "insert <entity> <field>=<value> ...")

/-- The entity whose rows a parameter stands for. -/
def entityOfParam? (s : State) (p : Param) : Option Declared :=
  s.entities.find? fun e => p.type = some e.type

/-- Adds another row to an insertion. -/
def values (args : Text) : Doing Text := do
  let s ← get
  if s.mode ≠ .insert then refuse .noInsert
  else match s.insertQuery with
    | none => fault
    | some q =>
      match q.target.bind s.entityOfParam? with
      | none => fault
      | some e =>
        let assigned ← read fun s => (s.assignments e (Token.scan args)).mapError (.inside "values")
        let values := q.values ++ [.new none assigned]
        modify fun s => { s with insertQuery := some { q with values := values } }
        return "  Row " ++ Text.ofNat values.length ++ " added\n"

/-- Starts an update. It is discarded if its assignments or its condition are refused. -/
def update (args : Text) : Doing Text := do
  match Token.scan args with
  | name :: word :: a :: b :: c :: ts =>
    if !word.equalFold "set" then refuse Session.update.usage
    else
      let e ← read (·.entity name)
      resetStatement
      let p ← bind e e.name
      let (assigning, condition) := Session.splitWhere (a :: b :: c :: ts)
      let assigned ← undoing
        (read fun s => (s.assignments e assigning).mapError (.inside "update")) (discard p)
      let wheres ← undoing (read (·.condition condition)) (discard p)
      modify fun s =>
        { s with
          updateQuery := some ⟨some p, .new none assigned, wheres, false⟩
          mode := .update }
      return "  UPDATE " ++ e.table ++ " (" ++ Text.ofNat assigned.length ++ " assignments)\n"
  | _ => refuse Session.update.usage

/-- Starts a deletion. It is discarded if its condition is refused. -/
def delete (args : Text) : Doing Text := do
  match Token.scan args with
  | [] => refuse (.usage "delete <entity> [where <expr>]")
  | name :: ts =>
    let e ← read (·.entity name)
    resetStatement
    let p ← bind e e.name
    let wheres ← match ts with
      | [] => pure []
      | word :: rest =>
        if word.equalFold "where" then undoing (read (·.condition (some rest))) (discard p)
        else do
          discard p
          refuse (.inside "delete" (.trailing word))
    modify fun s => { s with deleteQuery := some ⟨some p, wheres, []⟩, mode := .delete }
    return "  DELETE FROM " ++ e.table ++ "\n"

/-! ### Commands -/

/-- What a computation leaves behind. -/
def react (s : State) (x : Doing Text) : Reaction :=
  match Stateful.result x s with
  | (.ok output, s) => ⟨s, output, none⟩
  | (.error stop, s) => ⟨s, [], some stop⟩

/-- The state with all that is not about the statement taken from a session. -/
def settled (s : State) (o : Outcome) : Reaction where
  state :=
    { s with
      dialect := o.session.dialect
      registry := o.session.registry
      entities := o.session.entities
      plugins := o.session.plugins
      rules := o.session.rules
      quoted := o.session.quoted
      connection := o.session.connection
      lastDsn := o.session.lastDsn
      fresh := o.session.fresh }
  output := o.output
  stop := o.stop

/-- Runs a command that is not about the statement. It changes the other fields alone, as it does in
a session. -/
def settling (s : State) (c : Command) : Plan Reaction := (s.view.run c).map s.settled

/-- Runs a command that looks at the statement, which must be there. -/
def looking (s : State) (c : Command) : Plan Reaction :=
  match s.current with
  | .ok p => ((s.staged p).run c).map s.settled
  | .error stop => .done ⟨s, [], some stop⟩

/-- Runs a command. -/
def run (s : State) (c : Command) : Plan Reaction :=
  let args := c.arguments
  match c.verb with
  | .source => .done (s.react (from_ args))
  | .select => .done (s.react (select args))
  | .distinct => .done (s.react distinct)
  | .filter => .done (s.react (where_ args))
  | .group => .done (s.react (group args))
  | .having => .done (s.react (having args))
  | .order => .done (s.react (order args))
  | .limit => .done (s.react (limit args))
  | .offset => .done (s.react (offset args))
  | .join kind => .done (s.react (join kind args))
  | .insert => .done (s.react (insert args))
  | .values => .done (s.react (values args))
  | .update => .done (s.react (update args))
  | .delete => .done (s.react (delete args))
  | .reset => .done (s.react do
      resetStatement
      return "  Statement cleared\n")
  | .sql | .inline | .all => s.looking c
  | .dot => if args.isEmpty then s.settling c else s.looking c
  | .execute => if s.connection.isNone then s.settling c else s.looking c
  | .help | .entity | .load | .entities | .dialect | .quoted | .softDelete | .policy | .plugins
  | .connect | .disconnect => s.settling c

/-- Runs a line of the command language. -/
def runLine (s : State) (line : Text) : Plan Reaction :=
  match Command.read line with
  | .error e => .done ⟨s, [], some (.error e)⟩
  | .ok none => .done ⟨s, [], none⟩
  | .ok (some c) => s.run c

end State

/-- What a command leaves behind, with the state as a session. -/
def Reaction.view (r : Reaction) : Outcome := ⟨r.state.view, r.output, r.stop⟩

end QueryTree.Shell
