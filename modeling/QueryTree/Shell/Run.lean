import QueryTree.Dsn.MySql
import QueryTree.Shell.Change
import QueryTree.Shell.Command
import QueryTree.Shell.Database
import QueryTree.Shell.Plugins
import QueryTree.Shell.Query
import QueryTree.Shell.Report
import QueryTree.Shell.Schema

/-!
# Running commands

What each command does to a session. The commands that need files or a database are plans with one
request; all others have their outcome at once.

## Main definitions

* `Session.define`, `Session.load`: entities
* `Session.connect`, `Session.disconnect`, `Session.execute`: databases
* `Session.run`: a command
* `Session.runLine`: a line of the command language
-/

namespace QueryTree.Shell.Session

/-! ### Settings -/

/-- Shows the dialect or sets it. -/
def setDialect (s : Session) (args : Text) : Except ShellError (Session × Text) :=
  if args.isEmpty then .ok (s, "  Dialect: " ++ s.dialect.name ++ "\n")
  else match Dialect.parse? args with
    | none => .error (.unknownDialect args)
    | some d =>
      match s.connection with
      | some c =>
        if c = d then .ok ({ s with dialect := d }, "  Dialect set to " ++ d.name ++ "\n")
        else .error (.otherDatabase c)
      | none => .ok ({ s with dialect := d }, "  Dialect set to " ++ d.name ++ "\n")

/-- The position of a switch. -/
def switch? (t : Text) : Option Bool :=
  let words : List (Text × Bool) := [("on", true), ("true", true), ("yes", true), ("off", false),
    ("false", false), ("no", false)]
  words.lookup t.toLower

/-- Turns the quoting of all identifiers on or off. -/
def setQuoted (s : Session) (args : Text) : Except ShellError (Session × Text) :=
  match switch? args with
  | none => .error (.usage "quoted on|off")
  | some b =>
    .ok ({ s with quoted := b },
      "  Quoted identifiers " ++ (if b then "on" else "off" : Text) ++ "\n")

/-! ### Entities -/

/-- Defines an entity. -/
def define (s : Session) (d : EntityDef) : Attempt ShellError (Session × Text) :=
  if (s.entity? d.name).isSome then .fail (.alreadyDefined d.name)
  else do
    let e ← d.declare.mapError .definition
    return ({ s with
        entities := s.entities ++ [e]
        registry := s.registry.register (some e.type) e.table },
      "  Entity " ++ e.name ++ " -> " ++ e.table ++ " (" ++ Text.ofNat e.members.length
        ++ " fields)\n")

/-- Defines entities one after the other, up to the first that is refused. -/
def defineAll (s : Session) : List EntityDef → Outcome
  | [] => .success s []
  | d :: ds =>
    match s.define d with
    | .error stop => ⟨s, [], some stop⟩
    | .ok (s, output) =>
      let rest := defineAll s ds
      { rest with output := output ++ rest.output }

/-- Defines the entity that arguments describe. -/
def defineEntity (s : Session) (args : Text) : Attempt ShellError (Session × Text) :=
  match EntityDef.read args with
  | .error e => .fail (.definition e)
  | .ok d => s.define d

/-- Defines the entities of a schema document. -/
def load (s : Session) (path : Text) : Plan Outcome :=
  if path.isEmpty then .done (.refusal s (.usage "load <schema.yaml>"))
  else .read path fun answer =>
    match answer.bind Schema.read with
    | .error m => .refusal s (.inside ("load " ++ path) (.reported m))
    | .ok ds => s.defineAll ds

/-! ### Databases -/

/-- The session after a connection to a database, or without one. -/
def connected (s : Session) (dsn : Text) : Except Text (List Text) → Outcome
  | .error m => .refusal s (.reported m)
  | .ok tables =>
    .success { s with connection := some s.dialect, lastDsn := dsn }
      ("  Connected to " ++ Dsn.masked dsn ++ " (" ++ Text.ofNat tables.length ++ " tables)\n")

/-- Connects to a database, the last one if none is named. An earlier connection is closed. -/
def connect (s : Session) (args : Text) : Plan Outcome :=
  let dsn := if args.isEmpty then s.lastDsn else args
  if dsn.isEmpty then .done (.refusal s (.usage "connect <dsn>"))
  else
    let s := { s with connection := none }
    match Database.driver? s.dialect, Dsn.Config.parse dsn with
    | none, _ => .done (.refusal s (.noDriver s.dialect))
    | some _, .error e =>
      if s.dialect = .mySql then .done (.refusal s (.inside "open" (.reported e.message)))
      else .connect s.dialect dsn (s.connected dsn)
    | some _, .ok _ => .connect s.dialect dsn (s.connected dsn)

/-- Closes the connection. -/
def disconnect (s : Session) : Outcome :=
  if s.connection.isNone then .refusal s .noDatabase
  else .success { s with connection := none } "  Disconnected\n"

/-- Runs the statement on the database. -/
def execute (s : Session) : Plan Outcome :=
  if s.connection.isNone then .done (.refusal s .noDatabase)
  else match s.compile s.dialect with
    | .error stop => .done ⟨s, [], some stop⟩
    | .ok d =>
      let args := d.args.map Database.argument
      match s.pending with
      | some (.select _) => .query d.text args fun answer =>
        match answer with
        | .error m => .refusal s (.inside "query" (.reported m))
        | .ok rows => .ofReport s rows.table
      | _ => .execute d.text args fun answer =>
        match answer with
        | .error m => .refusal s (.inside "exec" (.reported m))
        | .ok effect => .ofExcept s (effect.report.map (s, ·))

/-! ### Commands -/

/-- Runs a command. -/
def run (s : Session) (c : Command) : Plan Outcome :=
  let args := c.arguments
  match c.verb with
  | .sql => .done (.ofReport s s.showSql)
  | .inline => .done (.ofReport s s.showInline)
  | .all => .done s.showAll
  | .dot => s.dot args
  | .reset => .done (.success s.cleared "  Statement cleared\n")
  | .help => .done (.success s helpText)
  | .entity => .done (.ofAttempt s (s.defineEntity args))
  | .load => s.load args
  | .entities => .done (.success s s.listEntities)
  | .source => .done (s.from_ args)
  | .select => .done (.ofExcept s (s.select args))
  | .distinct => .done (.ofExcept s s.distinct)
  | .filter => .done (.ofExcept s (s.where_ args))
  | .group => .done (.ofExcept s (s.group args))
  | .having => .done (.ofExcept s (s.having args))
  | .order => .done (s.order args)
  | .limit => .done (.ofExcept s (s.limit args))
  | .offset => .done (.ofExcept s (s.offset args))
  | .join kind => .done (.ofExcept s (s.join kind args))
  | .insert => .done (s.insert args)
  | .values => .done (.ofAttempt s (s.values args))
  | .update => .done (s.update args)
  | .delete => .done (s.delete args)
  | .dialect => .done (.ofExcept s (s.setDialect args))
  | .quoted => .done (.ofExcept s (s.setQuoted args))
  | .softDelete => .done (.ofAttempt s (s.softDelete args))
  | .policy => .done (.ofExcept s (s.policy args))
  | .plugins => .done (.success s s.listPlugins)
  | .connect => s.connect args
  | .disconnect => .done s.disconnect
  | .execute => s.execute

/-- Runs a line of the command language. -/
def runLine (s : Session) (line : Text) : Plan Outcome :=
  match Command.read line with
  | .error e => .done (.refusal s e)
  | .ok none => .done (.success s [])
  | .ok (some c) => s.run c

end QueryTree.Shell.Session
