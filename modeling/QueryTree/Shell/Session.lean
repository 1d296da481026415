import QueryTree.Shell.Error
import QueryTree.Statement.Compile
import QueryTree.Value.Clock

/-!
# Sessions

A session holds what the commands before have set up: the entities that are defined, the statement
that is being built with the aliases of its rows, the dialect it is meant for, and the plugins that
alter it when it is compiled. There is at most one statement, and its kind is that of the
statement itself.

## Main definitions

* `Pending`, `Mode`: a statement that is being built, and its kind
* `Plugin`, `Rule`: what alters statements
* `Session`, `Session.new`
* `Session.bind`, `Session.resolve`: aliases of rows
* `Session.compile`: the SQL of the statement for a dialect
-/

namespace QueryTree.Shell

/-- A statement that is being built. -/
inductive Pending where
  | select (s : Select)
  | insert (s : Insert)
  | update (s : Update)
  | delete (s : Delete)

/-- The pending statement as a statement. -/
def Pending.statement : Pending → Statement
  | select s => .select s
  | insert s => .insert s
  | update s => .update s
  | delete s => .delete s

/-- The kind of a statement. -/
inductive Mode where
  | select | insert | update | delete
  deriving DecidableEq, Repr

/-- The name of a kind of statement. -/
def Mode.name : Mode → Text
  | select => "select"
  | insert => "insert"
  | update => "update"
  | delete => "delete"

/-- A rule of a policy for the rows of a table. -/
inductive Rule where
  /-- Only the rows that satisfy a condition on `row` count. -/
  | filter (row : Param) (condition : Expr)
  /-- No statement may touch the table. -/
  | deny

/-- Something that is enabled and alters statements. -/
inductive Plugin where
  /-- Soft deletion, shown as `status`. Its registry is that of the session. -/
  | softDelete (rule : SoftDelete) (status : Text)
  /-- The rules of the session. -/
  | policy

namespace Plugin

/-- The name of a plugin. -/
def name : Plugin → Text
  | softDelete .. => "softdelete"
  | policy => "policy"

/-- The colour of what a plugin adds to a statement. -/
def color : Plugin → Text
  | softDelete .. => "#CC6666"
  | policy => "#6A5ACD"

/-- The plugins with one more, in the place of an earlier one of its name. -/
def register (ps : List Plugin) (p : Plugin) : List Plugin :=
  if ps.any fun q => q.name = p.name then ps.map fun q => if q.name = p.name then p else q
  else ps ++ [p]

/-- The plugins without the one of a name. -/
def deregister (ps : List Plugin) (name : Text) : List Plugin := ps.filter fun q => q.name ≠ name

end Plugin

/-- What the commands of a session have set up. -/
structure Session where
  dialect : Dialect
  registry : Registry
  entities : List Declared
  /-- The aliases of rows, in the order in which they were bound. -/
  aliases : List (Text × Param × Declared)
  pending : Option Pending
  plugins : List Plugin
  /-- The rules of the policy with their tables, in the order in which they were added. -/
  rules : List (Text × Rule)
  quoted : Bool
  /-- The dialect of the database that the session is connected to. -/
  connection : Option Dialect
  lastDsn : Text
  /-- A number that no row parameter of the session has. -/
  fresh : Nat

namespace Session

/-- A session for a dialect in which nothing is set up. -/
def new (d : Dialect) : Session :=
  ⟨d, .standard, [], [], none, [], [], false, none, [], 0⟩

/-- The session without a statement. -/
def cleared (s : Session) : Session := { s with pending := none, aliases := [] }

/-- The kind of statement that is being built; a selection if there is none. -/
def mode (s : Session) : Mode :=
  match s.pending with
  | some (.insert _) => .insert
  | some (.update _) => .update
  | some (.delete _) => .delete
  | some (.select _) | none => .select

/-- The aliases with the names of their entities, in order. -/
def aliasNames (s : Session) : List Text :=
  Text.sort (s.aliases.map fun (name, _, e) => name ++ ":" ++ e.name)

/-! ### Entities and aliases -/

/-- The entity of a name, in any case. -/
def entity? (s : Session) (name : Text) : Option Declared :=
  s.entities.find? fun e => e.name.toLower = name.toLower

/-- The entity of a name, which must be defined. -/
def entity (s : Session) (name : Text) : Except ShellError Declared :=
  match s.entity? name with
  | some e => .ok e
  | none => .error (.unknownEntity name)

/-- The row and entity of an alias. -/
def resolve (s : Session) : Resolver := fun name =>
  match s.aliases.lookup name with
  | some bound => .ok bound
  | none => .error (.unknownAlias name)

/-- The expression that tokens make up. -/
def parse (s : Session) (ts : List Token) : Except ShellError Expr :=
  (Grammar.parse (some s.resolve) ts).mapError .parse

/-- A new row parameter for the rows of an entity. -/
def row (s : Session) (e : Declared) (name : Text) : Param × Session :=
  (⟨s.fresh, name, some e.type⟩, { s with fresh := s.fresh + 1 })

/-- Whether a text can be an alias. -/
def isAlias (name : Text) : Bool := Token.isIdentifier name && !name.elem (byte '.')

/-- Binds an alias to a new row of an entity. -/
def bind (s : Session) (e : Declared) (name : Text) : Except ShellError (Param × Session) :=
  if (s.aliases.lookup name).isSome then .error (.aliasTaken name)
  else if !isAlias name then .error (.aliasName name)
  else
    let (p, s) := s.row e name
    .ok (p, { s with aliases := s.aliases ++ [(name, p, e)] })

/-- The entity and alias that words name; the alias is the name of the entity unless given. -/
def entityAndAlias (s : Session) : List Text → Except ShellError (Declared × Text)
  | [name] => do
    let e ← s.entity name
    return (e, e.name)
  | [name, rowName] => do return (← s.entity name, rowName)
  | _ => .error .entityAndAlias

/-! ### Compiling -/

/-- The conditions on the rows of a table, or the refusal if a rule denies it. -/
def conditionsOn (s : Session) (table : Text) : Except Refusal (List Expr) :=
  (s.rules.filter fun r => r.1 = table).mapM fun (_, r) =>
    match r with
    | .filter p e => .ok (.lambda e [p])
    | .deny => .error ⟨"access denied", [.policyDenied]⟩

/-- What a plugin does to statements of the session. -/
def transform (s : Session) : Plugin → Transform
  | .softDelete rule _ => .softDelete { rule with registry := s.registry }
  | .policy => .policy ⟨s.conditionsOn, s.registry⟩

/-- How statements are compiled for a dialect. -/
def settings (s : Session) (d : Dialect) : Settings :=
  ⟨d, .standard, s.registry, none, false, false, s.quoted⟩

/-- The SQL of the statement for a dialect. -/
def compile (s : Session) (d : Dialect) : Attempt ShellError Draft :=
  match s.pending with
  | none => .fail .noQuery
  | some p =>
    (p.statement.compile (s.plugins.map s.transform) (s.settings d)).mapError .statement

/-- The text of the statement for the dialect of the session. -/
def sqlText (s : Session) : Attempt ShellError Text := do return (← s.compile s.dialect).text

/-- The selection that is being built. -/
def selection (s : Session) : Except ShellError Select :=
  match s.pending with
  | some (.select q) => .ok q
  | _ => .error .noQuery

/-- The session with its selection replaced. -/
def withSelection (s : Session) (q : Select) : Session := { s with pending := some (.select q) }

end Session

end QueryTree.Shell
