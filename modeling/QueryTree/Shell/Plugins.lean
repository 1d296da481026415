import QueryTree.Shell.Plan
import QueryTree.Text.Title

/-!
# Enabling plugins

The commands that enable and disable soft deletion and the rules of the policy.

## Main definitions

* `Session.softDelete`: soft deletion
* `Session.policy`: rules on the rows of tables
* `Session.pluginStatus`: how a plugin is shown
-/

namespace QueryTree.Shell

namespace SoftDelete

/-- Soft deletion on the member `DeletedAt`. -/
def base : SoftDelete := .standard .standard

/-- The parts of a list of pairs, without blanks around them and without empty ones. -/
def pairTexts (t : Text) : List Text :=
  ((t.splitByte (byte ',')).map Text.trimSpace).filter fun p => !p.isEmpty

/-- A table and the member that marks its rows. -/
def pair (t : Text) : Except ShellError (Text × Text) :=
  match t.cut? (byte '.') with
  | some (table, field) =>
    if table.isEmpty || field.isEmpty then .error (.fieldPair t) else .ok (table, field.exported)
  | none => .error (.fieldPair t)

/-- Soft deletion with a member for each of some tables. -/
def ofPairs (t : Text) : Except ShellError (SoftDelete × Text) := do
  let pairs ← (pairTexts t).mapM pair
  let rule := pairs.foldl (fun r (table, field) => r.withTableField table field) base
  return (rule, Text.join ", " (Text.sort (pairTexts t)))

/-- Soft deletion on a member, restricted to the tables after the word `on`, which stands at
offset `i`. The offset is one in the text in lower case, so it may lie beyond the text. -/
def onTables (t : Text) (i : Nat) : Attempt ShellError (SoftDelete × Text) :=
  if t.length < i + 4 then .fault
  else
    let field := (Text.trimSpace (t.take i)).exported
    let tables := Text.fields (t.drop (i + 4))
    if field.isEmpty || tables.isEmpty then
      .fail (.usage "softdelete <field> on <table> [table ...]")
    else
      .ok ({ base with field, tables := some tables },
        "field: " ++ field ++ ", tables: " ++ Text.join ", " tables)

/-- The soft deletion that arguments ask for, and how it is shown. -/
def read (t : Text) : Attempt ShellError (SoftDelete × Text) :=
  if t.elem (byte '.') then
    match ofPairs t with
    | .ok r => .ok r
    | .error e => .fail e
  else match Text.indexOf? t.toLower " on " with
    | some i => onTables t i
    | none =>
      match t.fields with
      | [] => .ok (base, "field: " ++ base.field)
      | word :: _ => .ok ({ base with field := word.exported }, "field: " ++ word.exported)

end SoftDelete

namespace Session

/-- Enables or disables soft deletion. -/
def softDelete (s : Session) (args : Text) : Attempt ShellError (Session × Text) :=
  if args.equalFold "off" then
    if s.plugins.any fun p => p.name = ("softdelete" : Text) then
      .ok ({ s with plugins := Plugin.deregister s.plugins "softdelete" },
        "  Soft-delete disabled\n")
    else .fail .notHiding
  else do
    let (rule, status) ← SoftDelete.read args
    return ({ s with plugins := Plugin.register s.plugins (.softDelete rule status) },
      "  Soft-delete enabled (" ++ status ++ ")\n")

/-- The session with one more rule for a table. -/
def addRule (s : Session) (table : Text) (r : Rule) : Session :=
  { s with rules := s.rules ++ [(table, r)], plugins := Plugin.register s.plugins .policy }

/-- Adds a condition on the rows of an entity, whose name is the only alias in it. -/
def addFilter (s : Session) (e : Declared) (condition : Text) :
    Except ShellError (Session × Text) := do
  let (p, s) := s.row e e.name
  let resolve : Resolver := fun name =>
    if name = e.name then .ok (p, e) else .error (.foreignAlias e.name)
  let x ← (Grammar.parseText (some resolve) condition).mapError fun err =>
    .inside "policy" (.parse err)
  return (s.addRule e.table (.filter p x), "  Policy rule added for " ++ e.table ++ "\n")

/-- Adds a rule to the policy, or removes all of them. -/
def policy (s : Session) (args : Text) : Except ShellError (Session × Text) :=
  let other : List Text → Except ShellError (Session × Text)
    | name :: _ :: _ => do
      let e ← s.entity name
      s.addFilter e (Text.trimSpace (args.drop name.length))
    | _ => .error (.usage "policy <entity> <expr> | policy deny <entity> | policy off")
  match args.fields with
  | [word] =>
    if word.equalFold "off" then
      .ok ({ s with rules := [], plugins := Plugin.deregister s.plugins "policy" },
        "  Policy rules removed\n")
    else other [word]
  | [word, name] =>
    if word.equalFold "deny" then do
      let e ← s.entity name
      return (s.addRule e.table .deny, "  Policy denies " ++ e.table ++ "\n")
    else other [word, name]
  | words => other words

/-- The tables that have rules, with the number of them. -/
def policyStatus (s : Session) : Text :=
  let tables := (s.rules.map (·.1)).eraseDups
  let count := fun t => (s.rules.filter fun r => r.1 = t).length
  Text.join ", " (Text.sort (tables.map fun t => t ++ " (" ++ Text.ofNat (count t) ++ ")"))

/-- How a plugin is shown. -/
def pluginStatus (s : Session) : Plugin → Text
  | .softDelete _ status => status
  | .policy => s.policyStatus

/-- The plugins that are enabled. -/
def listPlugins (s : Session) : Text :=
  if s.plugins.isEmpty then "  (no plugins enabled)\n"
  else s.plugins.flatMap fun p => "  " ++ p.name ++ ": " ++ s.pluginStatus p ++ "\n"

end Session

end QueryTree.Shell
