import QueryTree.Graph.Dot
import QueryTree.Shell.Plan

/-!
# Showing statements

The commands that show the statement being built, as SQL or as a graph, and the entities.

## Main definitions

* `Session.showSql`, `Session.showInline`, `Session.showAll`
* `Session.graph`: the statement as a graph
* `Session.listEntities`, `helpText`
-/

namespace QueryTree.Shell

namespace Session

/-! ### SQL -/

/-- The SQL of the statement and the values bound in it. -/
def showSql (s : Session) : Attempt ShellError Text := do
  let d ← s.compile s.dialect
  let values : Text := if d.args.isEmpty then ""
    else "  params: " ++ (Value.slice .any d.args).display d.settings.pre ++ "\n"
  return d.text ++ "\n" ++ values

/-- The SQL of the statement with the values written into it. -/
def showInline (s : Session) : Attempt ShellError Text := do
  let d ← s.compile s.dialect
  return (← d.inlined.widen) ++ "\n"

/-- The SQL of the statement for dialects, up to the first that it does not compile for. -/
def showDialects (s : Session) : List Dialect → Outcome
  | [] => .success s []
  | d :: ds =>
    match s.compile d with
    | .ok draft =>
      let rest := showDialects s ds
      { rest with output :=
          "  " ++ Text.padRight 9 (d.name ++ ":") ++ " " ++ draft.text ++ "\n" ++ rest.output }
    | .error (.error e) => .refusal s (.inside d.name e)
    | .error .fault => ⟨s, [], some .fault⟩

/-- The SQL of the statement for every dialect. -/
def showAll (s : Session) : Outcome := s.showDialects Dialect.all

/-! ### Graphs -/

/-- The graph with several expressions below a node. -/
def addAll (g : Graph) (above : Nat) (label : Text) (es : List Expr) : Graph :=
  es.foldl (fun g e => g.add .standard above label e) g

/-- The row parameter of a statement as an expression. -/
def rowExpr : Option Param → Expr
  | some p => .param p
  | none => .hole

/-- The graph with the conditions that plugins add, one cluster for each plugin. `added` gives the
conditions that a transform adds to the statement. -/
def addClusters (s : Session) (above : Nat)
    (added : Transform → Except StatementError (List Expr)) :
    Graph → List Plugin → Except StatementError Graph
  | g, [] => .ok g
  | g, p :: ps => do
    let start := g.nodes.length
    let g := addAll g above "WHERE" (← added (s.transform p))
    addClusters s above added (g.addCluster p.name p.color (g.since start)) ps

/-- The graph of a selection. -/
def selectGraph (s : Session) (q : Select) : Except StatementError Graph :=
  let (root, g) := Graph.empty.addRoot "SELECT"
  let g := addAll g root "FROM" [rowExpr q.source]
  let g := addAll g root "PROJECTION" [q.projection]
  let g := q.joins.foldl (fun g j =>
    addAll (addAll g root j.kind.keywords [rowExpr j.row]) root "ON" [j.condition]) g
  let g := addAll g root "WHERE" q.wheres
  let g := addAll g root "GROUP BY" q.groups
  let g := addAll g root "HAVING" q.havings
  let g := addAll g root "ORDER BY" (q.orders.map (·.1))
  s.addClusters root (fun t => do return (← t.select q).wheres.drop q.wheres.length) g s.plugins

/-- The graph of an insertion. -/
def insertGraph (q : Insert) : Graph :=
  let (root, g) := Graph.empty.addRoot "INSERT"
  addAll (addAll g root "INTO" [rowExpr q.target]) root "VALUES" q.values

/-- The graph of an update. -/
def updateGraph (s : Session) (q : Update) : Except StatementError Graph :=
  let (root, g) := Graph.empty.addRoot "UPDATE"
  let g := addAll g root "TABLE" [rowExpr q.target]
  let g := addAll g root "SET" [q.assigned]
  let g := addAll g root "WHERE" q.wheres
  s.addClusters root (fun t => do return (← t.update q).wheres.drop q.wheres.length) g s.plugins

/-- The graph of a deletion. -/
def deleteGraph (s : Session) (q : Delete) : Except StatementError Graph :=
  let (root, g) := Graph.empty.addRoot "DELETE"
  let g := addAll g root "FROM" [rowExpr q.source]
  let g := addAll g root "WHERE" q.wheres
  s.addClusters root (fun t => do return (← t.delete q).wheres.drop q.wheres.length) g s.plugins

/-- The statement as a graph. -/
def graph (s : Session) : Except ShellError Graph :=
  match s.pending with
  | none => .error .noQuery
  | some (.select q) => (s.selectGraph q).mapError .statement
  | some (.insert q) => .ok (insertGraph q)
  | some (.update q) => (s.updateGraph q).mapError .statement
  | some (.delete q) => (s.deleteGraph q).mapError .statement

/-- Writes the graph of the statement to a file. -/
def dot (s : Session) (path : Text) : Plan Outcome :=
  if path.isEmpty then .done (.refusal s (.usage "dot <file>"))
  else match s.graph with
    | .error e => .done (.refusal s e)
    | .ok g => .write path g.dot fun answer =>
      match answer with
      | .error m => .refusal s (.inside "dot" (.reported m))
      | .ok () =>
        .success s ("  DOT written to " ++ path ++ " (" ++ Text.ofNat g.nodes.length ++ " nodes)\n")

/-! ### Entities -/

/-- The entities in the order of their names. -/
def listEntities (s : Session) : Text :=
  if s.entities.isEmpty then "  (no entities)\n"
  else
    let names := Text.sort (s.entities.map fun e => e.name.toLower)
    (names.filterMap s.entity?).flatMap fun e => "  " ++ e.describe s.registry ++ "\n"

end Session

/-! ### Help -/

/-- The commands and what they do. -/
def helpText : Text :=
  "  Entities:\n"
    ++ "    entity <name> [table <t>] <field>:<type>[:pk|:auto|:null] ...\n"
    ++ "                                 types: int float string bool time\n"
    ++ "    load <schema.yaml>           Define entities from a YAML document\n"
    ++ "    entities                     List defined entities\n"
    ++ "\n"
    ++ "  Query building:\n"
    ++ "    from <entity> [alias]        Start a SELECT\n"
    ++ "    select <expr> [as n], ...    Set the projection (select * clears it)\n"
    ++ "    distinct                     Enable DISTINCT\n"
    ++ "    where <expr>                 Add a WHERE condition (AND)\n"
    ++ "    join <entity> [alias] on <expr>\n"
    ++ "    left join | right join | full join ...\n"
    ++ "    group <expr>, ...            Add GROUP BY items\n"
    ++ "    having <expr>                Add a HAVING condition\n"
    ++ "    order <expr> [asc|desc], ... Add ORDER BY items\n"
    ++ "    limit <n> / offset <n>       Page the result\n"
    ++ "\n"
    ++ "  Statements:\n"
    ++ "    insert <entity> <field>=<value> ...\n"
    ++ "    update <entity> set <field>=<expr>, ... [where <expr>]\n"
    ++ "    delete <entity> [where <expr>]\n"
    ++ "\n"
    ++ "  Output:\n"
    ++ "    sql                          Show the SQL and its parameters\n"
    ++ "    inline                       Show the SQL with parameters written in\n"
    ++ "    all                          Show the SQL for every dialect\n"
    ++ "    dot <file>                   Write a Graphviz DOT file of the statement\n"
    ++ "    reset                        Clear the statement\n"
    ++ "\n"
    ++ "  Settings:\n"
    ++ "    dialect [name]               Show or set the dialect ("
    ++ Text.join ", " Dialect.names ++ ")\n"
    ++ "    quoted on|off                Quote every identifier\n"
    ++ "    softdelete [field] [on <table> ...]\n"
    ++ "    softdelete off\n"
    ++ "    policy <entity> <expr>       Add a row filter for an entity's table\n"
    ++ "    policy deny <entity>         Reject statements touching the table\n"
    ++ "    policy off                   Remove all policy rules\n"
    ++ "    plugins                      List enabled plugins\n"
    ++ "\n"
    ++ "  Database:\n"
    ++ "    connect [dsn] / disconnect / exec\n"
    ++ "\n"
    ++ "  Expressions: alias.Field, 'text', 42, 1.5, true, false, null,\n"
    ++ "    = != <> > >= < <=, + - * / %, and or not, ( ), like 'pat%',\n"
    ++ "    in (...), is [not] null, upper lower trim count sum avg min max\n"

end QueryTree.Shell
