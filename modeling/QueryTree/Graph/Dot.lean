import QueryTree.Expr.Basic
import QueryTree.Type.Printed
import QueryTree.Value.Display

/-!
# Graphs of expressions

Expression trees as a directed graph in the DOT language. Every expression becomes a node that is
numbered in the order of creation and has one edge from the node above it; statement nodes stand
at the top. Nodes may be grouped into clusters, which are drawn apart.

## Main definitions

* `Graph`, `Graph.addRoot`, `Graph.add`, `Graph.addCluster`
* `Graph.dot`: the text of a graph
-/

namespace QueryTree

/-- A node of a graph. -/
structure Graph.Node where
  label : Text
  color : Text
  deriving DecidableEq, Repr

/-- An edge between two nodes, by number. -/
structure Graph.Edge where
  source : Nat
  target : Nat
  label : Text
  deriving DecidableEq, Repr

/-- Nodes that are drawn as a group. -/
structure Graph.Cluster where
  name : Text
  color : Text
  members : List Nat
  deriving DecidableEq, Repr

/-- A graph; a node is known by its position. -/
structure Graph where
  nodes : List Graph.Node
  edges : List Graph.Edge
  clusters : List Graph.Cluster
  deriving DecidableEq, Repr

namespace Graph

/-- The graph without nodes. -/
def empty : Graph := ⟨[], [], []⟩

/-! ### Colours -/

/-- The colour of row parameters and lambdas. -/
def parameterColor : Text := "#6CA6CD"

/-- The colour of members. -/
def memberColor : Text := "#B0D4E8"

/-- The colour of comparisons. -/
def comparisonColor : Text := "#FFB347"

/-- The colour of logical operators and conditionals. -/
def logicalColor : Text := "#FFEB80"

/-- The colour of constants. -/
def literalColor : Text := "#D3D3D3"

/-- The colour of shapes and lists. -/
def constructColor : Text := "#77DD77"

/-- The colour of statement nodes. -/
def statementColor : Text := "#FF6961"

/-- The colour of arithmetic. -/
def arithmeticColor : Text := "#98FB98"

/-- The colour of calls. -/
def functionColor : Text := "#87CEEB"

/-! ### Nodes -/

/-- The graph with one more node below `above`, if that is given; the result is its number. -/
def addNode (g : Graph) (above : Option (Nat × Text)) (label color : Text) : Nat × Graph :=
  let id := g.nodes.length
  let edge := above.toList.map fun (source, text) => (⟨source, id, text⟩ : Edge)
  (id, { g with nodes := g.nodes ++ [⟨label, color⟩], edges := g.edges ++ edge })

/-- The text of a type in a label. -/
def typeLabel (t : Option Ty) : Text := (t.map Ty.text).getD "anonymous"

/-- The label and colour of the node of an expression. -/
def nodeOf (pre : Prelude) : Expr → Text × Text
  | .hole => ("", literalColor)
  | .const (.string t) _ => ("Constant\\n'" ++ t ++ "'", literalColor)
  | .const v _ => ("Constant\\n" ++ v.display pre, literalColor)
  | .param p => ("Parameter\\n" ++ p.name ++ " " ++ typeLabel p.type, parameterColor)
  | .member _ name _ _ => ("Member\\n" ++ name, memberColor)
  | .binary op _ _ =>
    (op.name, if op.isLogical then logicalColor else if op.isArithmetic then arithmeticColor
      else comparisonColor)
  | .unary op _ t =>
    (if op = .convert then op.name ++ "\\n" ++ typeLabel t else op.name,
      if op = .not then logicalColor else arithmeticColor)
  | .call _ method _ _ _ => ("Call\\n" ++ method, functionColor)
  | .new t _ => ("New\\n" ++ typeLabel t, constructColor)
  | .init t _ => ("MemberInit\\n" ++ typeLabel t, constructColor)
  | .list .. => ("ListInit", constructColor)
  | .array .. => ("NewArray", constructColor)
  | .lambda _ ps => ("Lambda\\n(" ++ Text.join ", " (ps.map (·.name)) ++ ")", parameterColor)
  | .invoke .. => ("Invocation", functionColor)
  | .cond .. => ("Conditional", logicalColor)

/-- The label of the edge to the `i`-th item of a list. -/
def itemLabel (i : Nat) : Text := "[" ++ Text.ofNat i ++ "]"

mutual

/-- The graph with an expression below a node, or at the top. -/
def addBelow (pre : Prelude) (g : Graph) (above : Option (Nat × Text)) : Expr → Graph
  | .hole => g
  | .const v t =>
    let (label, color) := nodeOf pre (.const v t)
    (g.addNode above label color).2
  | .param p =>
    let (label, color) := nodeOf pre (.param p)
    (g.addNode above label color).2
  | .member e n t o =>
    let (label, color) := nodeOf pre (.member e n t o)
    let (id, g) := g.addNode above label color
    addBelow pre g (some (id, "EXPR")) e
  | .binary op l r =>
    let (label, color) := nodeOf pre (.binary op l r)
    let (id, g) := g.addNode above label color
    addBelow pre (addBelow pre g (some (id, "LEFT")) l) (some (id, "RIGHT")) r
  | .unary op e t =>
    let (label, color) := nodeOf pre (.unary op e t)
    let (id, g) := g.addNode above label color
    addBelow pre g (some (id, "OPERAND")) e
  | .call e m args t f =>
    let (label, color) := nodeOf pre (.call e m args t f)
    let (id, g) := g.addNode above label color
    addItems pre (addBelow pre g (some (id, "OBJECT")) e) id "ARG" 0 args
  | .new t bs =>
    let (label, color) := nodeOf pre (.new t bs)
    let (id, g) := g.addNode above label color
    addBindings pre g id bs
  | .init t bs =>
    let (label, color) := nodeOf pre (.init t bs)
    let (id, g) := g.addNode above label color
    addBindings pre g id bs
  | .list t es =>
    let (label, color) := nodeOf pre (.list t es)
    let (id, g) := g.addNode above label color
    addItems pre g id "" 0 es
  | .array t es =>
    let (label, color) := nodeOf pre (.array t es)
    let (id, g) := g.addNode above label color
    addItems pre g id "" 0 es
  | .lambda body ps =>
    let (label, color) := nodeOf pre (.lambda body ps)
    let (id, g) := g.addNode above label color
    addBelow pre g (some (id, "BODY")) body
  | .invoke e args =>
    let (label, color) := nodeOf pre (.invoke e args)
    let (id, g) := g.addNode above label color
    addItems pre (addBelow pre g (some (id, "EXPR")) e) id "" 0 args
  | .cond c a b =>
    let (label, color) := nodeOf pre (.cond c a b)
    let (id, g) := g.addNode above label color
    let g := addBelow pre g (some (id, "TEST")) c
    let g := addBelow pre g (some (id, "THEN")) a
    addBelow pre g (some (id, "ELSE")) b

/-- The graph with the items of a list below a node; their edges are labelled by `lead` and their
positions. -/
def addItems (pre : Prelude) (g : Graph) (id : Nat) (lead : Text) (i : Nat) : List Expr → Graph
  | [] => g
  | e :: es => addItems pre (addBelow pre g (some (id, lead ++ itemLabel i)) e) id lead (i + 1) es

/-- The graph with bindings below a node, their edges labelled by their names. -/
def addBindings (pre : Prelude) (g : Graph) (id : Nat) : List (Text × Expr) → Graph
  | [] => g
  | (name, e) :: bs => addBindings pre (addBelow pre g (some (id, name)) e) id bs

end

/-- The graph with a statement node; the result is its number. -/
def addRoot (g : Graph) (label : Text) : Nat × Graph := g.addNode none label statementColor

/-- The graph with an expression below a node. -/
def add (g : Graph) (pre : Prelude) (above : Nat) (label : Text) (e : Expr) : Graph :=
  addBelow pre g (some (above, label)) e

/-- The numbers of the nodes from `start` on. -/
def since (g : Graph) (start : Nat) : List Nat :=
  (List.range g.nodes.length).drop start

/-- The graph with nodes grouped into a cluster, if there are any. -/
def addCluster (g : Graph) (name color : Text) (members : List Nat) : Graph :=
  if members.isEmpty then g else { g with clusters := g.clusters ++ [⟨name, color, members⟩] }

/-! ### Text -/

/-- The name of a node. -/
def nodeName (id : Nat) : Text := "n" ++ Text.ofNat id

/-- A label with its double quotes escaped. Backslashes stay, because they mark line breaks. -/
def escapeLabel (t : Text) : Text :=
  t.flatMap fun b => if b = byte '"' then [byte '\\', b] else [b]

/-- The declaration of a node under a name. -/
def declaration (indent name : Text) (n : Node) : Text :=
  indent ++ name ++ " [label=\"" ++ escapeLabel n.label ++ "\", fillcolor=\"" ++ n.color
    ++ "\"];\n"

/-- The declaration of a node. -/
def nodeText (indent : Text) (id : Nat) (n : Node) : Text := declaration indent (nodeName id) n

/-- The declaration of a member of a cluster. A number that no node has gives an empty node without
a name. -/
def memberText (g : Graph) (id : Nat) : Text :=
  match g.nodes[id]? with
  | some n => nodeText "    " id n
  | none => declaration "    " [] ⟨[], []⟩

/-- The declaration of an edge. -/
def edgeText (e : Edge) : Text :=
  let arrow := "  " ++ nodeName e.source ++ " -> " ++ nodeName e.target
  if e.label.isEmpty then arrow ++ ";\n" else arrow ++ " [label=\"" ++ e.label ++ "\"];\n"

/-- The declaration of a cluster and its nodes. -/
def clusterText (g : Graph) (i : Nat) (c : Cluster) : Text :=
  "  subgraph cluster_" ++ Text.ofNat i ++ "_" ++ c.name ++ " \x7b\n"
    ++ "    label=\"" ++ c.name ++ "\";\n"
    ++ "    style=dashed;\n"
    ++ "    color=\"" ++ c.color ++ "\";\n"
    ++ "    fontname=\"Helvetica\";\n"
    ++ c.members.flatMap g.memberText
    ++ "  \x7d\n"

/-- The text of a graph: nodes outside clusters, clusters, then edges. -/
def dot (g : Graph) : Text :=
  let clustered := g.clusters.flatMap (·.members)
  "digraph AST \x7b\n"
    ++ "  rankdir=TB;\n"
    ++ "  node [shape=box, style=filled, fontname=\"Helvetica\"];\n"
    ++ "  edge [fontname=\"Helvetica\", fontsize=10];\n"
    ++ (g.nodes.zipIdx.flatMap fun (n, id) =>
      if clustered.contains id then [] else nodeText "  " id n)
    ++ (g.clusters.zipIdx.flatMap fun (c, i) => clusterText g i c)
    ++ g.edges.flatMap edgeText
    ++ "\x7d\n"

end Graph

end QueryTree
