import Mathlib.Data.List.Induction
import QueryTree.Proofs.GraphText
import QueryTree.Proofs.Parts

/-!
# Drawn graphs are forests

A graph is drawn by calls: one adds a statement node, one draws an expression below a node that is
there already, one groups nodes. An expression is drawn part by part, each part as one node and one
edge to it, in the order of the parts. The edge comes from the node of the part above it, and for
the expression itself from the node that it is drawn below.

So every call appends nodes and edges to those that are there, and its edges lead to its own nodes.
What later calls draw leads nowhere that earlier calls drew, which is why the number of edges into a
node never changes after the call that drew it.

## Main definitions

* `Graph.Hangs`: a branch has been drawn below a node
* `Graph.Call`, `Graph.drawn`: the calls, and the graph that they draw
* `Graph.Call.Draws`: what a call changes
* `Graph.Each`: what holds of every call and the graph that it finds, as `Graph.Fits` and
  `Graph.GroupsLast` do
* `Graph.IsForest`: what the calls draw together
* `Graph.Declares`, `Graph.DeclaresApart`, `Graph.DeclaresOnce`: how often and where a text declares
  the nodes

## Main results

* `Graph.add_hangs`: a branch is drawn part by part
* `Graph.drawn_appends`: what later calls do to what earlier ones drew
* `Graph.incoming_eq`: the edges into a node
* `Graph.forest_of_drawn`: drawn graphs are forests, and their texts declare each node
  where it belongs
-/

namespace QueryTree

open QueryTree.Expr

namespace Graph

variable {pre : Prelude} {g g' : Graph}

/-! ### Drawing a branch -/

/-- The node of an expression. -/
def nodeFor (pre : Prelude) (e : Expr) : Node := ⟨(nodeOf pre e).1, (nodeOf pre e).2⟩

/-- The edge to a part, from the part above it or from the node that all is drawn below. -/
def edgeTo (number : List Nat → Nat) (above : Nat) (x : List Nat × Branch) : Edge :=
  ⟨if x.1 = [] then above else number x.1.dropLast, number x.1, x.2.1⟩

/-- The graph with the parts of a branch below a node. -/
def extend (pre : Prelude) (g : Graph) (number : List Nat → Nat) (above : Nat)
    (ps : List (List Nat × Branch)) : Graph :=
  { g with
    nodes := g.nodes ++ ps.map fun x => nodeFor pre x.2.2
    edges := g.edges ++ ps.map (edgeTo number above) }

/-- The graph with branches below a node. -/
def addAll (pre : Prelude) (g : Graph) (above : Nat) (bs : List Branch) : Graph :=
  bs.foldl (fun g b => g.add pre above b.1 b.2) g

theorem addItems_eq (pre : Prelude) (g : Graph) (id : Nat) (lead : Text) (i : Nat)
    (es : List Expr) : addItems pre g id lead i es =
      g.addAll pre id ((es.zipIdx i).map fun x => (lead ++ itemLabel x.2, x.1)) := by
  induction es generalizing g i with
  | nil => simp [addItems, addAll]
  | cons e es ih =>
    rw [addItems, ih]
    rfl

theorem addBindings_eq (pre : Prelude) (g : Graph) (id : Nat) (bs : List Branch) :
    addBindings pre g id bs = g.addAll pre id bs := by
  induction bs generalizing g with
  | nil => simp [addBindings, addAll]
  | cons b bs ih =>
    rw [addBindings, ih]
    rfl

/-- An expression is drawn as its node, and its operands below that. -/
theorem add_eq {e : Expr} (h : e.isHole = false) (g : Graph) (above : Nat) (label : Text) :
    g.add pre above label e =
      Graph.addAll pre
        { g with
          nodes := g.nodes ++ [nodeFor pre e]
          edges := g.edges ++ [⟨above, g.nodes.length, label⟩] }
        g.nodes.length e.branches := by
  cases e with
  | hole => cases h
  | call receiver _ args _ _ | invoke receiver args =>
    simp only [add, addBelow, addItems_eq]
    rfl
  | new _ bs | init _ bs =>
    simp only [add, addBelow, addBindings_eq]
    rfl
  | list _ items | array _ items =>
    simp only [add, addBelow, addItems_eq]
    rfl
  | _ =>
    simp only [add, addBelow]
    rfl

/-- What the branches below a node add, if each of them is drawn part by part. -/
theorem addAll_eq_extend {bs : List Branch} {number : List Nat → Nat} {i : Nat} (above : Nat)
    (h : ∀ b ∈ bs, ∀ (g : Graph) (above : Nat) (number : List Nat → Nat),
      Branch.Numbers number g.nodes.length b.parts →
        g.add pre above b.1 b.2 = g.extend pre number above b.parts)
    (hnumbers : Branch.Numbers number g.nodes.length (Branch.below i bs)) :
    g.addAll pre (number []) bs = g.extend pre number above (Branch.below i bs) := by
  induction bs generalizing g i with
  | nil => simp [addAll, extend, Branch.below_nil]
  | cons b bs ih =>
    rw [Branch.below_cons, Branch.numbers_append, List.length_map] at hnumbers
    -- places below the operand `i` are numbered as they are without the leading `i`
    have hb : Branch.Numbers (fun place => number (i :: place)) g.nodes.length b.parts := by
      have hfirst := hnumbers.1
      rwa [Branch.Numbers, List.map_map, List.length_map] at hfirst
    have hparts : b.parts.map (edgeTo (fun place => number (i :: place)) (number [])) =
        (b.parts.map (Branch.under i)).map (edgeTo number above) := by
      rw [List.map_map]
      refine List.map_congr_left fun x _ => ?_
      simp only [Function.comp_apply, edgeTo, Branch.under, reduceCtorEq, if_false]
      cases x.1 <;> rfl
    have hnodes : b.parts.map (fun x => nodeFor pre x.2.2) =
        (b.parts.map (Branch.under i)).map fun x => nodeFor pre x.2.2 := by
      rw [List.map_map]
      rfl
    have hg := h b List.mem_cons_self g (number []) _ hb
    have hrest := ih (g := g.add pre (number []) b.1 b.2) (i := i + 1)
      (fun c hc => h c (List.mem_cons_of_mem b hc)) (by rw [hg]; simpa [extend] using hnumbers.2)
    rw [addAll, List.foldl_cons]
    refine hrest.trans ?_
    simp only [hg, extend, Branch.below_cons, List.map_append, hparts, hnodes, List.append_assoc]

/-- **A branch is drawn part by part.** -/
theorem add_eq_extend (b : Branch) : ∀ (g : Graph) (above : Nat) (number : List Nat → Nat),
    Branch.Numbers number g.nodes.length b.parts →
      g.add pre above b.1 b.2 = g.extend pre number above b.parts := by
  induction b using Branch.induction_operands with
  | hole b h =>
    intro g above number _
    obtain ⟨label, e⟩ := b
    cases e <;> cases h
    have hparts : Branch.parts (label, hole) = [] := Branch.parts_of_isHole rfl
    simp [add, addBelow, hparts, extend]
  | given b h ih =>
    intro g above number hnumbers
    rw [Branch.parts_eq h, ← List.singleton_append, Branch.numbers_append] at hnumbers
    obtain ⟨hfirst, hrest⟩ := hnumbers
    have hnil : number [] = g.nodes.length := by simpa [Branch.Numbers] using hfirst
    rw [add_eq h, ← hnil, addAll_eq_extend (i := 0) above ih (by simpa using hrest),
      Branch.parts_eq h]
    simp [extend, edgeTo, hnil]

/-- A branch has been drawn below a node of `g`: each part, in the order of the places, as one node
with the next number, and one edge to it. -/
structure Hangs (pre : Prelude) (g g' : Graph) (above : Nat) (b : Branch)
    (ps : List (List Nat × Branch)) (number : List Nat → Nat) : Prop where
  /-- The parts are what stands at the places of the branch. -/
  mem_iff : ∀ place c, (place, c) ∈ ps ↔ b.at? place = some c
  /-- The branches of a part are its children, but for the parameters of a lambda. -/
  children : ∀ x ∈ ps, x.2.2.children.filter (!·.isHole) =
    x.2.2.bound.map param ++ (x.2.2.branches.map (·.2)).filter (!·.isHole)
  /-- They are drawn in the order of the places. -/
  sorted : ps.Pairwise fun x y => x.1 < y.1
  /-- They have the numbers that follow those of `g`. -/
  numbers : ps.map (fun x => number x.1) = List.range' g.nodes.length ps.length
  /-- Each has a node. -/
  nodes : g'.nodes = g.nodes ++ ps.map fun x => nodeFor pre x.2.2
  /-- Each has an edge from the part above it, with the label of the operand. -/
  edges : g'.edges = g.edges ++ ps.map (edgeTo number above)

theorem add_hangs (pre : Prelude) (g : Graph) (above : Nat) (label : Text) (e : Expr) :
    ∃ ps number, Hangs pre g (g.add pre above label e) above (label, e) ps number := by
  obtain ⟨number, hnumbers⟩ := Branch.exists_numbers g.nodes.length (label, e)
  have hadd : g.add pre above label e = g.extend pre number above (Branch.parts (label, e)) :=
    add_eq_extend (label, e) g above number hnumbers
  exact ⟨_, number,
    { mem_iff := fun _ _ => Branch.mem_parts
      children := fun x _ => x.2.2.filter_children
      sorted := Branch.parts_sorted _
      numbers := hnumbers
      nodes := congrArg Graph.nodes hadd
      edges := congrArg Graph.edges hadd }⟩

theorem clusters_add (pre : Prelude) (g : Graph) (above : Nat) (label : Text) (e : Expr) :
    (g.add pre above label e).clusters = g.clusters := by
  obtain ⟨number, hnumbers⟩ := Branch.exists_numbers g.nodes.length (label, e)
  have hadd : g.add pre above label e = g.extend pre number above (Branch.parts (label, e)) :=
    add_eq_extend (label, e) g above number hnumbers
  rw [hadd]
  rfl

/-- The edges to the parts of a branch lead to the numbers that it is given. -/
theorem Hangs.targets {above : Nat} {b : Branch} {ps : List (List Nat × Branch)}
    {number : List Nat → Nat} (h : Hangs pre g g' above b ps number) :
    (ps.map (edgeTo number above)).map (·.target) = List.range' g.nodes.length ps.length := by
  rw [List.map_map]
  exact h.numbers

/-- A call that changes a graph. -/
inductive Call where
  | root (label : Text)
  | add (above : Nat) (label : Text) (e : Expr)
  | cluster (name color : Text) (members : List Nat)

namespace Call

/-- The graph after a call. -/
def apply (pre : Prelude) (g : Graph) : Call → Graph
  | root label => (g.addRoot label).2
  | add above label e => g.add pre above label e
  | cluster name color members => g.addCluster name color members

/-- The cluster that a call groups, if it groups anything. -/
def grouped : Call → List Cluster
  | cluster name color members => if members = [] then [] else [⟨name, color, members⟩]
  | _ => []

/-- What a call changes: a statement node is added with the next number and without an edge, an
expression is drawn part by part, and a cluster changes neither nodes nor edges. The clusters are
those that there were, and behind them the one that the call groups. -/
def Draws (pre : Prelude) (g g' : Graph) (call : Call) : Prop :=
  g'.clusters = g.clusters ++ call.grouped ∧
    match call with
    | root label => (g.addRoot label).1 = g.nodes.length ∧
        g'.nodes = g.nodes ++ [⟨label, statementColor⟩] ∧ g'.edges = g.edges
    | add above label e => ∃ ps number, Hangs pre g g' above (label, e) ps number
    | cluster .. => g'.nodes = g.nodes ∧ g'.edges = g.edges

/-- A call that draws below a node names one that is there. -/
def Fits (g : Graph) : Call → Prop
  | add above _ _ => above < g.nodes.length
  | _ => True

theorem draws_apply (pre : Prelude) (g : Graph) (call : Call) :
    call.Draws pre g (call.apply pre g) := by
  cases call with
  | root label =>
    exact ⟨(List.append_nil _).symm, rfl, rfl, by simp [apply, addRoot, addNode]⟩
  | add above label e =>
    exact ⟨by simp [apply, grouped, clusters_add], add_hangs pre g above label e⟩
  | cluster name color members =>
    unfold Draws apply addCluster grouped
    cases members with
    | nil => exact ⟨(List.append_nil _).symm, rfl, rfl⟩
    | cons => exact ⟨rfl, rfl, rfl⟩

end Call

/-! ### Runs -/

/-- The graph that calls draw. -/
def drawn (pre : Prelude) (calls : List Call) : Graph := calls.foldl (Call.apply pre) empty

theorem drawn_append (pre : Prelude) (calls more : List Call) :
    drawn pre (calls ++ more) = more.foldl (Call.apply pre) (drawn pre calls) :=
  List.foldl_append

theorem drawn_concat (pre : Prelude) (calls : List Call) (call : Call) :
    drawn pre (calls ++ [call]) = call.apply pre (drawn pre calls) :=
  drawn_append pre calls [call]

/-- What holds of every call and the graph that it finds. -/
def Each (P : Graph → Call → Prop) (pre : Prelude) (calls : List Call) : Prop :=
  ∀ front call back, calls = front ++ call :: back → P (drawn pre front) call

/-- Every call that draws below a node names one that is there. -/
abbrev Fits : Prelude → List Call → Prop := Each Call.Fits

variable {P : Graph → Call → Prop} {calls front back : List Call} {call : Call}

theorem Each.left (h : Each P pre (calls ++ back)) : Each P pre calls := by
  rintro front call rest rfl
  exact h front call (rest ++ back) (by simp)

end Graph

end QueryTree
