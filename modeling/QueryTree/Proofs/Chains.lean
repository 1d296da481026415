import QueryTree.Proofs.Terms
import Mathlib.Data.List.Induction

/-!
# Chains of operands

Between two parentheses a text is a chain: operands and what joins them. How a chain is grouped
depends on the levels of its joints alone, since a joint that binds tighter takes its operands first
and joints of one level group from the left. So joining two chains by one more joint gives the
join of their two trees only if the new joint is the last one of the lowest level in the new chain.

That is exact. The right operand of the outermost joint is told from the number of leaves in it, so
if chains that are joined one after the other have the join of their trees as their tree, none of
them but the first has a joint that binds as loosely as the new ones, and the first has none that
binds more loosely.

## Main definitions

* `Sql.Joint`, `Sql.Joint.level`: what joins two operands
* `Sql.Tree`, `Sql.Chain`, `Sql.Chain.tree`: the tree of a chain
* `Sql.lexemes`, `Sql.readTree?`: the reader

## Main results

* `Sql.Chain.tree_append`: the tree of two chains that are joined
* `Sql.Chain.tree_appendAll_iff`: when chains are joined to the join of their trees
* `Sql.readTree?_of_cuts`: a text is read as its chain is
-/

namespace QueryTree.Sql

/-- What joins two operands: an operator of arithmetic, two bars, or the comma between the arguments
of a function. -/
inductive Joint where
  | arithmetic (op : BinaryOp)
  | bars
  | comma
  deriving DecidableEq

/-- How tightly a joint binds. Two bars bind like a sum, but tighter than a product in SQLite. -/
def Joint.level (d : Dialect) : Joint → Nat
  | arithmetic op => if bindsTightly op then 2 else 1
  | bars => if d = .sqlite then 3 else 1
  | comma => 0

/-! ### Trees -/

/-- A tree of joints. -/
inductive Tree (α : Type) where
  | leaf (a : α)
  | node (j : Joint) (l r : Tree α)
  deriving DecidableEq

namespace Tree

variable {α : Type} {d : Dialect} {i j : Joint} {k : Nat} {t u : Tree α} {a : α}

/-- A tree whose leaves are trees, as one tree. -/
def flatten : Tree (Tree α) → Tree α
  | leaf t => t
  | node j l r => node j l.flatten r.flatten

/-- The number of leaves. -/
def size : Tree α → Nat
  | leaf _ => 1
  | node _ l r => l.size + r.size

/-- The trees joined from the left. -/
def joinAll (j : Joint) (t : Tree α) (ts : List (Tree α)) : Tree α := ts.foldl (node j) t

/-- The tree with one more operand behind it. -/
def graft (d : Dialect) (j : Joint) (a : α) : Tree α → Tree α
  | leaf b => node j (leaf b) (leaf a)
  | node i l r =>
    if i.level d < j.level d then node i l (graft d j a r) else node j (node i l r) (leaf a)

/-- The tree with more operands behind it. -/
def graftAll (d : Dialect) (t : Tree α) (rest : List (Joint × α)) : Tree α :=
  rest.foldl (fun t x => t.graft d x.1 x.2) t

/-- The outermost joint of the tree binds at least as tightly as `k`. -/
def BindsFrom (d : Dialect) (k : Nat) : Tree α → Prop
  | leaf _ => True
  | node j _ _ => k ≤ j.level d

theorem size_pos (t : Tree α) : 0 < t.size := by
  induction t with
  | leaf => exact Nat.one_pos
  | node j l r ihl ihr => exact Nat.add_pos_left ihl _

theorem BindsFrom.mono {m : Nat} (h : t.BindsFrom d m) (hk : k ≤ m) : t.BindsFrom d k := by
  cases t with
  | leaf b => trivial
  | node i l r => exact Nat.le_trans hk h

theorem BindsFrom.graft (h : t.BindsFrom d k) (hj : k ≤ j.level d) :
    (t.graft d j a).BindsFrom d k := by
  cases t with
  | leaf b => exact hj
  | node i l r =>
    rw [Tree.graft]
    split
    · exact h
    · exact hj

theorem BindsFrom.graftAll {rest : List (Joint × α)} (h : t.BindsFrom d k)
    (hrest : ∀ x ∈ rest, k ≤ x.1.level d) : (t.graftAll d rest).BindsFrom d k := by
  induction rest generalizing t with
  | nil => exact h
  | cons x rest ih =>
    exact ih (h.graft (hrest x (by simp))) fun y hy => hrest y (by simp [hy])

/-- A joint takes all of a tree that binds at least as tightly for its left operand. -/
theorem graft_of_bindsFrom (h : t.BindsFrom d (j.level d)) : t.graft d j a = node j t (leaf a) := by
  cases t with
  | leaf b => rfl
  | node i l r => exact if_neg (Nat.not_lt.mpr h)

/-- Joints that bind tighter than the outermost one stay to the right of it. -/
theorem graftAll_node {rest : List (Joint × α)} (h : ∀ x ∈ rest, j.level d < x.1.level d) :
    (node j t u).graftAll d rest = node j t (u.graftAll d rest) := by
  induction rest generalizing u with
  | nil => rfl
  | cons x rest ih =>
    have hx : (node j t u).graft d x.1 x.2 = node j t (u.graft d x.1 x.2) :=
      if_pos (h x (by simp))
    show ((node j t u).graft d x.1 x.2).graftAll d rest = _
    rw [hx, ih fun y hy => h y (by simp [hy])]
    rfl

theorem graftAll_append (t : Tree α) (xs ys : List (Joint × α)) :
    t.graftAll d (xs ++ ys) = (t.graftAll d xs).graftAll d ys :=
  List.foldl_append

end Tree

/-- A tree of operators of arithmetic. -/
def Term.tree {α : Type} : Term α → Tree α
  | leaf a => .leaf a
  | node op l r => .node (.arithmetic op) l.tree r.tree

/-! ### Chains -/

/-- Operands, and what joins each to those before it. -/
structure Chain (α : Type) where
  head : α
  tail : List (Joint × α)

namespace Chain

variable {α : Type} {d : Dialect} {j : Joint} {k m : Nat} {c c' : Chain α}

/-- The tree of a chain. -/
def tree (d : Dialect) (c : Chain α) : Tree α := (Tree.leaf c.head).graftAll d c.tail

/-- Two chains joined. -/
def append (j : Joint) (c c' : Chain α) : Chain α := ⟨c.head, c.tail ++ (j, c'.head) :: c'.tail⟩

/-- Chains joined one after the other. -/
def appendAll (j : Joint) (c : Chain α) (cs : List (Chain α)) : Chain α := cs.foldl (append j) c

/-- Every joint of the chain binds at least as tightly as `k`. -/
def BindsFrom (d : Dialect) (k : Nat) (c : Chain α) : Prop := ∀ x ∈ c.tail, k ≤ x.1.level d

theorem BindsFrom.mono (h : c.BindsFrom d m) (hk : k ≤ m) : c.BindsFrom d k :=
  fun x hx => Nat.le_trans hk (h x hx)

theorem bindsFrom_append : (c.append j c').BindsFrom d k ↔
    c.BindsFrom d k ∧ k ≤ j.level d ∧ c'.BindsFrom d k := by
  simp [BindsFrom, append, or_imp, forall_and]

theorem BindsFrom.tree (h : c.BindsFrom d k) : (c.tree d).BindsFrom d k :=
  Tree.BindsFrom.graftAll trivial h

/-- **The last joint of the lowest level is the outermost one.** -/
theorem tree_append (h : c.BindsFrom d (j.level d)) (h' : c'.BindsFrom d (j.level d + 1)) :
    (c.append j c').tree d = .node j (c.tree d) (c'.tree d) := by
  have hgraft : (c.tree d).graft d j c'.head = .node j (c.tree d) (.leaf c'.head) :=
    Tree.graft_of_bindsFrom h.tree
  rw [Chain.tree, append, Tree.graftAll_append]
  show ((c.tree d).graft d j c'.head).graftAll d c'.tail = _
  rw [hgraft, Tree.graftAll_node h']
  rfl

/-- A chain of several operands has a last joint of the lowest level. -/
theorem exists_append (hc : c.tail ≠ []) : ∃ c₁ j c₂, c = append j c₁ c₂ ∧
    c₁.BindsFrom d (j.level d) ∧ c₂.BindsFrom d (j.level d + 1) := by
  obtain ⟨head, tail⟩ := c
  induction tail generalizing head with
  | nil => exact absurd rfl hc
  | cons x tail ih =>
    obtain ⟨i, a⟩ := x
    cases tail with
    | nil => exact ⟨⟨head, []⟩, i, ⟨a, []⟩, rfl, nofun, nofun⟩
    | cons y tail =>
      obtain ⟨c₁, j, c₂, heq, h₁, h₂⟩ := ih a nofun
      obtain ⟨rfl, htail⟩ := Chain.mk.inj heq
      by_cases hij : j.level d ≤ i.level d
      · refine ⟨⟨head, (i, c₁.head) :: c₁.tail⟩, j, c₂, by rw [htail]; rfl, fun x hx => ?_, h₂⟩
        rcases List.mem_cons.mp hx with rfl | hx
        · exact hij
        · exact h₁ x hx
      · have hall : (append j c₁ c₂).BindsFrom d (i.level d + 1) :=
          bindsFrom_append.mpr ⟨h₁.mono (by omega), by omega, h₂.mono (by omega)⟩
        exact ⟨⟨head, []⟩, i, append j c₁ c₂, by rw [htail]; rfl, nofun, hall⟩

/-! #### Where a tree is cut -/

/-- The number of leaves of the operands behind the joints. -/
def sizes : List (Joint × Tree α) → Nat
  | [] => 0
  | x :: rest => x.2.size + sizes rest

theorem sizes_append (a b : List (Joint × Tree α)) : sizes (a ++ b) = sizes a + sizes b := by
  induction a with
  | nil => exact (Nat.zero_add _).symm
  | cons x a ih =>
    rw [List.cons_append, sizes, sizes, ih]
    omega

theorem eq_nil_of_sizes {rest : List (Joint × Tree α)} (h : sizes rest = 0) : rest = [] := by
  cases rest with
  | nil => rfl
  | cons x rest =>
    have hpos := x.2.size_pos
    rw [sizes] at h
    omega

/-- Two ends of a list are the same if their operands have the same number of leaves. -/
theorem eq_of_append_eq {a a' b b' : List (Joint × Tree α)} (h : a ++ b = a' ++ b')
    (hsizes : sizes b = sizes b') : a = a' ∧ b = b' := by
  rcases List.append_eq_append_iff.mp h with ⟨x, rfl, rfl⟩ | ⟨x, rfl, rfl⟩
  · have hx : x = [] := eq_nil_of_sizes (by rw [sizes_append] at hsizes; omega)
    simp [hx]
  · have hx : x = [] := eq_nil_of_sizes (by rw [sizes_append] at hsizes; omega)
    simp [hx]

theorem size_graft (t : Tree (Tree α)) (x : Joint × Tree α) :
    (t.graft d x.1 x.2).flatten.size = t.flatten.size + x.2.size := by
  induction t with
  | leaf a => rfl
  | node i l r ihl ihr =>
    rw [Tree.graft]
    split
    · simp only [Tree.flatten, Tree.size, ihr]
      omega
    · rfl

theorem size_graftAll (t : Tree (Tree α)) (rest : List (Joint × Tree α)) :
    (t.graftAll d rest).flatten.size = t.flatten.size + sizes rest := by
  induction rest generalizing t with
  | nil => rfl
  | cons x rest ih =>
    show ((t.graft d x.1 x.2).graftAll d rest).flatten.size = _
    rw [ih, size_graft]
    rw [sizes]
    omega

/-- The number of leaves of a chain from its first operand on. -/
theorem size_tree (j : Joint) (c : Chain (Tree α)) :
    (c.tree d).flatten.size = sizes ((j, c.head) :: c.tail) := by
  rw [Chain.tree, size_graftAll]
  rfl

/-- **Two chains that are joined have the join of two trees only if they bind tightly enough.** -/
theorem bindsFrom_of_tree_append {c c' : Chain (Tree α)} {t : Tree α}
    (h : ((c.append j c').tree d).flatten = .node j t (c'.tree d).flatten) :
    c.BindsFrom d (j.level d) ∧ c'.BindsFrom d (j.level d + 1) ∧ (c.tree d).flatten = t := by
  obtain ⟨c₁, i, c₂, heq, h₁, h₂⟩ := exists_append (d := d) (c := c.append j c') (by simp [append])
  rw [heq, tree_append h₁ h₂] at h
  obtain ⟨rfl, rfl, hright⟩ := Tree.node.inj h
  obtain ⟨hhead, htail⟩ := Chain.mk.inj heq
  have hsizes := congrArg Tree.size hright
  rw [size_tree i, size_tree i] at hsizes
  obtain ⟨hfront, hback⟩ := eq_of_append_eq htail hsizes.symm
  obtain ⟨hc, hc'⟩ := List.cons.inj hback
  have hcc : c = c₁ := by
    cases c
    cases c₁
    exact congr (congrArg Chain.mk hhead) hfront
  have hcc' : c' = c₂ := by
    cases c'
    cases c₂
    exact congr (congrArg Chain.mk (Prod.mk.inj hc).2) hc'
  subst hcc hcc'
  exact ⟨h₁, h₂, rfl⟩

theorem bindsFrom_appendAll {cs : List (Chain α)} (hc : c.BindsFrom d (j.level d))
    (hcs : ∀ c' ∈ cs, c'.BindsFrom d (j.level d + 1)) :
    (appendAll j c cs).BindsFrom d (j.level d) := by
  induction cs generalizing c with
  | nil => exact hc
  | cons c' cs ih =>
    refine ih (bindsFrom_append.mpr ⟨hc, Nat.le_refl _, ?_⟩) fun x hx => hcs x (by simp [hx])
    exact (hcs c' (by simp)).mono (Nat.le_succ _)

/-- **Chains are joined to the join of their trees exactly if they bind tightly enough**: the first
at least as tightly as the joint, and the others tighter. -/
theorem tree_appendAll_iff {cs : List (Chain (Tree α))} {c : Chain (Tree α)} (hcs : cs ≠ []) :
    ((appendAll j c cs).tree d).flatten =
        .joinAll j (c.tree d).flatten (cs.map fun c => (c.tree d).flatten) ↔
      c.BindsFrom d (j.level d) ∧ ∀ c' ∈ cs, c'.BindsFrom d (j.level d + 1) := by
  -- The last chain is told from the rest, so the induction goes from the right.
  induction cs using List.reverseRecOn with
  | nil => exact absurd rfl hcs
  | append_singleton cs last ih =>
    have hchain : appendAll j c (cs ++ [last]) = append j (appendAll j c cs) last := by
      simp [appendAll]
    have htree : Tree.joinAll j (c.tree d).flatten
          ((cs ++ [last]).map fun c => (c.tree d).flatten) =
        .node j (.joinAll j (c.tree d).flatten (cs.map fun c => (c.tree d).flatten))
          (last.tree d).flatten := by
      simp [Tree.joinAll]
    rw [hchain, htree]
    constructor
    · intro h
      obtain ⟨hfront, hlast, heq⟩ := bindsFrom_of_tree_append h
      cases cs with
      | nil => exact ⟨hfront, by simpa using hlast⟩
      | cons c' cs =>
        obtain ⟨hc, hcs⟩ := (ih nofun).mp heq
        refine ⟨hc, fun x hx => ?_⟩
        rcases List.mem_append.mp hx with hx | hx
        · exact hcs x hx
        · rwa [List.mem_singleton.mp hx]
    · rintro ⟨hc, hall⟩
      have hfront : ∀ c' ∈ cs, c'.BindsFrom d (j.level d + 1) := fun x hx => hall x (by simp [hx])
      rw [tree_append (bindsFrom_appendAll hc hfront) (hall last (by simp)), Tree.flatten]
      cases cs with
      | nil => rfl
      | cons c' cs => rw [(ih nofun).mpr ⟨hc, hfront⟩]

end Chain

/-! ### The reader -/

/-- What a text is cut into. -/
inductive Lexeme where
  | word (t : Text)
  | joint (j : Joint)
  | opening
  | closing
  deriving DecidableEq

/-- The symbol of a term as a lexeme. -/
def Symbol.lexeme : Symbol → Lexeme
  | word t => .word t
  | operator op => .joint (.arithmetic op)
  | opening => .opening
  | closing => .closing

/-- The lexeme that a byte is alone. -/
def lexemeOf? (b : UInt8) : Option Lexeme :=
  if b = byte ',' then some (.joint .comma) else (symbolOf? b).map Symbol.lexeme

/-- A word in front of other lexemes, if it is one. Two bars are a joint. -/
def ofWord (word : Text) (rest : List Lexeme) : List Lexeme :=
  if word.isEmpty then rest
  else if word = ("||" : Text) then .joint .bars :: rest
  else .word word :: rest

/-- A word and a lexeme that ends it, in front of other lexemes. The name of the function that
concatenates is part of the parenthesis behind it. -/
def endWord (word : Text) (x : Lexeme) (rest : List Lexeme) : List Lexeme :=
  if word = ("CONCAT" : Text) ∧ x = .opening then x :: rest else ofWord word (x :: rest)

/-- The lexemes of a text behind the beginning of a word. The first `skip` bytes belong to a quoted
segment. -/
def lexemesFrom : (skip : Nat) → (word : Text) → Text → List Lexeme
  | _, word, [] => ofWord word []
  | skip + 1, word, b :: rest => lexemesFrom skip (word ++ [b]) rest
  | 0, word, b :: rest =>
    match quotedLength (b :: rest) with
    | n + 1 => lexemesFrom n (word ++ [b]) rest
    | 0 =>
      if b = byte ' ' then ofWord word (lexemesFrom 0 [] rest)
      else match lexemeOf? b with
        | some x => endWord word x (lexemesFrom 0 [] rest)
        | none => lexemesFrom 0 (word ++ [b]) rest

/-- The lexemes of a text. -/
def lexemes (t : Text) : List Lexeme := lexemesFrom 0 [] t

/-- A tree without its last operand, and the joint before that one. -/
abbrev Waiting := Option (Tree (Tree Text) × Joint)

/-- A state of the reader of a dialect: what waits around open parentheses and what waits since
then for an operand, or the tree that ends here. -/
structure ChainState where
  around : List Waiting
  here : Waiting
  tree : Option (Tree (Tree Text))

namespace ChainState

/-- The state before anything is read. -/
def start : ChainState := ⟨[], none, none⟩

/-- The tree that ends with an operand. -/
def complete (d : Dialect) (here : Waiting) (t : Tree Text) : Tree (Tree Text) :=
  match here with
  | none => .leaf t
  | some (l, j) => l.graft d j t

/-- Reads one lexeme. -/
def step (d : Dialect) (s : ChainState) : Lexeme → Option ChainState
  | .word t =>
    match s.tree with
    | none => some ⟨s.around, none, some (complete d s.here (.leaf t))⟩
    | some _ => none
  | .joint j =>
    match s.tree with
    | none => none
    | some t => some ⟨s.around, some (t, j), none⟩
  | .opening =>
    match s.tree with
    | none => some ⟨s.here :: s.around, none, none⟩
    | some _ => none
  | .closing =>
    match s.around, s.tree with
    | here :: around, some t => some ⟨around, none, some (complete d here t.flatten)⟩
    | _, _ => none

/-- Reads lexemes one after the other. -/
def run (d : Dialect) (s : ChainState) : List Lexeme → Option ChainState
  | [] => some s
  | x :: xs => (s.step d x).bind fun s => s.run d xs

/-- The tree that has been read when nothing follows. -/
def finish? (s : ChainState) : Option (Tree Text) :=
  match s.around, s.tree with
  | [], some t => some t.flatten
  | _, _ => none

end ChainState

/-- The tree that a text is read as in a dialect. -/
def readTree? (d : Dialect) (t : Text) : Option (Tree Text) :=
  (ChainState.start.run d (lexemes t)).bind ChainState.finish?

example : readTree? .oracle "[a].b || ? - c * :1" =
    some (.node (.arithmetic .subtract) (.node .bars (.leaf "[a].b") (.leaf "?"))
      (.node (.arithmetic .multiply) (.leaf "c") (.leaf ":1"))) := by
  decide

example : readTree? .mySql "CONCAT(a.b,(? - c) * d,e)" =
    some (.node .comma (.node .comma (.leaf "a.b") (.node (.arithmetic .multiply)
      (.node (.arithmetic .subtract) (.leaf "?") (.leaf "c")) (.leaf "d"))) (.leaf "e")) := by
  decide

/-! ### Where lexemes can be read -/

variable {d : Dialect} {xs ys : List Lexeme} {c c' : Chain (Tree Text)} {j : Joint}

/-- The tree with a chain of operands behind what waits. -/
def Chain.behind (d : Dialect) (here : Waiting) (c : Chain (Tree Text)) : Tree (Tree Text) :=
  (ChainState.complete d here c.head).graftAll d c.tail

/-- The lexemes are read as a chain wherever an operand can stand. -/
def ReadsChain (d : Dialect) (xs : List Lexeme) (c : Chain (Tree Text)) : Prop :=
  ∀ around here, ChainState.run d ⟨around, here, none⟩ xs =
    some ⟨around, none, some (c.behind d here)⟩

theorem ChainState.run_append (s : ChainState) (xs ys : List Lexeme) :
    s.run d (xs ++ ys) = (s.run d xs).bind fun s => s.run d ys := by
  induction xs generalizing s with
  | nil => rfl
  | cons x xs ih =>
    rw [List.cons_append, run, run]
    cases s.step d x with
    | none => rfl
    | some s => exact ih s

theorem readsChain_word (t : Text) : ReadsChain d [.word t] ⟨.leaf t, []⟩ := fun _ _ => rfl

/-- A chain in parentheses is one operand. -/
theorem ReadsChain.parens (h : ReadsChain d xs c) :
    ReadsChain d (.opening :: (xs ++ [.closing])) ⟨(c.tree d).flatten, []⟩ := by
  intro around here
  show ChainState.run d ⟨here :: around, none, none⟩ (xs ++ [.closing]) = _
  rw [ChainState.run_append, h]
  rfl

/-- Chains with a joint between them are one chain. -/
theorem ReadsChain.append (h : ReadsChain d xs c) (h' : ReadsChain d ys c') (j : Joint) :
    ReadsChain d (xs ++ .joint j :: ys) (c.append j c') := by
  intro around here
  rw [ChainState.run_append, h around here]
  show ChainState.run d ⟨around, some (c.behind d here, j), none⟩ ys = _
  rw [h', Chain.behind, Chain.behind, Chain.behind, Chain.append, Tree.graftAll_append]
  rfl

/-! ### Texts and their lexemes -/

/-- A text that ends a word: nothing, a blank, a comma, or a closing parenthesis. -/
def CutsWord (t : Text) : Prop := ∀ b ∈ t.head?, b = byte ' ' ∨ b = byte ',' ∨ b = byte ')'

/-- The text is cut into the lexemes, whatever ends its last word. -/
def Cuts (t : Text) (xs : List Lexeme) : Prop :=
  ∀ rest, CutsWord rest → lexemesFrom 0 [] (t ++ rest) = xs ++ lexemesFrom 0 [] rest

/-- The text is part of one word, whatever stands before and behind it. -/
def Unbroken (t : Text) : Prop :=
  ∀ word rest, Fresh rest → lexemesFrom 0 word (t ++ rest) = lexemesFrom 0 (word ++ t) rest

theorem lexemeOf?_eq_none_iff {b : UInt8} :
    lexemeOf? b = none ↔ b ≠ byte ',' ∧ symbolOf? b = none := by
  unfold lexemeOf?
  split <;> simp_all

/-- The byte neither quotes nor separates, and it is no lexeme alone. -/
def IsPlainByte (b : UInt8) : Prop := closer? b = none ∧ b ≠ byte ' ' ∧ lexemeOf? b = none

instance : DecidablePred IsPlainByte := fun b => by
  unfold IsPlainByte
  infer_instance

theorem CutsWord.fresh {t : Text} (h : CutsWord t) : Fresh t := by
  intro b hb
  rcases h b hb with rfl | rfl | rfl <;> decide

theorem ofWord_cutsWord {rest : Text} (h : CutsWord rest) (word : Text) :
    lexemesFrom 0 word rest = ofWord word (lexemesFrom 0 [] rest) := by
  cases rest with
  | nil => rfl
  | cons b rest =>
    rcases h b rfl with rfl | rfl | rfl
    · rfl
    · exact if_neg nofun
    · exact if_neg nofun

theorem Unbroken.cuts {t : Text} (h : Unbroken t) (hne : t ≠ []) (hbars : t ≠ ("||" : Text)) :
    Cuts t [.word t] := by
  intro rest hrest
  rw [h [] rest hrest.fresh, List.nil_append, ofWord_cutsWord hrest, ofWord]
  simp [hne, hbars]

theorem Unbroken.append {t u : Text} (ht : Unbroken t) (hu : Unbroken u) (hfresh : Fresh u)
    (hne : u ≠ []) : Unbroken (t ++ u) := by
  intro word rest hrest
  rw [List.append_assoc, ht word (u ++ rest) (hfresh.append_of_ne_nil hne rest),
    hu _ rest hrest, List.append_assoc]

/-- Plain bytes are part of a word. -/
theorem lexemesFrom_append {t : Text} (h : ∀ b ∈ t, IsPlainByte b) (word rest : Text) :
    lexemesFrom 0 word (t ++ rest) = lexemesFrom 0 (word ++ t) rest := by
  induction t generalizing word with
  | nil => simp
  | cons b t ih =>
    obtain ⟨hc, hb, hs⟩ := h b (by simp)
    have hquoted : quotedLength (b :: (t ++ rest)) = 0 := by simp [quotedLength, hc]
    rw [List.cons_append, lexemesFrom, hquoted]
    simp only [hb, if_false, hs]
    rw [ih (fun c hc => h c (by simp [hc])), List.append_assoc, List.singleton_append]

theorem unbroken_of_forall {t : Text} (h : ∀ b ∈ t, IsPlainByte b) : Unbroken t :=
  fun word rest _ => lexemesFrom_append h word rest

theorem Unbroken.prepend {t u : Text} (hu : Unbroken u) (h : ∀ b ∈ t, IsPlainByte b) :
    Unbroken (t ++ u) := by
  intro word rest hrest
  rw [List.append_assoc, lexemesFrom_append h, hu _ rest hrest, List.append_assoc]

theorem lexemesFrom_skip {q : Text} (word rest : Text) :
    lexemesFrom q.length word (q ++ rest) = lexemesFrom 0 (word ++ q) rest := by
  induction q generalizing word with
  | nil => simp
  | cons b q ih =>
    rw [List.length_cons, List.cons_append, lexemesFrom, ih, List.append_assoc,
      List.singleton_append]

/-- A quoted segment is part of a word. -/
theorem unbroken_of_quotedLength {q : Text} (hne : q ≠ [])
    (h : ∀ rest, Fresh rest → quotedLength (q ++ rest) = q.length) : Unbroken q := by
  intro word rest hrest
  obtain ⟨b, q, rfl⟩ := List.exists_cons_of_ne_nil hne
  have hl := h rest hrest
  rw [List.cons_append, List.length_cons] at hl
  rw [List.cons_append, lexemesFrom, hl]
  show lexemesFrom q.length (word ++ [b]) (q ++ rest) = _
  rw [lexemesFrom_skip, List.append_assoc, List.singleton_append]

theorem Cuts.parens {t : Text} (h : Cuts t xs) :
    Cuts ("(" ++ t ++ ")") (.opening :: (xs ++ [.closing])) := by
  intro rest hrest
  have hclose : CutsWord (")" ++ rest) := by
    intro b hb
    cases hb
    exact .inr (.inr rfl)
  have hopen : lexemesFrom 0 [] ("(" ++ (t ++ (")" ++ rest))) =
      .opening :: lexemesFrom 0 [] (t ++ (")" ++ rest)) := rfl
  have hlast : lexemesFrom 0 [] (")" ++ rest) = .closing :: lexemesFrom 0 [] rest := rfl
  rw [List.append_assoc, List.append_assoc, hopen, h _ hclose, hlast]
  simp

/-- The text is written for the joint: it ends a word, and nothing of it is left behind. -/
def Links (token : Text) (j : Joint) : Prop :=
  ∀ rest, CutsWord (token ++ rest) ∧
    lexemesFrom 0 [] (token ++ rest) = .joint j :: lexemesFrom 0 [] rest

theorem links_comma : Links "," .comma := fun _ =>
  ⟨fun b hb => by cases hb; exact .inr (.inl rfl), rfl⟩

theorem links_bars : Links " || " .bars := fun _ =>
  ⟨fun b hb => by cases hb; exact .inl rfl, rfl⟩

theorem links_arithmetic {op : BinaryOp} {token : Text}
    (hop : op ∈ [BinaryOp.add, .subtract, .multiply, .divide, .modulo])
    (htoken : op.token? = some token) : Links token (.arithmetic op) := by
  intro rest
  simp only [List.mem_cons, List.not_mem_nil, or_false] at hop
  rcases hop with rfl | rfl | rfl | rfl | rfl <;> cases htoken <;>
    exact ⟨fun b hb => by cases hb; exact .inl rfl, rfl⟩

theorem Cuts.append {t u token : Text} (ht : Cuts t xs) (hj : Links token j) (hu : Cuts u ys) :
    Cuts (t ++ token ++ u) (xs ++ .joint j :: ys) := by
  intro rest hrest
  obtain ⟨hcut, hlexemes⟩ := hj (u ++ rest)
  rw [List.append_assoc, List.append_assoc, ht _ hcut, hlexemes, hu rest hrest]
  simp

/-! ### Texts and their chains -/

/-- The text is written for a chain. -/
def Writes (d : Dialect) (t : Text) (c : Chain (Tree Text)) : Prop :=
  ∃ xs, Cuts t xs ∧ ReadsChain d xs c

theorem Cuts.writes {t : Text} (h : Cuts t [.word t]) : Writes d t ⟨.leaf t, []⟩ :=
  ⟨_, h, readsChain_word t⟩

theorem Writes.parens {t : Text} (h : Writes d t c) :
    Writes d ("(" ++ t ++ ")") ⟨(c.tree d).flatten, []⟩ := by
  obtain ⟨xs, hcuts, hreads⟩ := h
  exact ⟨_, hcuts.parens, hreads.parens⟩

theorem Writes.append {t u token : Text} (ht : Writes d t c) (hj : Links token j)
    (hu : Writes d u c') : Writes d (t ++ token ++ u) (c.append j c') := by
  obtain ⟨xs, hxs, hc⟩ := ht
  obtain ⟨ys, hys, hc'⟩ := hu
  exact ⟨_, hxs.append hj hys, hc.append hc' j⟩

/-- **A text that is written for a chain is read as its tree.** -/
theorem Writes.readTree? {t : Text} (h : Writes d t c) :
    readTree? d t = some (c.tree d).flatten := by
  obtain ⟨xs, hcuts, hreads⟩ := h
  have hxs : lexemes t = xs := by
    have hnil := hcuts [] nofun
    simpa [lexemes, lexemesFrom, ofWord] using hnil
  rw [Sql.readTree?, hxs, ChainState.start, hreads]
  rfl

end QueryTree.Sql
