import QueryTree.Proofs.Closed
import QueryTree.Proofs.Readable
import QueryTree.Proofs.StatementMarks

/-!
# Grouping

An operand of `AND` and `OR` is put in parentheses when both of its own operands are operators or
calls that yield truth values. The rule looks at kinds of expressions and not at what they emit, and
it is partial: a column or a negation as an operand leaves its operator bare. For conditions whose
leaves are comparisons and calls it is complete. Every operand that is joined itself has two such
operands, so it is in parentheses, and the text has two units at each level.

A condition is read back as a tree. `AND` binds tighter than `OR`, both group from the left, and
parentheses only group. The tree of a condition's text is that of the condition, with each leaf
replaced by what its own text is read as. For most leaves that is the text itself; the test for a
missing or empty text is written as two comparisons in parentheses.

## Main definitions

* `Sql.JoinTree`, `Sql.parse`: the tree that a text is read as
* `Expr.tree`: the tree of a condition
* `Expr.Compounded`: conditions joined from comparisons and calls

## Main results

* `Expr.Compounded.parses`: a joined condition is read back from what it compiles to
* `parse_text_eq_tree`: so is one that is compiled on its own
-/

namespace QueryTree

open Sql Emit

namespace Sql

/-! ### Trees -/

/-- A tree joined by `AND` and `OR`. -/
inductive JoinTree (α : Type) where
  | leaf (a : α)
  | node (isOr : Bool) (l r : JoinTree α)
  deriving DecidableEq

namespace JoinTree

variable {α β : Type}

/-- The tree with its leaves replaced. -/
def map (f : α → β) : JoinTree α → JoinTree β
  | leaf a => leaf (f a)
  | node isOr l r => node isOr (l.map f) (r.map f)

/-- The tree with trees in place of its leaves. -/
def bind (f : α → JoinTree β) : JoinTree α → JoinTree β
  | leaf a => f a
  | node isOr l r => node isOr (l.bind f) (r.bind f)

/-- The leaves of a tree from left to right. -/
def leaves : JoinTree α → List α
  | leaf a => [a]
  | node _ l r => l.leaves ++ r.leaves

end JoinTree

namespace Formula

mutual

/-- The tree that a formula is: parentheses only group, and operators group from the left. -/
def tree : Formula → JoinTree Text
  | atom t => .leaf t
  | group f => f.tree
  | and f g => g.treeAfter false f.tree
  | or f g => g.treeAfter true f.tree

/-- The tree of a formula behind an operator and the tree `before` it. -/
def treeAfter (isOr : Bool) (before : JoinTree Text) : Formula → JoinTree Text
  | atom t => .node isOr before (.leaf t)
  | group f => .node isOr before f.tree
  | and f g =>
    if isOr then .node true before (g.treeAfter false f.tree)
    else g.treeAfter false (.node false before f.tree)
  | or f g =>
    if isOr then g.treeAfter true (.node true before f.tree)
    else .node false before (g.treeAfter true f.tree)

end

/-- Whether a formula is an atom or in parentheses. -/
def isUnit (f : Formula) : Bool := !f.isAnd && !f.isOr

variable {f g : Formula}

/-- Two formulas joined by `OR` or by `AND`. -/
def merge (isOr : Bool) (f g : Formula) : Formula := if isOr then disj f g else conj f g

theorem text_merge (isOr : Bool) (f g : Formula) :
    (merge isOr f g).text = f.text ++ (if isOr then (" OR " : Text) else " AND ") ++ g.text := by
  cases isOr with
  | true => exact text_disj f g
  | false => exact text_conj f g

theorem Legible.merge (hf : f.Legible) (hg : g.Legible) (isOr : Bool) :
    (merge isOr f g).Legible := by
  cases isOr with
  | true => exact hf.disj hg
  | false => exact hf.conj hg

/-- Two units joined are a tree of two. -/
theorem tree_merge (hf : f.isUnit = true) (hg : g.isUnit = true) (isOr : Bool) :
    (merge isOr f g).tree = .node isOr f.tree g.tree := by
  cases f with
  | atom | group =>
    cases g with
    | atom | group => cases isOr <;> rfl
    | and | or => cases hg
  | and | or => cases hf

theorem tree_grouped (parens : Bool) (f : Formula) : (f.grouped parens).tree = f.tree := by
  cases parens <;> rfl

end Formula

/-- The tree that a text is read as. -/
def parse (t : Text) : JoinTree Text := (read t).tree

example : parse "a = 1 AND b = 2 AND c = 3 OR d = 4 AND (e = 5 OR f = 6)" =
    .node true
      (.node false (.node false (.leaf "a = 1") (.leaf "b = 2")) (.leaf "c = 3"))
      (.node false (.leaf "d = 4") (.node true (.leaf "e = 5") (.leaf "f = 6"))) := by
  decide

end Sql

/-! ### Conditions joined from comparisons and calls -/

/-- Whether the method is a pattern test, a test for a missing or empty text, or a test of
membership in a list that is not known to be empty. -/
def Intrinsic.isTest : Intrinsic → (args : List Expr) → Bool
  | like .., _ | contains, _ | isNullOrEmpty, _ => true
  | membership _, x :: _ => !x.isEmptyList
  | _, _ => false

namespace Expr

/-- The tree of a condition. -/
def tree : Expr → JoinTree Expr
  | binary op l r => if op.isLogical then .node op.isOr l.tree r.tree else .leaf (binary op l r)
  | e => .leaf e

/-- The method and the arguments beside the target of a call of a method that has a rule. -/
def ruled? : Expr → Option (Intrinsic × List Expr)
  | call receiver method args _ _ =>
    (Intrinsic.ofName? method).map fun i => (i, besideTarget receiver args)
  | _ => none

/-- Whether the expression is a test for a missing or empty text. -/
def isBlankTest (e : Expr) : Bool := e.ruled?.any fun x => x.1 = .isNullOrEmpty

/-- Whether the expression is a call of such a method. -/
def isTextTest (e : Expr) : Bool := e.ruled?.any fun x => x.1.isTest x.2

/-- Whether the expression compares a condition with a truth literal, which keeps or negates the
condition. -/
def isTruthComparison : Expr → Bool
  | binary op l r => (op = .equal || op = .notEqual) &&
    ((r.literalTruth?.isSome && l.isCondition) || (l.literalTruth?.isSome && r.isCondition))
  | _ => false

/-- The conditions joined by logical operators from comparisons of rows that keep or negate no
condition, and from calls of methods on rows that test texts and lists. -/
inductive Compounded : Expr → Prop
  | comparison {op : BinaryOp} {l r : Expr} (hop : op.isComparison = true)
    (hopen : (binary op l r).isClosed = false)
    (hplain : (binary op l r).isTruthComparison = false) : Compounded (binary op l r)
  | test {e : Expr} (he : e.isTextTest = true) (hopen : e.isClosed = false)
    (hbool : e.isBool = true) : Compounded e
  | joined {op : BinaryOp} {l r : Expr} (hop : op.isLogical = true) (hl : Compounded l)
    (hr : Compounded r) : Compounded (binary op l r)

variable {e : Expr}

theorem isCall_of_isTextTest (h : e.isTextTest = true) :
    ∃ receiver method args type callee, e = call receiver method args type callee := by
  cases e with
  | call receiver method args type callee => exact ⟨receiver, method, args, type, callee, rfl⟩
  | _ => cases h

theorem isLogical_of_isComparison {op : BinaryOp} (h : op.isComparison = true) :
    op.isLogical = false := by
  cases op <;> first | rfl | cases h

namespace Compounded

theorem isCompound (h : Compounded e) : e.isCompound = true := by
  cases h with
  | comparison | joined => rfl
  | test he hopen hbool =>
    obtain ⟨receiver, method, args, type, callee, rfl⟩ := isCall_of_isTextTest he
    exact hbool

theorem isClosed (h : Compounded e) : e.isClosed = false := by
  induction h with
  | comparison hop hopen hplain => exact hopen
  | test he hopen hbool => exact hopen
  | joined hop hl hr ihl ihr => rw [isClosed_binary, ihl, Bool.false_and]

theorem literalTruth? (h : Compounded e) : e.literalTruth? = none := by
  cases h with
  | comparison | joined => rfl
  | test he hopen hbool =>
    obtain ⟨receiver, method, args, type, callee, rfl⟩ := isCall_of_isTextTest he
    rfl

end Compounded

end Expr

/-! ### What tests are read as -/

section Tests

variable {st : Settings} {c : Clause} {s s' : Slate} {t : Text}

/-- The values are emitted with readable names. -/
abbrev Emit.Readable (st : Settings) (m : Emit Text) : Prop :=
  Emits (.readable st.quoted) (ValueText st (.readable st.quoted)) m

theorem Emit.Readable.valued {m : Emit Text} (h : Readable st m)
    (hs : s.aliases.Within (.readable st.quoted)) (hy : Yields m s t s') :
    Valued t ∧ s'.aliases.Within (.readable st.quoted) :=
  ⟨(h s t s' hs hy).2.valued, (h s t s' hs hy).1⟩

theorem Emit.Readable.atomic {l r : Emit Text} {token : Text} (hl : Readable st l)
    (hr : Readable st r) (ht : token ∈ comparisonTokens)
    (hs : s.aliases.Within (.readable st.quoted)) (h : Yields (join l token r) s t s') :
    Atomic t := by
  obtain ⟨a, s₁, b, ha, hb, rfl⟩ := yields_join.mp h
  obtain ⟨hva, hs₁⟩ := hl.valued hs ha
  exact ⟨a, token, b, ht, hva, (hr.valued hs₁ hb).1, rfl⟩

theorem Emit.Readable.atomic_compared {l r : Emit Text} {op : BinaryOp} (hl : Readable st l)
    (hr : Readable st r) (hop : op.isComparison = true)
    (hs : s.aliases.Within (.readable st.quoted)) (h : Yields (compared op l r) s t s') :
    Atomic t := by
  simp only [compared, yields_bind, yields_after, yields_setPending, yields_pure] at h
  obtain ⟨a, s₁, ha, b, s₂, hb, _, s₃, -, rfl, -⟩ := h
  obtain ⟨hva, hs₁⟩ := hl.valued hs ha
  exact ⟨a, _, b, comparison_token hop (decide (b = ("NULL" : Text))), hva,
    (hr.valued hs₁ hb).1, rfl⟩

namespace Expr

variable {e l r : Expr}

/-- A condition on rows is compiled by its own rule. -/
theorem yields_of_not_isClosed {own : Emit Text} (he : e.isClosed = false)
    (h : Yields (folding st e (constantCondition · c) own) s t s') : Yields own s t s' := by
  rw [yields_folding, folded?_of_not_isClosed he] at h
  obtain ⟨_, hv, -⟩ | ⟨-, hy⟩ := h
  · cases hv
  · exact hy

theorem truthComparison?_eq_none
    (h : ((r.literalTruth?.isSome && l.isCondition) ||
      (l.literalTruth?.isSome && r.isCondition)) = false) :
    Rendering.truthComparison? (l.render st) (r.render st) = none := by
  rw [Bool.or_eq_false_iff] at h
  rw [Rendering.truthComparison?, render_expr, render_expr]
  cases hr : r.literalTruth? <;> cases hl : l.literalTruth? <;> simp_all

/-- A comparison that keeps or negates no condition compares two values. -/
theorem comparison_eq_compared {op : BinaryOp} (h : (binary op l r).isTruthComparison = false) :
    Rendering.comparison op (l.render st) (r.render st) c =
      if l.isNullConstant && !r.isNullConstant then
        compared op (grouped r.needsParens ((r.render st).value c))
          (grouped l.needsParens ((l.render st).value c))
      else
        compared op (grouped l.needsParens ((l.render st).value c))
          (grouped r.needsParens ((r.render st).value c)) := by
  rw [isTruthComparison] at h
  rw [Rendering.comparison, render_expr, render_expr]
  cases l.isNullConstant && !r.isNullConstant with
  | true | false =>
    simp only [render_expr, if_true, Bool.false_eq_true, if_false]
    split
    · rename_i heq
      rw [heq, Bool.true_and] at h
      rw [truthComparison?_eq_none h]
    · rfl

theorem atomic_of_comparison {op : BinaryOp} (hop : op.isComparison = true)
    (hopen : (binary op l r).isClosed = false)
    (hplain : (binary op l r).isTruthComparison = false)
    (he : (binary op l r).Named st (.readable st.quoted))
    (hs : s.aliases.Within (.readable st.quoted))
    (h : Yields (((binary op l r).render st).condition c) s t s') : Atomic t := by
  rw [condition_binary] at h
  have hy := yields_of_not_isClosed hopen h
  rw [Rendering.binaryCondition, isLogical_of_isComparison hop, if_neg nofun, if_pos hop,
    comparison_eq_compared hplain] at hy
  have hvl := emits_grouped ((lawful_render he.1).value c)
  have hvr := emits_grouped ((lawful_render he.2).value c)
  split at hy
  · exact Readable.atomic_compared (hvr _) (hvl _) hop hs hy
  · exact Readable.atomic_compared (hvl _) (hvr _) hop hs hy

theorem lawful_operands_render {L : Lexicon} {receiver : Expr} {method : Text} {args : List Expr}
    {type : Option Ty} {callee : Option Text}
    (h : (call receiver method args type callee).Named st L) :
    (Rendering.operands (receiver.render st) (args.map (render st))).1.Lawful (grammar st L) False ∧
      ∀ x ∈ (besideTarget receiver args).map (render st), x.Lawful (grammar st L) False := by
  have hargs : ∀ x ∈ args.map (render st), x.Lawful (grammar st L) False := by
    have hall := grammatical_renderAll (lawful_renderTo 9999) args h.2.1
    rwa [renderAll_eq_map] at hall
  obtain ⟨htarget, hrest, -⟩ := Rendering.lawful_operands
    ((lawful_render h.1).mono False.elim) hargs fun _ (hraw : False) => hraw.elim
  rw [operands_render] at hrest
  exact ⟨htarget, hrest⟩

end Expr

/-- A test for a missing or empty text, with the texts that the value has the first and the second
time that it is emitted. -/
def Sql.Formula.blank (a b : Text) : Formula :=
  .group (.or (.atom (a ++ " IS NULL")) (.atom (b ++ " = ''")))

theorem Sql.Formula.text_blank (a b : Text) :
    (blank a b).text = "(" ++ (a ++ " IS NULL OR " ++ b) ++ " = '')" := by
  have hor : (" IS NULL OR " : Text) = " IS NULL" ++ " OR " := by decide
  have hclose : (" = '')" : Text) = " = ''" ++ ")" := by decide
  simp only [blank, text, hor, hclose, List.append_assoc]

/-- The text of a test is one unit: a test for a missing or empty text is two comparisons in
parentheses, and any other test is a comparison. -/
def Sql.ReadsTest (isBlank : Bool) (t : Text) : Prop :=
  ∃ f : Formula, f.Legible ∧ f.text = t ∧ f.isUnit = true ∧
    if isBlank then ∃ a b, f = .blank a b else f = .atom t

theorem Sql.Atomic.readsTest (h : Atomic t) : ReadsTest false t :=
  ⟨.atom t, legible_atom h, rfl, rfl, rfl⟩

theorem Sql.ReadsTest.parse_eq (h : ReadsTest false t) : parse t = .leaf t := by
  obtain ⟨f, hf, rfl, -, hform⟩ := h
  rw [parse, read_text hf]
  exact congrArg Formula.tree hform

theorem Sql.ReadsTest.exists_blank (h : ReadsTest true t) : ∃ a b,
    t = "(" ++ (a ++ " IS NULL OR " ++ b) ++ " = '')" ∧
      parse t = .node true (.leaf (a ++ " IS NULL")) (.leaf (b ++ " = ''")) := by
  obtain ⟨f, hf, rfl, -, a, b, rfl⟩ := h
  refine ⟨a, b, Formula.text_blank a b, ?_⟩
  rw [parse, read_text hf]
  rfl

theorem Sql.readsTest_blank {a b : Text} (ha : Valued a) (hb : Valued b) :
    ReadsTest true ("(" ++ (a ++ " IS NULL OR " ++ b) ++ " = '')") := by
  have hnull : (Formula.atom (a ++ " IS NULL")).Legible :=
    legible_atom ⟨a, " IS ", "NULL", by decide, ha, valued_valueWord (by decide),
      by rw [List.append_assoc]; rfl⟩
  have hempty : (Formula.atom (b ++ " = ''")).Legible :=
    legible_atom ⟨b, " = ", "''", by decide, hb, valued_valueWord (by decide),
      by rw [List.append_assoc]; rfl⟩
  exact ⟨.blank a b, (hnull.disj hempty).group, Formula.text_blank a b, rfl, a, b, rfl⟩

namespace Rendering

variable {target : Rendering}

theorem atomic_of_likeTest {isNegated : Bool} {pattern : Pattern} {arg : Rendering}
    (ht : target.Lawful (grammar st (.readable st.quoted)) False)
    (ha : arg.Lawful (grammar st (.readable st.quoted)) False)
    (hs : s.aliases.Within (.readable st.quoted))
    (h : Yields (likeTest st isNegated pattern target arg c) s t s') : Atomic t :=
  Readable.atomic (ht.value c) (emits_pattern pattern ha c) (likeToken_mem isNegated) hs h

theorem atomic_of_membership {isNegated : Bool} {x list : Rendering}
    (hx : x.Lawful (grammar st (.readable st.quoted)) False)
    (hlist : list.Lawful (grammar st (.readable st.quoted)) False)
    (hne : isNegated = true → list.expr.isEmptyList = false)
    (hs : s.aliases.Within (.readable st.quoted))
    (h : Yields (membership x list isNegated c) s t s') : Atomic t := by
  unfold membership at h
  split at h
  · rename_i hempty
    cases isNegated with
    | true => rw [hne rfl] at hempty; cases hempty
    | false =>
      obtain ⟨rfl, -⟩ := yields_pure.mp h
      exact ⟨"1", " = ", "0", by decide, valued_valueWord (by decide),
        valued_valueWord (by decide), rfl⟩
  · exact Readable.atomic (hx.value c) (emits_members hlist) (inToken_mem isNegated) hs h

/-- The texts of tests, one case per method. -/
theorem readsTest_of_intrinsic {i : Intrinsic} {rest : List Expr} (hi : i.isTest rest = true)
    (ht : target.Lawful (grammar st (.readable st.quoted)) False)
    (hrest : ∀ x ∈ rest.map (Expr.render st), x.Lawful (grammar st (.readable st.quoted)) False)
    (hs : s.aliases.Within (.readable st.quoted))
    (h : Yields (intrinsic st target (rest.map (Expr.render st)) c i) s t s') :
    ReadsTest (decide (i = .isNullOrEmpty)) t := by
  cases i with
  | like isNegated pattern =>
    cases rest with
    | nil => exact absurd h not_yields_fault
    | cons x xs => exact (atomic_of_likeTest ht (hrest _ (by simp)) hs h).readsTest
  | membership isNegated =>
    cases rest with
    | nil => exact absurd h not_yields_fault
    | cons x xs =>
      refine (atomic_of_membership ht (hrest _ (by simp)) (fun _ => ?_) hs h).readsTest
      rw [Expr.render_expr]
      simpa [Intrinsic.isTest] using hi
  | contains =>
    cases rest with
    | nil => exact absurd h not_yields_fault
    | cons x xs =>
      have hx := hrest (x.render st) (by simp)
      rw [List.map_cons, intrinsic] at h
      split at h
      · have hne : false = true → target.expr.isEmptyList = false := fun h =>
          absurd h Bool.false_ne_true
        exact (atomic_of_membership hx ht hne hs h).readsTest
      · exact (atomic_of_likeTest ht hx hs h).readsTest
  | isNullOrEmpty =>
    obtain ⟨_, hy, rfl⟩ := yields_enclose.mp h
    obtain ⟨a, s₁, b, ha, hb, rfl⟩ := yields_join.mp hy
    obtain ⟨hva, hs₁⟩ := Readable.valued (ht.value c) hs ha
    exact readsTest_blank hva (Readable.valued (ht.value c) hs₁ hb).1
  | equals | function | trim | aggregate => cases hi

end Rendering

namespace Expr

variable {e : Expr}

/-- **What a test of a text or a list compiles to.** -/
theorem readsTest_of_isTextTest (he : e.isTextTest = true) (hopen : e.isClosed = false)
    (hn : e.Named st (.readable st.quoted)) (hs : s.aliases.Within (.readable st.quoted))
    (h : Yields ((e.render st).condition c) s t s') : ReadsTest e.isBlankTest t := by
  obtain ⟨receiver, method, args, type, callee, rfl⟩ := isCall_of_isTextTest he
  rw [condition_call] at h
  have hy := yields_of_not_isClosed hopen h
  obtain ⟨htarget, hrest⟩ := lawful_operands_render hn
  cases hi : Intrinsic.ofName? method with
  | none => simp [isTextTest, ruled?, hi] at he
  | some i =>
    have htest : i.isTest (besideTarget receiver args) = true := by
      simpa [isTextTest, ruled?, hi] using he
    have hcond : i.isCondition = true := by
      cases i with
      | like | membership | contains | isNullOrEmpty | equals => rfl
      | function | trim | aggregate => cases htest
    have hy := Rendering.yields_of_emitCall hi hcond hy
    rw [operands_render] at hy
    rw [isBlankTest, ruled?, hi]
    exact Rendering.readsTest_of_intrinsic htest htarget hrest hs hy

end Expr

/-! ### Reading back -/

/-- The conditions yield the texts, one after the other. -/
def Emit.YieldsAll (st : Settings) (c : Clause) : List (Expr × Text) → (s s' : Slate) → Prop
  | [], s, s' => s' = s
  | x :: xs, s, s' => ∃ s₁, Yields ((x.1.render st).condition c) s x.2 s₁ ∧ YieldsAll st c xs s₁ s'

theorem Emit.YieldsAll.append {xs ys : List (Expr × Text)} {s₁ : Slate}
    (hxs : YieldsAll st c xs s s₁) (hys : YieldsAll st c ys s₁ s') :
    YieldsAll st c (xs ++ ys) s s' := by
  induction xs generalizing s with
  | nil =>
    obtain rfl := hxs
    exact hys
  | cons x xs ih =>
    obtain ⟨s₂, hx, hxs⟩ := hxs
    exact ⟨s₂, hx, ih hxs⟩

/-- The tree `T` of a condition with the texts that its leaves yield, and the formula `f` that the
condition's text is: the tree of the formula is `T` with each leaf read on its own. -/
structure Expr.Parses (st : Settings) (c : Clause) (e : Expr) (s s' : Slate)
    (T : JoinTree (Expr × Text)) (f : Formula) : Prop where
  tree_eq : T.map Prod.fst = e.tree
  yields : YieldsAll st c T.leaves s s'
  tests : ∀ x ∈ T.leaves, ReadsTest x.1.isBlankTest x.2
  legible : f.Legible
  isUnit : (f.grouped e.needsParens).isUnit = true
  tree_formula : f.tree = T.bind fun x => parse x.2

namespace Expr

variable {e l r : Expr}

/-- A test is read as what its text is read as. -/
theorem parses_leaf (htree : e.tree = .leaf e) (ht : ReadsTest e.isBlankTest t)
    (h : Yields ((e.render st).condition c) s t s') :
    ∃ T f, Parses st c e s s' T f ∧ f.text = t := by
  obtain ⟨f, hf, rfl, hunit, hform⟩ := ht
  refine ⟨.leaf (e, f.text), f, ⟨htree.symm, ⟨s', h, rfl⟩, ?_, hf, ?_, ?_⟩, rfl⟩
  · intro x hx
    obtain rfl := List.mem_singleton.mp hx
    exact ⟨f, hf, rfl, hunit, hform⟩
  · cases e.needsParens with
    | true => rfl
    | false => exact hunit
  · rw [JoinTree.bind, parse, read_text hf]

theorem isEmpty_parenthesised (parens : Bool) (t : Text) :
    (parenthesised parens t).isEmpty = t.isEmpty := by
  cases parens <;> cases t <;> rfl

/-- What two conditions on rows joined by a logical operator compile to. -/
theorem Compounded.yields_joined {op : BinaryOp} (hop : op.isLogical = true) (hl : Compounded l)
    (hr : Compounded r) (h : Yields (((binary op l r).render st).condition c) s t s') :
    ∃ a s₁ b, Yields ((l.render st).condition c) s a s₁ ∧
      Yields ((r.render st).condition c) s₁ b s' ∧ (a ≠ [] → b ≠ [] →
        t = parenthesised l.needsParens a ++ (if op.isOr then (" OR " : Text) else " AND ") ++
          parenthesised r.needsParens b) := by
  rw [condition_binary] at h
  have hy := yields_of_not_isClosed (Compounded.joined hop hl hr).isClosed h
  rw [Rendering.binaryCondition, if_pos hop, Rendering.logical, render_expr, render_expr,
    hl.literalTruth?, hr.literalTruth?, logical_token hop] at hy
  simp only [reduceCtorEq, decide_false, Bool.or_self, Bool.and_false, Bool.false_eq_true, if_false,
    Emit.yields_joined, yields_groupedCondition] at hy
  obtain ⟨_, s₁, _, ⟨a, ha, rfl⟩, ⟨b, hb, rfl⟩, rfl⟩ := hy
  refine ⟨a, s₁, b, ha, hb, fun hane hbne => ?_⟩
  rw [isEmpty_parenthesised, isEmpty_parenthesised, List.isEmpty_eq_false_iff.mpr hane,
    List.isEmpty_eq_false_iff.mpr hbne]
  rfl

/-- The operands of a joined condition are units beside its operator. -/
theorem Parses.joined {op : BinaryOp} {s₁ : Slate} {T U : JoinTree (Expr × Text)} {f g : Formula}
    (hop : op.isLogical = true) (hl : Compounded l) (hr : Compounded r)
    (hT : Parses st c l s s₁ T f) (hU : Parses st c r s₁ s' U g) :
    Parses st c (binary op l r) s s' (.node op.isOr T U)
      (.merge op.isOr (f.grouped l.needsParens) (g.grouped r.needsParens)) where
  tree_eq := by
    rw [JoinTree.map, hT.tree_eq, hU.tree_eq, tree, if_pos hop]
  yields := hT.yields.append hU.yields
  tests x hx := by
    rcases List.mem_append.mp hx with hx | hx
    · exact hT.tests x hx
    · exact hU.tests x hx
  legible := (hT.legible.grouped _).merge (hU.legible.grouped _) _
  isUnit := by
    rw [needsParens, hl.isCompound, hr.isCompound]
    rfl
  tree_formula := by
    rw [Formula.tree_merge hT.isUnit hU.isUnit, Formula.tree_grouped, Formula.tree_grouped,
      hT.tree_formula, hU.tree_formula, JoinTree.bind]

/-- **A joined condition is read back from what it compiles to.** -/
theorem Compounded.parses (he : Compounded e) (hn : e.Named st (.readable st.quoted))
    (hs : s.aliases.Within (.readable st.quoted)) (h : Yields ((e.render st).condition c) s t s') :
    ∃ T f, Parses st c e s s' T f ∧ f.text = t := by
  induction he generalizing s s' t with
  | @comparison op l r hop hopen hplain =>
    have hatomic := atomic_of_comparison hop hopen hplain hn hs h
    have htree : (binary op l r).tree = .leaf (binary op l r) := by
      rw [tree, isLogical_of_isComparison hop]
      rfl
    exact parses_leaf htree hatomic.readsTest h
  | @test e he hopen hbool =>
    have htree : e.tree = .leaf e := by
      obtain ⟨receiver, method, args, type, callee, rfl⟩ := isCall_of_isTextTest he
      rfl
    exact parses_leaf htree (readsTest_of_isTextTest he hopen hn hs h) h
  | @joined op l r hop hl hr ihl ihr =>
    obtain ⟨a, s₁, b, ha, hb, htext⟩ := hl.yields_joined hop hr h
    have hs₁ := ((lawful_render hn.1).condition c _ a s₁ hs ha).1
    obtain ⟨T, f, hT, rfl⟩ := ihl hn.1 hs ha
    obtain ⟨U, g, hU, rfl⟩ := ihr hn.2 hs₁ hb
    refine ⟨_, _, hT.joined hop hl hr hU, ?_⟩
    rw [htext (Formula.text_ne_nil hT.legible.atomic) (Formula.text_ne_nil hU.legible.atomic),
      Formula.text_merge, hT.legible.text_grouped, hU.legible.text_grouped]

end Expr

end Tests

/-- **The text of a joined condition is read back as the condition.** The leaves of the tree yield
their texts one after the other, and what the whole text is read as is the tree with each leaf read
on its own. The text of a test for a missing or empty text is a disjunction in parentheses, and that
of any other leaf is a comparison. -/
theorem parse_text_eq_tree (st : Settings) (e : Expr) (c : Clause) (d : Draft)
    (hc : c.isCondition = true) (he : e.Compounded) (hn : e.Named st (.readable st.quoted))
    (h : (Draft.new st).compile e c [] = (d, .ok ())) :
    ∃ T : JoinTree (Expr × Text), T.map Prod.fst = e.tree ∧ YieldsAll st c T.leaves .empty d.slate ∧
      (∀ x ∈ T.leaves, x.1.isBlankTest = false → parse x.2 = .leaf x.2) ∧
      (∀ x ∈ T.leaves, x.1.isBlankTest = true → ∃ a b,
        x.2 = "(" ++ (a ++ " IS NULL OR " ++ b) ++ " = '')" ∧
        parse x.2 = .node true (.leaf (a ++ " IS NULL")) (.leaf (b ++ " = ''"))) ∧
      parse d.text = T.bind fun x => parse x.2 := by
  obtain ⟨t, s, rfl, ⟨hhole, -⟩ | hy⟩ := Draft.compile_condition hc h
  · rw [Expr.isHole_of_not_isClosed he.isClosed] at hhole
    cases hhole
  obtain ⟨T, f, hT, rfl⟩ := he.parses hn (AliasTable.within_empty _) hy
  refine ⟨T, hT.tree_eq, hT.yields, fun x hx hblank => ?_, fun x hx hblank => ?_, ?_⟩
  · have htest := hT.tests x hx
    rw [hblank] at htest
    exact htest.parse_eq
  · have htest := hT.tests x hx
    rw [hblank] at htest
    exact htest.exists_blank
  · rw [← hT.tree_formula, Draft.new, List.nil_append, parse, read_text hT.legible]

namespace Sample

/-- The row has no name, or its name is like a pattern and its age is not in a list or is
another one. -/
def blankOrLike : Expr :=
  .binary .orElse (.staticOf "IsNullOrEmpty" [.field customerRow "Name"])
    (.binary .andAlso (.staticOf "Like" [.field customerRow "Name", .value (.string "x")])
      (.binary .or
        (.notInTest (.field customerRow "Age") [.inr (.int .int 1), .inr (.int .int 2)])
        (hasAge 3)))

theorem blankOrLike_compounded : blankOrLike.Compounded :=
  .joined rfl (.test (by decide) (by decide) (by decide))
    (.joined rfl (.test (by decide) (by decide) (by decide))
      (.joined rfl (.test (by decide) (by decide) (by decide))
        (.comparison rfl (by decide) rfl)))

theorem blankOrLike_named (d : Dialect) :
    blankOrLike.Named (.standard d world) (.readable false) := by
  have row := customerRow_readable d
  exact ⟨⟨trivial, ⟨row, trivial⟩, nofun⟩, ⟨trivial, ⟨row, trivial, trivial⟩, nofun⟩,
    ⟨trivial, ⟨row, ⟨trivial, trivial, trivial⟩, trivial⟩, nofun⟩, row, trivial⟩

/-- The text of `blankOrLike`. -/
def blankOrLikeText : Text :=
  "(c.name IS NULL OR c.name = '') OR (c.name LIKE '%' + @p1 + '%' AND " ++
    "(c.age NOT IN (@p2,@p3) OR c.age = @p4))"

end Sample

open Sample

theorem parse_text_eq_tree_blankOrLike :
    ∃ d, (Draft.new (.standard .sqlServer world)).compile blankOrLike .where_ [] = (d, .ok ()) ∧
      d.text = blankOrLikeText ∧
      ∃ T : JoinTree (Expr × Text), T.map Prod.fst = blankOrLike.tree ∧
        parse d.text = T.bind fun x => parse x.2 := by
  have htext : whereText? (.standard .sqlServer world) blankOrLike = some blankOrLikeText := by
    decide +kernel
  obtain ⟨d, hd, ht⟩ := compile_of_whereText? htext
  obtain ⟨T, htree, -, -, -, hparse⟩ := parse_text_eq_tree (.standard .sqlServer world) blankOrLike
    .where_ d rfl blankOrLike_compounded (blankOrLike_named .sqlServer) hd
  exact ⟨d, hd, ht, T, htree, hparse⟩

namespace Sample

/-- A row of customers whose name is none. -/
def oddRow : Param := ⟨2, "a OR b", some customer⟩

/-- The row has an age and a name. -/
def oddAgeAndName : Expr :=
  .binary .and (.binary .equal (.field oddRow "Age") (.value (.int .int 1)))
    (.binary .equal (.field oddRow "Name") (.value (.string "x")))

end Sample

/-- **A conjunction that is read as a disjunction**: the row is named by what is no name, and names
are not quoted. -/
theorem exists_text_read_otherwise :
    oddAgeAndName.Compounded ∧ (∃ l r, oddAgeAndName.tree = .node false l r) ∧
      ∃ d, (Draft.new (.standard .sqlServer world)).compile oddAgeAndName .where_ [] =
        (d, .ok ()) ∧ ∃ l r, parse d.text = .node true l r := by
  have htext : whereText? (.standard .sqlServer world) oddAgeAndName =
      some "a OR b.age = @p1 AND a OR b.name = @p2" := by
    decide +kernel
  obtain ⟨d, hd, ht⟩ := compile_of_whereText? htext
  have hparse : parse "a OR b.age = @p1 AND a OR b.name = @p2" = .node true
      (.node true (.leaf "a") (.node false (.leaf "b.age = @p1") (.leaf "a")))
      (.leaf "b.name = @p2") := by
    decide +kernel
  refine ⟨.joined rfl (.comparison rfl (by decide +kernel) rfl)
    (.comparison rfl (by decide +kernel) rfl), ⟨_, _, rfl⟩, d, hd, ?_⟩
  rw [ht]
  exact ⟨_, _, hparse⟩

end QueryTree
