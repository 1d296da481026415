import QueryTree.Proofs.Arithmetic
import QueryTree.Proofs.Chains
import Mathlib.Data.List.Basic

/-!
# Concatenations

An addition with an operand that is a text is written as a concatenation. Its operands are meant to
be the largest parts that are no such additions themselves, so that a sum of numbers stays a sum.
What is joined instead are all addends: every addition below the outermost one is taken apart,
whatever it adds. The two agree exactly when no operand is an addition.

Operands are joined as they are, without parentheses. The arguments of a function are apart from
each other all the same. Between plus signs and bars an operand keeps its grouping exactly when its
own operator binds tighter than the concatenation; the first one may also bind equally.

## Main definitions

* `Expr.addends`, `Expr.operands`: what is joined, and what is meant to be
* `Expr.Concatenable`: additions of columns, constants and arithmetic
* `Settings.GroupsApart`: operands that keep their grouping

## Main results

* `Expr.addends_eq_operands_iff`: when the operands are what is joined
* `Expr.Concatenable.concatenates_iff`: what a concatenation is written as, and how it is read
* `exists_sum_taken_apart`: a sum of numbers that is concatenated
-/

namespace QueryTree

open Emit Sql

namespace Expr

variable {st : Settings} {e l r : Expr} {c : Clause} {s s₁ s' : Slate} {t : Text}

/-! ### Operands -/

/-- Whether the expression is a text. -/
def isText (e : Expr) : Bool := e.type?.any Ty.isString

/-- Whether the expression is an addition. -/
def isAddition : Expr → Bool
  | binary .add _ _ => true
  | _ => false

/-- Whether the expression is written as a concatenation. -/
def isConcatenation : Expr → Bool
  | binary .add l r => l.isText || r.isText
  | _ => false

/-- Whether the expression is a text or adds one. -/
def isTextual : Expr → Bool
  | binary .add l r => l.isTextual || r.isTextual
  | e => e.isText

/-- The largest parts of an expression that add no text, from left to right. -/
def operands : Expr → List Expr
  | binary .add l r =>
    if l.isTextual || r.isTextual then l.operands ++ r.operands else [binary .add l r]
  | e => [e]

/-- The parts of an expression that are no additions, from left to right. -/
def addends : Expr → List Expr
  | binary .add l r => l.addends ++ r.addends
  | e => [e]

theorem addends_of_not_isAddition (h : e.isAddition = false) : e.addends = [e] := by
  unfold addends
  split
  · cases h
  · rfl

theorem addends_ne_nil (e : Expr) : e.addends ≠ [] := by
  induction e using addends.induct with
  | case1 l r ihl _ => simp [addends, ihl]
  | case2 e he => simp [addends.eq_2 e he]

/-- An addition has several addends. -/
theorem isAddition_of_length_addends (h : e.addends.length = 1) : e.isAddition = false := by
  unfold isAddition
  split
  · rename_i l r
    have hl := List.length_pos_of_ne_nil (addends_ne_nil l)
    have hr := List.length_pos_of_ne_nil (addends_ne_nil r)
    rw [addends, List.length_append] at h
    omega
  · rfl

theorem isAddition_of_mem_addends {x : Expr} (h : x ∈ e.addends) : x.isAddition = false := by
  induction e using addends.induct with
  | case1 l r ihl ihr => exact (List.mem_append.mp h).elim ihl ihr
  | case2 e he =>
    have hx : x = e := by
      unfold addends at h
      split at h
      · exact absurd rfl (he _ _)
      · exact List.mem_singleton.mp h
    rw [hx]
    unfold isAddition
    split
    · exact absurd rfl (he _ _)
    · rfl

/-- Operands are taken apart further. -/
theorem addends_eq_flatMap (e : Expr) : e.addends = e.operands.flatMap addends := by
  induction e using operands.induct with
  | case1 l r h ihl ihr => rw [operands, if_pos h, addends, List.flatMap_append, ihl, ihr]
  | case2 l r h => rw [operands, if_neg h, List.flatMap_singleton]
  | case3 e he =>
    unfold operands
    split
    · exact absurd rfl (he _ _)
    · rw [List.flatMap_singleton]

/-- **Exactly the operands are joined when none of them is an addition.** -/
theorem addends_eq_operands_iff (e : Expr) :
    e.addends = e.operands ↔ ∀ x ∈ e.operands, x.isAddition = false := by
  constructor
  · intro h x hx
    exact isAddition_of_mem_addends (h ▸ hx)
  · intro h
    have hsingle : e.operands.flatMap addends = e.operands.flatMap fun x => [x] :=
      List.flatMap_congr fun x hx => addends_of_not_isAddition (h x hx)
    rw [addends_eq_flatMap, hsingle, List.flatMap_singleton']

/-- Additions of columns, constants and arithmetic. -/
inductive Concatenable (st : Settings) : Expr → Prop
  | arithmetic {e : Expr} (h : Arithmetic st e) : Concatenable st e
  | column {p : Param} {name : Text} {type owner : Option Ty} {entity : Entity} {col : Column}
    (hentity : st.entityOf p.type = .ok entity) (hcol : entity.column? name = some col) :
    Concatenable st (.member (.param p) name type owner)
  | const {v : Value} {type : Option Ty} (hv : v.isNil = false) : Concatenable st (.const v type)
  | add {l r : Expr} (hl : Concatenable st l) (hr : Concatenable st r) :
    Concatenable st (.binary .add l r)

theorem Concatenable.of_add (h : Concatenable st (.binary .add l r)) :
    Concatenable st l ∧ Concatenable st r := by
  cases h with
  | arithmetic h =>
    cases h with
    | binary hop hl hr => exact ⟨.arithmetic hl, .arithmetic hr⟩
  | add hl hr => exact ⟨hl, hr⟩

/-! ### Levels -/

end Expr

namespace Sql

variable {α β : Type} {d : Dialect} {k : Nat}

theorem Term.bindsFrom_map (f : α → β) (x : Term α) :
    (x.map f).tree.BindsFrom d k ↔ x.tree.BindsFrom d k := by
  cases x <;> rfl

theorem level_arithmetic {op : BinaryOp} (hop : op ∈ arithmeticOperators) :
    (Joint.arithmetic op).level d = Expr.precedence op :=
  (precedence_of_mem op hop).symm

end Sql

namespace Expr

variable {st : Settings} {e l r : Expr} {op : BinaryOp} {c : Clause} {s s₁ s' : Slate} {t : Text}

/-- The tree of arithmetic binds as tightly as its outermost operator. -/
theorem Arithmetic.bindsFrom_tightness (h : Arithmetic st e) (pre : Prelude) (d : Dialect) :
    (e.foldedTerm pre).tree.BindsFrom d e.tightness := by
  cases h with
  | column => trivial
  | number => trivial
  | @binary op l r hop =>
    unfold foldedTerm
    split
    · trivial
    · exact Nat.le_of_eq (level_arithmetic hop).symm

/-! ### What an operand is written as -/

/-- What an operand is written as: its text, its tree of operators with the texts of the leaves, and
its chain. -/
structure Written where
  text : Text
  term : Term (Expr × Text)
  chain : Chain (Sql.Tree Text)

/-- An operand is written as the text, which is read as its chain. -/
structure WritesOperand (st : Settings) (c : Clause) (s : Slate) (e : Expr) (w : Written)
    (s' : Slate) : Prop where
  writes : WritesTerm st c s e w.text s' w.term
  reads : Writes st.dialect w.text w.chain
  tree : (w.chain.tree st.dialect).flatten = (w.term.map Prod.snd).tree
  binds : ∀ k, w.chain.BindsFrom st.dialect k ↔ w.term.tree.BindsFrom st.dialect k

/-- A word is an operand. -/
theorem writesOperand_word (h : WritesTerm st c s e t s' (.leaf (e, t))) (ht : Cuts t [.word t]) :
    WritesOperand st c s e ⟨t, .leaf (e, t), ⟨.leaf t, []⟩⟩ s' :=
  ⟨h, ht.writes, rfl, fun _ => iff_of_true nofun trivial⟩

section Words

variable {v : Text}

theorem isPlainByte_of_isNameByte {b : UInt8} (h : isNameByte b = true) : IsPlainByte b := by
  have hb := Text.not_mem_of_test (l := openers ++ byte ' ' :: byte ',' :: symbolBytes)
    (by decide) h
  rw [IsPlainByte, lexemeOf?_eq_none_iff]
  simpa only [List.mem_append, List.mem_cons, not_or, ← closer?_eq_none_iff,
    ← symbolOf?_eq_none_iff] using hb

theorem unbroken_of_nameBytes (h : v.all isNameByte = true) : Unbroken v :=
  unbroken_of_forall fun b hb => isPlainByte_of_isNameByte (List.all_eq_true.mp h b hb)

theorem unbroken_ident (h : (Lexicon.identifiers st.quoted).Alias v) : Unbroken (st.ident v) := by
  unfold Settings.ident
  split
  · exact unbroken_of_quotedLength (quoteIdent_ne_nil st.dialect v) fun rest hrest =>
      quotedLength_quoteIdent st.dialect v hrest
  · rename_i hq
    rcases h with rfl | h | h
    · exact unbroken_of_nameBytes rfl
    · exact absurd h hq
    · exact unbroken_of_nameBytes h.2

/-- Two bars are no name. -/
theorem ident_ne_bars (h : (Lexicon.identifiers st.quoted).Name v) :
    st.ident v ≠ ("||" : Text) := by
  unfold Settings.ident
  split
  · intro hbars
    have hlength : quotedLength (st.profile.quoteIdent v ++ []) =
        (st.profile.quoteIdent v).length :=
      quotedLength_quoteIdent st.dialect v nofun
    rw [List.append_nil, hbars] at hlength
    cases hlength
  · rename_i hq
    intro hbars
    rw [hbars] at h
    exact absurd (h.resolve_left hq).2 (by decide)

theorem IsColumnText.cuts (h : IsColumnText st t) : Cuts t [.word t] := by
  obtain ⟨v, hv, rfl | ⟨a, ha, rfl⟩⟩ := h
  · exact (unbroken_ident (.inr hv)).cuts (ident_ne_nil hv) (ident_ne_bars hv)
  · have hname : Unbroken ("." ++ st.ident v) :=
      (unbroken_ident (.inr hv)).prepend (List.all_iff_forall_prop.mp (by decide))
    have hall : Unbroken (st.ident a ++ ("." ++ st.ident v)) :=
      (unbroken_ident ha).append hname (fresh_cons.mpr rfl) nofun
    rw [← List.append_assoc] at hall
    refine hall.cuts (by simp [ident_ne_nil hv]) fun hbars => ?_
    have hpoint : byte '.' ∈ st.ident a ++ "." ++ st.ident v :=
      List.mem_append_left _ (List.mem_append_right _ (List.mem_cons_self ..))
    rw [hbars] at hpoint
    exact absurd hpoint (by decide)

theorem cuts_placeholder (d : Dialect) (n : Nat) :
    Cuts (d.profile.placeholder n) [.word (d.profile.placeholder n)] := by
  have hnumber : Unbroken (Text.ofNat n) := unbroken_of_nameBytes (all_isNameByte_ofNat n)
  cases d with
  | mySql | sqlite =>
    exact (unbroken_of_forall (t := "?") (List.all_iff_forall_prop.mp (by decide))).cuts nofun
      (by decide)
  | sqlServer =>
    exact (hnumber.prepend (t := "@p") (List.all_iff_forall_prop.mp (by decide))).cuts nofun nofun
  | postgres =>
    exact (hnumber.prepend (t := "$") (List.all_iff_forall_prop.mp (by decide))).cuts nofun nofun
  | oracle =>
    exact (hnumber.prepend (t := ":") (List.all_iff_forall_prop.mp (by decide))).cuts nofun nofun

end Words

/-- An operand in parentheses is a unit; without them its chain goes on. -/
theorem WritesOperand.grouped {w : Written} {parens : Bool} {k : Nat}
    (h : WritesOperand st c s e w s') (hk : parens = false → w.term.tree.BindsFrom st.dialect k) :
    ∃ chain : Chain (Sql.Tree Text), Writes st.dialect (groupedText parens w.text) chain ∧
      (chain.tree st.dialect).flatten = (w.term.map Prod.snd).tree ∧
      chain.BindsFrom st.dialect k := by
  cases parens with
  | true => exact ⟨_, h.reads.parens, h.tree, nofun⟩
  | false => exact ⟨_, h.reads, h.tree, (h.binds k).mpr (hk rfl)⟩

/-- An operator between what its operands are written as. -/
theorem WritesOperand.binary {token : Text} {v w : Written} (hop : op ∈ arithmeticOperators)
    (htoken : op.token? = some token) (hl : Arithmetic st l) (hr : Arithmetic st r)
    (hf : (Expr.binary op l r).folded? st.pre = .ok none) (hv : WritesOperand st c s l v s₁)
    (hw : WritesOperand st c s₁ r w s') :
    ∃ w, WritesOperand st c s (Expr.binary op l r) w s' := by
  have hlevel : (Joint.arithmetic op).level st.dialect = precedence op := level_arithmetic hop
  have binds {x : Expr} {y : Term (Expr × Text)} {k : Nat} (hx : Arithmetic st x)
      (hy : y.map Prod.fst = x.foldedTerm st.pre) (hk : k ≤ x.tightness) :
      y.tree.BindsFrom st.dialect k := by
    rw [← Term.bindsFrom_map Prod.fst, hy]
    exact Sql.Tree.BindsFrom.mono (hx.bindsFrom_tightness st.pre st.dialect) hk
  obtain ⟨left, hleft, htreeLeft, hbindsLeft⟩ := hv.grouped fun hp =>
    binds hl hv.writes.term (hl.tightness_of_left hop hp)
  obtain ⟨right, hright, htreeRight, hbindsRight⟩ := hw.grouped fun hp =>
    binds hr hw.writes.term (hr.tightness_of_right hop hp)
  refine ⟨⟨_, _, left.append (.arithmetic op) right⟩,
    hv.writes.binary hop htoken hl hr hf hw.writes,
    hleft.append (links_arithmetic hop htoken) hright, ?_, fun k => ?_⟩
  · show ((left.append (.arithmetic op) right).tree st.dialect).flatten = _
    rw [Chain.tree_append (by rwa [hlevel]) (by rwa [hlevel]), Sql.Tree.flatten, htreeLeft,
      htreeRight]
    rfl
  · show (left.append (.arithmetic op) right).BindsFrom st.dialect k ↔
      k ≤ (Joint.arithmetic op).level st.dialect
    rw [Chain.bindsFrom_append, hlevel]
    constructor
    · exact fun h => h.2.1
    · exact fun hk => ⟨hbindsLeft.mono hk, hk, hbindsRight.mono (Nat.le_succ_of_le hk)⟩

theorem Arithmetic.exists_writesOperand {raw inlined : Expr → Prop} (h : Arithmetic st e)
    (hn : NamedWith st (Lexicon.identifiers st.quoted) raw inlined e)
    (hs : s.aliases.Within (Lexicon.identifiers st.quoted)) :
    ∃ w s', WritesOperand st c s e w s' := by
  induction h generalizing s with
  | column hentity hcol =>
    obtain ⟨t, s', htext, ht⟩ := writesTerm_column hentity hcol hn hs
    exact ⟨_, _, writesOperand_word ht htext.cuts⟩
  | number hv =>
    exact ⟨_, _, writesOperand_word
      (writesTerm_placeholder rfl rfl (Value.isNil_of_numeric? hv) rfl rfl hs)
      (cuts_placeholder st.dialect _)⟩
  | @binary op l r hop hl hr ihl ihr =>
    obtain ⟨token, htoken⟩ := exists_token_of_mem hop
    rcases (Arithmetic.binary hop hl hr).folded?_cases st.pre with
      hf | ⟨hc, v, hv, hnumber, hf⟩
    · obtain ⟨v, s₁, hv⟩ := ihl hn.1 hs
      obtain ⟨w, s', hw⟩ := ihr hn.2 hv.writes.within
      obtain ⟨w, h⟩ := hv.binary hop htoken hl hr hf hw
      exact ⟨w, s', h⟩
    · exact ⟨_, _, writesOperand_word (writesTerm_of_folded? hc hv hnumber hf hs)
        (cuts_placeholder st.dialect _)⟩

/-! ### What a concatenation is written as -/

/-- Operands are written one after the other. -/
inductive WritesAll (st : Settings) (c : Clause) : Slate → List Expr → List Written → Slate → Prop
  | nil {s : Slate} : WritesAll st c s [] [] s
  | cons {s s₁ s' : Slate} {e : Expr} {es : List Expr} {w : Written} {ws : List Written}
    (h : WritesOperand st c s e w s₁) (hs : WritesAll st c s₁ es ws s') :
    WritesAll st c s (e :: es) (w :: ws) s'

namespace WritesAll

variable {es es' : List Expr} {ws ws' : List Written}

theorem append (h : WritesAll st c s es ws s₁) (h' : WritesAll st c s₁ es' ws' s') :
    WritesAll st c s (es ++ es') (ws ++ ws') s' := by
  induction h with
  | nil => exact h'
  | cons h _ ih => exact .cons h (ih h')

theorem yields (h : WritesAll st c s es ws s') :
    Yields (es.mapM fun x => (x.render st).value c) s (ws.map Written.text) s' := by
  induction h with
  | nil => exact yields_pure.mpr ⟨rfl, rfl⟩
  | cons h _ ih =>
    rw [List.mapM_cons]
    simp only [yields_bind, yields_pure]
    exact ⟨_, _, h.writes.yields, _, _, ih, rfl, rfl⟩

theorem terms (h : WritesAll st c s es ws s') :
    ws.map (fun w => w.term.map Prod.fst) = es.map fun x => x.foldedTerm st.pre := by
  induction h with
  | nil => rfl
  | cons h _ ih => rw [List.map_cons, List.map_cons, ih, h.writes.term]

theorem leaves (h : WritesAll st c s es ws s') :
    LeavesInTurn st c s (ws.flatMap fun w => w.term.leaves) s' := by
  induction h with
  | nil => rfl
  | cons h _ ih => exact h.writes.leaves.append ih

theorem writesOperand (h : WritesAll st c s es ws s') :
    ∀ w ∈ ws, ∃ x ∈ es, ∃ s s', WritesOperand st c s x w s' := by
  induction h with
  | nil => exact nofun
  | cons h _ ih =>
    intro w hw
    rcases List.mem_cons.mp hw with rfl | hw
    · exact ⟨_, List.mem_cons_self .., _, _, h⟩
    · obtain ⟨x, hx, hw⟩ := ih w hw
      exact ⟨x, List.mem_cons_of_mem _ hx, hw⟩

end WritesAll

/-- What a concatenation joins is rendered as its addends. -/
theorem Concatenable.addends_render (h : Concatenable st e) :
    (e.render st).addends = e.addends.map fun x => (x.render st).value := by
  induction e using addends.induct with
  | case1 l r ihl ihr =>
    obtain ⟨hl, hr⟩ := h.of_add
    rw [addends, List.map_append, ← ihl hl, ← ihr hr]
    rfl
  | case2 e he =>
    rw [addends.eq_2 e he]
    cases h with
    | arithmetic h =>
      cases h with
      | column => rfl
      | number => rfl
      | @binary op l r hop =>
        have hop : op ≠ .add := fun h => he l r (h ▸ rfl)
        show (if op = .add then some _ else none).getD _ = _
        rw [if_neg hop]
        rfl
    | column => rfl
    | const => rfl
    | add => exact absurd rfl (he _ _)

theorem Concatenable.exists_writesAll {raw inlined : Expr → Prop} (h : Concatenable st e)
    (hn : NamedWith st (Lexicon.identifiers st.quoted) raw inlined e)
    (hs : s.aliases.Within (Lexicon.identifiers st.quoted)) :
    ∃ ws s', WritesAll st c s e.addends ws s' ∧
      s'.aliases.Within (Lexicon.identifiers st.quoted) := by
  induction e using addends.induct generalizing s with
  | case1 l r ihl ihr =>
    obtain ⟨hl, hr⟩ := h.of_add
    obtain ⟨ws, s₁, hws, hs₁⟩ := ihl hl hn.1 hs
    obtain ⟨ws', s', hws', hs'⟩ := ihr hr hn.2 hs₁
    exact ⟨_, s', hws.append hws', hs'⟩
  | case2 e he =>
    have single : (∃ w s', WritesOperand st c s e w s') → ∃ ws s',
        WritesAll st c s e.addends ws s' ∧
          s'.aliases.Within (Lexicon.identifiers st.quoted) := by
      rintro ⟨w, s', hw⟩
      rw [addends.eq_2 e he]
      exact ⟨[w], s', .cons hw .nil, hw.writes.within⟩
    apply single
    cases h with
    | arithmetic h => exact h.exists_writesOperand hn hs
    | column hentity hcol =>
      obtain ⟨t, s', htext, ht⟩ := writesTerm_column hentity hcol hn hs
      exact ⟨_, _, writesOperand_word ht htext.cuts⟩
    | const hv =>
      exact ⟨_, _, writesOperand_word (writesTerm_placeholder rfl rfl hv rfl rfl hs)
        (cuts_placeholder st.dialect _)⟩
    | add => exact absurd rfl (he _ _)

/-- **A concatenation joins what its addends are written as.** -/
theorem Concatenable.yields_iff (h : Concatenable st e) (he : e.isConcatenation = true)
    (hf : e.folded? st.pre = .ok none) :
    Yields ((e.render st).value c) s t s' ↔
      ∃ ts, Yields (e.addends.mapM fun x => (x.render st).value c) s ts s' ∧
        t = st.profile.concatAll ts := by
  unfold isConcatenation at he
  split at he
  · rename_i l r
    obtain ⟨hl, hr⟩ := h.of_add
    have hmap : (l.render st).addends ++ (r.render st).addends =
        (binary .add l r).addends.map fun x => (x.render st).value := by
      rw [addends, List.map_append, ← hl.addends_render, ← hr.addends_render]
    have hvalue : Rendering.binaryValue st .add (l.render st) (r.render st) c = do
        return st.profile.concatAll
          (← ((l.render st).addends ++ (r.render st).addends).mapM fun m => m c) := by
      have hisText : ((l.render st).expr.type?.any Ty.isString ||
          (r.render st).expr.type?.any Ty.isString) = true := by
        rw [render_expr, render_expr]
        exact he
      simp only [Rendering.binaryValue, hisText]
      rfl
    rw [value_binary, yields_folding, hvalue, hmap, List.mapM_map]
    simp [hf, Function.comp_def]
  · cases he

end Expr

/-! ### How a concatenation is read -/

/-- What joins the operands of a concatenation. -/
def ConcatStyle.joint : ConcatStyle → Joint
  | plus => .arithmetic .add
  | function => .comma
  | pipes => .bars

/-- The operands keep their grouping: the operator of the first one binds at least as tightly as the
concatenation, and those of the others bind tighter. -/
def Settings.GroupsApart (st : Settings) : List Expr → Prop
  | [] => True
  | e :: es =>
    let level := st.profile.concat.joint.level st.dialect
    (e.foldedTerm st.pre).tree.BindsFrom st.dialect level ∧
      ∀ x ∈ es, (x.foldedTerm st.pre).tree.BindsFrom st.dialect (level + 1)

namespace Sql

variable {d : Dialect} {t sep : Text} {j : Joint} {c : Chain (Sql.Tree Text)}

theorem join_cons_cons (sep t u : Text) (ts : List Text) :
    Text.join sep (t :: u :: ts) = Text.join sep ((t ++ sep ++ u) :: ts) := by
  cases ts <;> simp [Text.join, List.intercalate, List.intersperse]

theorem Writes.join (ht : Writes d t c) (hj : Links sep j) {ws : List Expr.Written}
    (hws : ∀ w ∈ ws, Writes d w.text w.chain) :
    Writes d (Text.join sep (t :: ws.map (·.text))) (c.appendAll j (ws.map (·.chain))) := by
  induction ws generalizing t c with
  | nil => simpa [Text.join, List.intercalate, Chain.appendAll] using ht
  | cons w ws ih =>
    rw [List.map_cons, join_cons_cons]
    exact ih (ht.append hj (hws w (by simp))) fun x hx => hws x (by simp [hx])

/-- The arguments of a function are read as a chain. -/
theorem Writes.concat (h : Writes d t c) :
    Writes d ("CONCAT(" ++ t ++ ")") ⟨(c.tree d).flatten, []⟩ := by
  obtain ⟨xs, hcuts, hreads⟩ := h
  exact ⟨_, hcuts.parens, hreads.parens⟩

/-- A concatenation is read as the chain of its operands. -/
theorem readTree?_concatAll {w : Expr.Written} {ws : List Expr.Written}
    (h : ∀ x ∈ w :: ws, Writes d x.text x.chain) :
    readTree? d (d.profile.concatAll ((w :: ws).map (·.text))) =
      some ((w.chain.appendAll d.profile.concat.joint (ws.map (·.chain))).tree d).flatten := by
  have hw := h w (by simp)
  have hws : ∀ x ∈ ws, Writes d x.text x.chain := fun x hx => h x (by simp [hx])
  cases hstyle : d.profile.concat with
  | plus =>
    rw [Profile.concatAll, hstyle]
    exact (hw.join (links_arithmetic (by decide) rfl) hws).readTree?
  | function =>
    rw [Profile.concatAll, hstyle]
    exact (hw.join links_comma hws).concat.readTree?
  | pipes =>
    rw [Profile.concatAll, hstyle]
    exact (hw.join links_bars hws).readTree?

end Sql

namespace Expr

variable {st : Settings} {e : Expr} {c : Clause} {s s' : Slate}

theorem WritesAll.bindsFrom {es : List Expr} {ws : List Written} {k : Nat}
    (h : WritesAll st c s es ws s') : (∀ w ∈ ws, w.chain.BindsFrom st.dialect k) ↔
      ∀ x ∈ es, (x.foldedTerm st.pre).tree.BindsFrom st.dialect k := by
  induction h with
  | nil => simp
  | cons h _ ih =>
    rw [List.forall_mem_cons, List.forall_mem_cons, ih, h.binds, ← h.writes.term,
      Term.bindsFrom_map]

/-- Operands are read with the grouping that they were written for exactly if they keep it. -/
theorem WritesAll.read_iff {x : Expr} {es : List Expr} {w : Written} {ws : List Written}
    (h : WritesAll st c s (x :: es) (w :: ws) s') (hws : ws ≠ []) :
    readTree? st.dialect (st.profile.concatAll ((w :: ws).map (·.text))) =
        some (.joinAll st.profile.concat.joint (w.term.map Prod.snd).tree
          (ws.map fun w => (w.term.map Prod.snd).tree)) ↔
      st.GroupsApart (x :: es) := by
  have hreads : ∀ v ∈ w :: ws, Writes st.dialect v.text v.chain ∧
      (v.chain.tree st.dialect).flatten = (v.term.map Prod.snd).tree := by
    intro v hv
    obtain ⟨_, -, _, _, hwrites⟩ := h.writesOperand v hv
    exact ⟨hwrites.reads, hwrites.tree⟩
  have htrees : ws.map (fun w => (w.term.map Prod.snd).tree) =
      (ws.map (·.chain)).map fun c => (c.tree st.dialect).flatten := by
    rw [List.map_map]
    exact List.map_congr_left fun v hv => (hreads v (by simp [hv])).2.symm
  have hread := readTree?_concatAll fun v hv => (hreads v hv).1
  rw [show st.profile = st.dialect.profile from rfl, hread, Option.some_inj, htrees,
    ← (hreads w (by simp)).2, Chain.tree_appendAll_iff (by simpa using hws)]
  cases h with
  | cons hw hws' =>
    rw [Settings.GroupsApart, hw.binds, ← hw.writes.term, Term.bindsFrom_map, List.forall_mem_map,
      hws'.bindsFrom]
    rfl

/-- What joins two parts has several addends. -/
theorem exists_addends (h : e.isConcatenation = true) : ∃ x y es, e.addends = x :: y :: es := by
  unfold isConcatenation at h
  split at h
  · rename_i l r
    obtain ⟨x, xs, hx⟩ := List.exists_cons_of_ne_nil (addends_ne_nil l)
    obtain ⟨y, ys, hy⟩ := List.exists_cons_of_ne_nil (addends_ne_nil r)
    cases xs with
    | nil => exact ⟨x, y, ys, by rw [addends, hx, hy]; rfl⟩
    | cons z xs => exact ⟨x, z, xs ++ (y :: ys), by rw [addends, hx, hy]; rfl⟩
  · cases h

/-- **What a concatenation joins, and how it is read.** All addends are joined, each as it is
written. These are the operands exactly when no operand is an addition, and the text is read as
their concatenation, each with its own grouping, exactly when they keep it. -/
theorem Concatenable.concatenates_iff (h : Concatenable st e) (he : e.isConcatenation = true)
    (hf : e.folded? st.pre = .ok none) (c : Clause)
    (hn : e.Named st (Lexicon.identifiers st.quoted))
    (hs : s.aliases.Within (Lexicon.identifiers st.quoted)) :
    ∃ (ts : List Text) (s' : Slate) (x : Term (Expr × Text)) (xs : List (Term (Expr × Text))),
      Yields ((e.render st).value c) s (st.profile.concatAll ts) s' ∧
      Yields (e.addends.mapM fun a => (a.render st).value c) s ts s' ∧
      (x :: xs).map (Term.map Prod.fst) = e.addends.map (foldedTerm st.pre) ∧
      LeavesInTurn st c s ((x :: xs).flatMap Term.leaves) s' ∧
      (e.addends = e.operands ↔ ∀ a ∈ e.operands, a.isAddition = false) ∧
      (readTree? st.dialect (st.profile.concatAll ts) =
          some (.joinAll st.profile.concat.joint (x.map Prod.snd).tree
            (xs.map fun y => (y.map Prod.snd).tree)) ↔
        st.GroupsApart e.addends) := by
  obtain ⟨ws, s', hws, -⟩ := h.exists_writesAll hn hs
  obtain ⟨x, y, es, haddends⟩ := exists_addends he
  rw [haddends] at hws
  cases hws with
  | @cons _ _ _ _ _ w ws hw hws' =>
    have hall : WritesAll st c s (x :: y :: es) (w :: ws) s' := .cons hw hws'
    have hne : ws ≠ [] := by
      rintro rfl
      cases hws'
    have hyields := hall.yields
    rw [← haddends] at hyields
    refine ⟨_, s', w.term, ws.map (·.term), (h.yields_iff he hf).mpr ⟨_, hyields, rfl⟩, hyields,
      ?_, ?_, addends_eq_operands_iff e, ?_⟩
    · rw [haddends, ← hall.terms, List.map_cons, List.map_cons, List.map_map]
      rfl
    · have hleaves := hall.leaves
      rwa [← List.flatMap_map] at hleaves
    · rw [List.map_map, haddends]
      exact hall.read_iff hne

end Expr

/-! ### Samples -/

namespace Sample

/-- A name with twice an age behind it. -/
def nameAndTwiceAge : Expr :=
  .binary .add (.field customerRow "Name")
    (.binary .multiply (.field customerRow "Age") (.value (.int .int 2)))

/-- A name with the next age behind it. -/
def nameAndNextAge : Expr :=
  .binary .add (.field customerRow "Name")
    (.binary .add (.field customerRow "Age") (.value (.int .int 1)))

end Sample

open Sample in
/-- A product is concatenated as it is. -/
theorem Expr.Concatenable.concatenates_iff_nameAndTwiceAge :
    nameAndTwiceAge.isConcatenation = true ∧
    nameAndTwiceAge.folded? (Settings.standard .oracle world).pre = .ok none ∧
    ∃ (ts : List Text) (s' : Slate) (x : Term (Expr × Text)) (xs : List (Term (Expr × Text))),
      Yields ((nameAndTwiceAge.render (.standard .oracle world)).value .select) .empty
        ((Settings.standard .oracle world).profile.concatAll ts) s' ∧
      Yields
        (nameAndTwiceAge.addends.mapM fun a => (a.render (.standard .oracle world)).value .select)
        .empty ts s' ∧
      (x :: xs).map (Term.map Prod.fst) =
        nameAndTwiceAge.addends.map (foldedTerm (Settings.standard .oracle world).pre) ∧
      LeavesInTurn (.standard .oracle world) .select .empty ((x :: xs).flatMap Term.leaves) s' ∧
      (nameAndTwiceAge.addends = nameAndTwiceAge.operands ↔
        ∀ a ∈ nameAndTwiceAge.operands, a.isAddition = false) ∧
      (readTree? .oracle ((Settings.standard .oracle world).profile.concatAll ts) =
          some (.joinAll .bars (x.map Prod.snd).tree (xs.map fun y => (y.map Prod.snd).tree)) ↔
        (Settings.standard .oracle world).GroupsApart nameAndTwiceAge.addends) := by
  have hconcat : nameAndTwiceAge.isConcatenation = true := rfl
  have hfolded : nameAndTwiceAge.folded? (Settings.standard .oracle world).pre = .ok none := rfl
  have harith : Concatenable (.standard .oracle world) nameAndTwiceAge :=
    .add (.column rfl rfl)
      (.arithmetic (.binary (by decide) (.column rfl rfl rfl) (.number rfl rfl)))
  have hrow := customerRow_identifiers .oracle
  exact ⟨hconcat, hfolded, harith.concatenates_iff hconcat hfolded .select
    ⟨hrow, hrow, trivial⟩ (AliasTable.within_empty _)⟩

open Sample in
/-- **A sum of numbers is taken apart**: its operands become arguments of the concatenation. -/
theorem exists_sum_taken_apart : ∃ (t : Text) (s' : Slate),
    Yields ((nameAndNextAge.render (.standard .postgres world)).value .select) .empty t s' ∧
      nameAndNextAge.isConcatenation = true ∧
      nameAndNextAge.operands = [.field customerRow "Name",
        .binary .add (.field customerRow "Age") (.value (.int .int 1))] ∧
      readTree? .postgres t =
        some (.node .comma (.node .comma (.leaf "c.name") (.leaf "c.age")) (.leaf "$1")) :=
  ⟨"CONCAT(c.name,c.age,$1)", _, rfl, rfl, rfl, by decide⟩

end QueryTree
