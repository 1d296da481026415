import QueryTree.Proofs.Closed
import QueryTree.Proofs.Rendered
import QueryTree.Proofs.Terms
import QueryTree.Sample.Conditions

/-!
# Arithmetic

An operand of an arithmetic operator is put in parentheses when its own operator binds less
tightly, and on the right also when it binds equally. So the text of arithmetic over columns and
numbers is read back as the tree that it was written for.

Parts without rows are evaluated first, and such a part is a single bound value in the text. The
tree that is read is therefore the expression with its largest evaluated parts as leaves. A part
that cannot be evaluated, such as a division by zero, is written out like any other.

## Main definitions

* `Expr.Arithmetic`: arithmetic over columns and numbers
* `Expr.foldedTerm`: its tree, with evaluated parts as leaves
* `Emit.LeavesInTurn`: what the leaves are written as

## Main results

* `Expr.Arithmetic.eval_ok_or_error`: arithmetic without rows is evaluated or fails
* `Expr.Arithmetic.read_back`: arithmetic is read back from its text
* `exists_term_read_otherwise`: names that are not quoted can be read as arithmetic
-/

namespace QueryTree

open Emit Sql

/-- The operators of arithmetic that have a token. -/
def arithmeticOperators : List BinaryOp := [.add, .subtract, .multiply, .divide, .modulo]

theorem isArithmetic_of_mem : ∀ op ∈ arithmeticOperators, op.isArithmetic = true := by decide

theorem precedence_of_mem : ∀ op ∈ arithmeticOperators,
    Expr.precedence op = if bindsTightly op then 2 else 1 := by decide

/-! ### Values -/

namespace Value

theorem isNil_of_numeric? {v : Value} (h : v.numeric?.isSome = true) : v.isNil = false := by
  unfold numeric? at h
  unfold isNil
  split at h <;> simp_all

theorem text?_of_numeric? {v : Value} (h : v.numeric?.isSome = true) : v.text? = none := by
  unfold numeric? at h
  unfold text?
  split at h <;> simp_all

theorem numeric?_intLike {v : Value} (h : v.numeric?.isSome = true) (n : Int) :
    (intLike v n).numeric?.isSome = true := by
  fun_induction intLike v n with
  | case1 name v ih => exact ih h
  | case2 k m => rfl
  | case3 v => exact h

theorem numeric?_floatLike (v : Value) (x : Double) : (floatLike v x).numeric?.isSome = true := by
  fun_induction floatLike v x with
  | case1 name v _ _ hv ih => exact ih
  | _ => rfl

/-- An operator of arithmetic on two numbers gives a number, or it fails. -/
theorem arith_of_numeric {op : BinaryOp} {l r : Value} (hop : op ∈ arithmeticOperators)
    (hl : l.numeric?.isSome = true) (hr : r.numeric?.isSome = true) :
    (∃ v, arith op l r = .ok v ∧ v.numeric?.isSome = true) ∨
      ∃ e, arith op l r = .error (.error e) := by
  have hall : ∀ op ∈ arithmeticOperators, op ≠ .coalesce ∧ op ≠ .arrayIndex ∧ op ≠ .power := by
    decide
  have hop' := hall op hop
  unfold arith
  rw [if_neg hop'.1, if_neg hop'.2.1]
  split
  · rename_i s t hs ht
    rw [text?_of_numeric? hl] at hs
    cases hs
  split
  · rename_i a b ha hb
    split
    · exact absurd rfl hop'.2.2
    · split
      · exact .inl ⟨_, rfl, numeric?_intLike hl _⟩
      · exact .inr ⟨_, rfl⟩
    · split
      · exact .inl ⟨_, rfl, numeric?_floatLike l _⟩
      · exact .inr ⟨_, rfl⟩
  · rename_i hnone
    obtain ⟨a, ha⟩ := Option.isSome_iff_exists.mp hl
    obtain ⟨b, hb⟩ := Option.isSome_iff_exists.mp hr
    exact absurd hb (hnone a b ha)

end Value

namespace Expr

variable {st : Settings} {pre : Prelude} {e l r : Expr} {op : BinaryOp} {c : Clause}

/-! ### Trees -/

/-- Arithmetic over columns that are no texts and over numbers. -/
inductive Arithmetic (st : Settings) : Expr → Prop
  | column {p : Param} {name : Text} {type owner : Option Ty} {entity : Entity} {col : Column}
    (hentity : st.entityOf p.type = .ok entity) (hcol : entity.column? name = some col)
    (htype : type.any Ty.isString = false) : Arithmetic st (.member (.param p) name type owner)
  | number {v : Value} {type : Option Ty} (hv : v.numeric?.isSome = true)
    (htype : (const v type).type?.any Ty.isString = false) : Arithmetic st (.const v type)
  | binary {op : BinaryOp} {l r : Expr} (hop : op ∈ arithmeticOperators)
    (hl : Arithmetic st l) (hr : Arithmetic st r) : Arithmetic st (.binary op l r)

/-- The tree of operators of an expression. What is evaluated is a leaf. -/
def foldedTerm (pre : Prelude) : Expr → Term Expr
  | binary op l r =>
    match (binary op l r).folded? pre with
    | .ok (some _) => .leaf (binary op l r)
    | _ => .node op (foldedTerm pre l) (foldedTerm pre r)
  | e => .leaf e

namespace Arithmetic

theorem isText (h : Arithmetic st e) : e.type?.any Ty.isString = false := by
  induction h with
  | column _ _ htype => exact htype
  | number _ htype => exact htype
  | @binary op l r hop _ _ ihl ihr =>
    have hor : (l.type? <|> r.type?).any Ty.isString = false := by
      cases hl : l.type? with
      | none => simpa [hl] using ihr
      | some t => simpa [hl] using ihl
    rwa [type?, if_pos (isArithmetic_of_mem op hop)]

/-- Arithmetic without rows is evaluated to a number, or it fails. -/
theorem eval_ok_or_error (h : Arithmetic st e) (hc : e.isClosed = true) :
    (∃ v, e.eval pre = .ok v ∧ v.numeric?.isSome = true) ∨
      ∃ err, e.eval pre = .error (.error err) := by
  induction h with
  | @column p name type owner =>
    rw [isClosed_member_param] at hc
    cases hc
  | @number v _ hv => exact .inl ⟨v, rfl, hv⟩
  | @binary op l r hop _ _ ihl ihr =>
    rw [isClosed_binary, Bool.and_eq_true] at hc
    have hall : ∀ op ∈ arithmeticOperators,
        op.isLogical = false ∧ (op = .coalesce) = False ∧ op.isComparison = false := by
      decide
    have hkind := hall op hop
    rcases ihl hc.1 with ⟨a, ha, hna⟩ | ⟨err, ha⟩
    · rcases ihr hc.2 with ⟨b, hb, hnb⟩ | ⟨err, hb⟩
      · have heval : (Expr.binary op l r).eval pre = Value.arith op a b := by
          simp only [Expr.eval, ha, hb, hkind]
          rfl
        rw [heval]
        exact Value.arith_of_numeric hop hna hnb
      · refine .inr ⟨err, ?_⟩
        simp only [Expr.eval, ha, hb, hkind]
        rfl
    · refine .inr ⟨err, ?_⟩
      simp only [Expr.eval, ha]
      rfl

end Arithmetic

/-! ### Parentheses -/

/-- How tightly the outermost operator of an expression binds; what is no operator of its own binds
tightest. -/
def tightness : Expr → Nat
  | binary op _ _ => precedence op
  | _ => 3

/-- An operand without parentheses binds tightly enough. -/
theorem Arithmetic.tightness_of_arithmeticParens (h : Arithmetic st e)
    (hop : op ∈ arithmeticOperators) {right : Bool} (hp : e.arithmeticParens op right = false) :
    (if right then precedence op + 1 else precedence op) ≤ e.tightness := by
  have hle : ∀ op ∈ arithmeticOperators, precedence op ≤ 2 := by decide
  cases h with
  | column | number =>
    have := hle op hop
    show _ ≤ 3
    split <;> omega
  | @binary inner l r hinner =>
    simp only [arithmeticParens, isArithmetic_of_mem inner hinner, Bool.true_and,
      Bool.or_eq_false_iff, decide_eq_false_iff_not, Bool.and_eq_false_iff] at hp
    show _ ≤ precedence inner
    cases right with
    | true =>
      simp only [reduceCtorEq, false_or] at hp
      simp only [if_true]
      omega
    | false =>
      simp only [Bool.false_eq_true, if_false]
      omega

theorem Arithmetic.tightness_of_left (h : Arithmetic st l) (hop : op ∈ arithmeticOperators)
    (hp : l.arithmeticParens op false = false) : precedence op ≤ l.tightness :=
  h.tightness_of_arithmeticParens hop hp

theorem Arithmetic.tightness_of_right (h : Arithmetic st r) (hop : op ∈ arithmeticOperators)
    (hp : r.arithmeticParens op true = false) : precedence op + 1 ≤ r.tightness :=
  h.tightness_of_arithmeticParens hop hp

end Expr

/-! ### Where a text can be read -/

namespace Sql

variable {k m : Nat} {xs ys : List Symbol} {x y : Term Text} {t u : Text} {op : BinaryOp}

/-- The symbols are read as a tree whose outermost operator has the precedence `k`. -/
structure ReadsAt (k : Nat) (xs : List Symbol) (x : Term Text) : Prop where
  sum : ReadsSum xs x
  product : 1 < k → ReadsProduct xs x
  unit : 2 < k → ReadsUnit xs x

theorem ReadsAt.mono (h : ReadsAt k xs x) (hm : m ≤ k) : ReadsAt m xs x :=
  ⟨h.sum, fun hk => h.product (by omega), fun hk => h.unit (by omega)⟩

theorem ReadsUnit.readsAt (h : ReadsUnit xs x) (k : Nat) : ReadsAt k xs x :=
  ⟨h.product.sum, fun _ => h.product, fun _ => h⟩

/-- Operands that bind tightly enough are the operands that are read. -/
theorem ReadsAt.operator (hop : op ∈ arithmeticOperators) (hx : ReadsAt (Expr.precedence op) xs x)
    (hy : ReadsAt (Expr.precedence op + 1) ys y) :
    ReadsAt (Expr.precedence op) (xs ++ .operator op :: ys) (.node op x y) := by
  have hp := precedence_of_mem op hop
  cases htight : bindsTightly op with
  | true =>
    rw [htight, if_pos rfl] at hp
    have hproduct := (hx.product (by omega)).operator htight (hy.unit (by omega))
    exact ⟨hproduct.sum, fun _ => hproduct, fun h => by omega⟩
  | false =>
    rw [htight, if_neg nofun] at hp
    have hsum := hx.sum.operator htight (hy.product (by omega))
    exact ⟨hsum, fun h => by omega, fun h => by omega⟩

end Sql

/-! ### Names -/

/-- The lexicon of identifiers: without quotes a name is not empty and has letters, digits and
underscores only. -/
def Lexicon.identifiers (quoted : Bool) : Lexicon where
  Name v := quoted = true ∨ v ≠ [] ∧ v.all isNameByte = true
  Raw _ := True
  Table _ := True
  Label _ := True
  numbered v i h := by
    by_cases hq : quoted = true
    · exact .inl hq
    · refine .inr ⟨by simp [Text.ofNat_ne_nil], ?_⟩
      rcases h with rfl | h | h
      · exact all_isNameByte_ofNat (i + 1)
      · exact absurd h hq
      · rw [List.all_append, h.2, all_isNameByte_ofNat]
        rfl

section Words

variable {st : Settings} {v a c : Text}

theorem solid_of_nameBytes (h : v.all isNameByte = true) : Solid v := by
  refine solid_of_forall fun b hb => ?_
  have hb := Text.not_mem_of_test (l := openers ++ byte ' ' :: symbolBytes) (by decide)
    (List.all_eq_true.mp h b hb)
  simpa only [List.mem_append, List.mem_cons, not_or, ← closer?_eq_none_iff,
    ← symbolOf?_eq_none_iff] using hb

theorem solid_ident (h : (Lexicon.identifiers st.quoted).Alias v) : Solid (st.ident v) := by
  unfold Settings.ident
  split
  · exact solid_of_quotedLength (quoteIdent_ne_nil st.dialect v) fun rest hrest =>
      quotedLength_quoteIdent st.dialect v hrest
  · rename_i hq
    rcases h with rfl | h | h
    · exact solid_of_nameBytes rfl
    · exact absurd h hq
    · exact solid_of_nameBytes h.2

theorem ident_ne_nil (h : (Lexicon.identifiers st.quoted).Name v) : st.ident v ≠ [] := by
  unfold Settings.ident
  split
  · exact quoteIdent_ne_nil st.dialect v
  · rename_i hq
    exact (h.resolve_left hq).1

/-- A column behind its alias is one word. -/
theorem lexes_column (ha : (Lexicon.identifiers st.quoted).Alias a)
    (hc : (Lexicon.identifiers st.quoted).Name c) :
    Lexes (st.ident a ++ "." ++ st.ident c) [.word (st.ident a ++ "." ++ st.ident c)] := by
  have hname : Solid ("." ++ st.ident c) :=
    (solid_ident (.inr hc)).prepend (List.all_iff_forall_prop.mp (by decide))
  have hsolid : Solid (st.ident a ++ ("." ++ st.ident c)) :=
    (solid_ident ha).append hname (fresh_cons.mpr rfl) nofun
  rw [← List.append_assoc] at hsolid
  refine hsolid.lexes fun hnil => ident_ne_nil hc ?_
  exact (List.append_eq_nil_iff.mp hnil).2

theorem lexes_placeholder (d : Dialect) (n : Nat) :
    Lexes (d.profile.placeholder n) [.word (d.profile.placeholder n)] := by
  have hnumber : Solid (Text.ofNat n) := solid_of_nameBytes (all_isNameByte_ofNat n)
  cases d with
  | mySql | sqlite =>
    exact (solid_of_forall (t := "?") (List.all_iff_forall_prop.mp (by decide))).lexes nofun
  | sqlServer =>
    exact (hnumber.prepend (t := "@p") (List.all_iff_forall_prop.mp (by decide))).lexes nofun
  | postgres =>
    exact (hnumber.prepend (t := "$") (List.all_iff_forall_prop.mp (by decide))).lexes nofun
  | oracle =>
    exact (hnumber.prepend (t := ":") (List.all_iff_forall_prop.mp (by decide))).lexes nofun

end Words

/-! ### Leaves -/

/-- The leaf of a tree is written as the text: an evaluated part binds its value and is its
placeholder, and a column binds nothing. -/
structure WritesLeaf (st : Settings) (c : Clause) (s : Slate) (x : Expr) (t : Text) (s' : Slate) :
    Prop where
  yields : Yields ((x.render st).value c) s t s'
  bound : x.isClosed = true → ∃ v, x.eval st.pre = .ok v ∧
    t = st.profile.placeholder (s.params.length + 1) ∧
    ∃ dataType, s'.params = s.params ++ [⟨v, dataType⟩]
  unbound : x.isClosed = false → s'.params = s.params

/-- The leaves of a tree are written as their texts, one after the other. -/
def LeavesInTurn (st : Settings) (c : Clause) : Slate → List (Expr × Text) → Slate → Prop
  | s, [], s' => s' = s
  | s, (x, t) :: leaves, s' => ∃ s₁, WritesLeaf st c s x t s₁ ∧ LeavesInTurn st c s₁ leaves s'

theorem LeavesInTurn.append {st : Settings} {c : Clause} {s s₁ s' : Slate}
    {l l' : List (Expr × Text)} (h : LeavesInTurn st c s l s₁)
    (h' : LeavesInTurn st c s₁ l' s') : LeavesInTurn st c s (l ++ l') s' := by
  induction l generalizing s with
  | nil =>
    obtain rfl := h
    exact h'
  | cons x l ih =>
    obtain ⟨x, t⟩ := x
    obtain ⟨s₂, hx, h⟩ := h
    exact ⟨s₂, hx, ih h⟩

namespace Expr

variable {st : Settings} {e l r : Expr} {op : BinaryOp} {c : Clause} {s s' : Slate} {t : Text}

/-- The text is read as the tree wherever an expression with the same outermost operator can
stand. -/
def ReadAs (e : Expr) (t : Text) (x : Term Text) : Prop :=
  ∃ xs, Lexes t xs ∧ ReadsAt e.tightness xs x

theorem value_binary (op : BinaryOp) (l r : Expr) : ((binary op l r).render st).value c =
    folding st (binary op l r) (constantValue st)
      (Rendering.binaryValue st op (l.render st) (r.render st) c) := by
  have hrender : ((binary op l r).render st).value c =
      folding st (binary op (l.render st).expr (r.render st).expr) (constantValue st)
        (Rendering.binaryValue st op (l.render st) (r.render st) c) := rfl
  rw [hrender, render_expr, render_expr]

/-- The text of an operand, in parentheses if asked for. -/
def groupedText (parens : Bool) (t : Text) : Text := if parens then "(" ++ t ++ ")" else t

/-- An operand that binds tightly enough, or is put in parentheses, is read where the operator
needs it. -/
theorem ReadAs.grouped {x : Term Text} {parens : Bool} {k : Nat} (h : e.ReadAs t x)
    (hk : parens = false → k ≤ e.tightness) :
    ∃ xs, Lexes (groupedText parens t) xs ∧ ReadsAt k xs x := by
  obtain ⟨xs, hlexes, hreads⟩ := h
  cases parens with
  | true => exact ⟨_, hlexes.parens, hreads.sum.parens.readsAt k⟩
  | false => exact ⟨xs, hlexes, hreads.mono (hk rfl)⟩

theorem readAs_leaf (h : Lexes t [.word t]) : e.ReadAs t (.leaf t) :=
  ⟨_, h, (readsUnit_word t).readsAt _⟩

end Expr

namespace Emit

variable {st : Settings} {c : Clause} {s s₁ s' : Slate} {t : Text}

theorem yields_grouped {parens : Bool} {m : Emit Text} (h : Yields m s t s') :
    Yields (grouped parens m) s (Expr.groupedText parens t) s' := by
  cases parens with
  | true => exact yields_enclose.mpr ⟨t, h, rfl⟩
  | false => exact h

theorem yields_constantValue {v : Value} (hv : v.isNil = false) :
    Yields (constantValue st v) s (st.profile.placeholder (s.params.length + 1))
      (s.bindValue st.profile v []).2 := by
  rw [constantValue, if_neg (by simp [hv])]
  exact yields_placeholder.mpr ⟨rfl, rfl⟩

end Emit

namespace Expr

variable {st : Settings} {e l r : Expr} {op : BinaryOp} {c : Clause} {s s' : Slate} {t : Text}

/-- What arithmetic is written as: the text, the state after it and the tree that is read, whose
leaves come with their texts. -/
structure WritesTerm (st : Settings) (c : Clause) (s : Slate) (e : Expr) (t : Text) (s' : Slate)
    (x : Term (Expr × Text)) : Prop where
  yields : Yields ((e.render st).value c) s t s'
  within : s'.aliases.Within (Lexicon.identifiers st.quoted)
  readAs : e.ReadAs t (x.map Prod.snd)
  term : x.map Prod.fst = e.foldedTerm st.pre
  leaves : LeavesInTurn st c s x.leaves s'

/-- A part that is a single placeholder. -/
theorem writesTerm_placeholder {v : Value} (hc : e.isClosed = true) (hv : e.eval st.pre = .ok v)
    (hnil : v.isNil = false) (hvalue : (e.render st).value c = constantValue st v)
    (hterm : e.foldedTerm st.pre = .leaf e)
    (hs : s.aliases.Within (Lexicon.identifiers st.quoted)) :
    WritesTerm st c s e (st.profile.placeholder (s.params.length + 1))
      (s.bindValue st.profile v []).2
      (.leaf (e, st.profile.placeholder (s.params.length + 1))) := by
  have hyields : Yields (constantValue st v) s _ _ := yields_constantValue hnil
  rw [← hvalue] at hyields
  refine ⟨hyields, hs, readAs_leaf (lexes_placeholder st.dialect _), hterm.symm, _,
    ⟨hyields, fun _ => ?_, ?_⟩, rfl⟩
  · exact ⟨v, hv, rfl, _, rfl⟩
  · intro hopen
    rw [hc] at hopen
    cases hopen

/-- The text is that of a column, behind its alias if it has one. -/
def IsColumnText (st : Settings) (t : Text) : Prop :=
  ∃ v, (Lexicon.identifiers st.quoted).Name v ∧ (t = st.ident v ∨
    ∃ a, (Lexicon.identifiers st.quoted).Alias a ∧ t = st.ident a ++ "." ++ st.ident v)

theorem IsColumnText.lexes (h : IsColumnText st t) : Lexes t [.word t] := by
  obtain ⟨v, hv, rfl | ⟨a, ha, rfl⟩⟩ := h
  · exact (solid_ident (.inr hv)).lexes (ident_ne_nil hv)
  · exact lexes_column ha hv

/-- A column is one word. -/
theorem writesTerm_column {p : Param} {name : Text} {type owner : Option Ty} {entity : Entity}
    {col : Column} (hentity : st.entityOf p.type = .ok entity)
    (hcol : entity.column? name = some col) (hp : p.Named st (Lexicon.identifiers st.quoted))
    (hs : s.aliases.Within (Lexicon.identifiers st.quoted)) :
    ∃ t s', IsColumnText st t ∧ WritesTerm st c s (member (param p) name type owner) t s'
      (.leaf (member (param p) name type owner, t)) := by
  obtain ⟨hname, hnamed⟩ := hp
  obtain ⟨htable, -, hcolumns⟩ := hnamed entity hentity
  have hcolumn := hcolumns col (List.mem_of_find?_eq_some hcol)
  obtain ⟨halias, hwithin⟩ := hs.bind hname fun h => .inr (htable h)
  have hopen := isClosed_member_param p name type owner
  have write : ∀ t, Yields (column st p name) s (t, col)
      { s with aliases := (s.aliases.bind p entity.table).2 } → IsColumnText st t →
      ∃ t s', IsColumnText st t ∧ WritesTerm st c s (member (param p) name type owner) t s'
        (.leaf (member (param p) name type owner, t)) := by
    intro t ht htext
    have hyields : Yields (((member (param p) name type owner).render st).value c) s t
        { s with
          aliases := (s.aliases.bind p entity.table).2
          pendingType := col.dataType } :=
      yields_folding.mpr (.inr ⟨folded?_of_not_isClosed hopen st.pre, by
        simpa only [columnOf, yields_bind, yields_setPending, yields_pure] using
          ⟨_, _, ht, (), _, rfl, rfl, rfl⟩⟩)
    refine ⟨t, _, htext, hyields, hwithin, readAs_leaf htext.lexes, rfl, _,
      ⟨hyields, fun hc => ?_, fun _ => rfl⟩, rfl⟩
    rw [hopen] at hc
    cases hc
  have hrow : Yields (row st p) s (entity, (s.aliases.bind p entity.table).1)
      { s with aliases := (s.aliases.bind p entity.table).2 } :=
    yields_row.mpr ⟨hentity, rfl, rfl⟩
  cases hsingle : st.singleTable with
  | true =>
    refine write (st.ident col.name) ?_ ⟨_, hcolumn, .inl rfl⟩
    refine yields_bind.mpr ⟨_, _, hrow, ?_⟩
    simp [hcol, hsingle]
  | false =>
    refine write (st.ident _ ++ "." ++ st.ident col.name) ?_
      ⟨_, hcolumn, .inr ⟨_, halias, rfl⟩⟩
    refine yields_bind.mpr ⟨_, _, hrow, ?_⟩
    simp [hcol, hsingle]

/-- An operator between what its operands are written as. -/
theorem WritesTerm.binary {s₁ s₂ : Slate} {u token : Text} {x y : Term (Expr × Text)}
    (hop : op ∈ arithmeticOperators) (htoken : op.token? = some token) (hl : Arithmetic st l)
    (hr : Arithmetic st r) (hf : (Expr.binary op l r).folded? st.pre = .ok none)
    (ht : WritesTerm st c s l t s₁ x) (hu : WritesTerm st c s₁ r u s₂ y) :
    WritesTerm st c s (Expr.binary op l r) (groupedText (l.arithmeticParens op false) t ++ token ++
      groupedText (r.arithmeticParens op true) u) s₂ (.node op x y) := by
  obtain ⟨xs, hxs, hx⟩ := ht.readAs.grouped (hl.tightness_of_left hop)
  obtain ⟨ys, hys, hy⟩ := hu.readAs.grouped (hr.tightness_of_right hop)
  refine ⟨?_, hu.within, ⟨_, hxs.operator hop htoken hys, hx.operator hop hy⟩, ?_,
    ht.leaves.append hu.leaves⟩
  · rw [value_binary, yields_folding]
    refine .inr ⟨hf, ?_⟩
    simp only [Rendering.binaryValue, render_expr, isArithmetic_of_mem op hop, hl.isText, hr.isText,
      htoken, Bool.not_true, Bool.or_self, Bool.and_false, Bool.false_eq_true, if_false]
    exact yields_join.mpr ⟨_, _, _, yields_grouped ht.yields, yields_grouped hu.yields, rfl⟩
  · simp only [Term.map, ht.term, hu.term, foldedTerm, hf]

theorem exists_token_of_mem (hop : op ∈ arithmeticOperators) : ∃ token, op.token? = some token := by
  have hall : ∀ op ∈ arithmeticOperators, op.token?.isSome = true := by decide
  exact Option.isSome_iff_exists.mp (hall op hop)

/-- An operator is evaluated to a number, or it is written by its own rule. -/
theorem Arithmetic.folded?_cases (h : Arithmetic st (.binary op l r)) (pre : Prelude) :
    (Expr.binary op l r).folded? pre = .ok none ∨ (Expr.binary op l r).isClosed = true ∧
      ∃ v, (Expr.binary op l r).eval pre = .ok v ∧ v.numeric?.isSome = true ∧
        (Expr.binary op l r).folded? pre = .ok (some v) := by
  cases hc : (Expr.binary op l r).isClosed with
  | false => exact .inl (folded?_of_not_isClosed hc pre)
  | true =>
    obtain ⟨v, hv, hnumber⟩ | ⟨err, herr⟩ :
        (∃ v, (Expr.binary op l r).eval pre = .ok v ∧ v.numeric?.isSome = true) ∨
          ∃ err, (Expr.binary op l r).eval pre = .error (.error err) := h.eval_ok_or_error hc
    · refine .inr ⟨rfl, v, hv, hnumber, ?_⟩
      rw [folded?, hc, hv]
      rfl
    · refine .inl ?_
      rw [folded?, hc, herr]
      rfl

/-- An operator that is evaluated is a placeholder. -/
theorem writesTerm_of_folded? {v : Value}
    (hc : (Expr.binary op l r).isClosed = true) (hv : (Expr.binary op l r).eval st.pre = .ok v)
    (hnumber : v.numeric?.isSome = true) (hf : (Expr.binary op l r).folded? st.pre = .ok (some v))
    (hs : s.aliases.Within (Lexicon.identifiers st.quoted)) :
    WritesTerm st c s (Expr.binary op l r) (st.profile.placeholder (s.params.length + 1))
      (s.bindValue st.profile v []).2
      (.leaf (Expr.binary op l r, st.profile.placeholder (s.params.length + 1))) := by
  refine writesTerm_placeholder hc hv (Value.isNil_of_numeric? hnumber) ?_ ?_ hs
  · rw [value_binary, folding, hf]
    rfl
  · rw [foldedTerm, hf]

theorem Arithmetic.exists_writesTerm {raw inlined : Expr → Prop} (h : Arithmetic st e)
    (hn : NamedWith st (Lexicon.identifiers st.quoted) raw inlined e)
    (hs : s.aliases.Within (Lexicon.identifiers st.quoted)) :
    ∃ t s' x, WritesTerm st c s e t s' x := by
  induction h generalizing s with
  | column hentity hcol =>
    obtain ⟨t, s', -, ht⟩ := writesTerm_column hentity hcol hn hs
    exact ⟨t, s', _, ht⟩
  | number hv =>
    exact ⟨_, _, _, writesTerm_placeholder rfl rfl (Value.isNil_of_numeric? hv) rfl rfl hs⟩
  | @binary op l r hop hl hr ihl ihr =>
    obtain ⟨token, htoken⟩ := exists_token_of_mem hop
    rcases (Arithmetic.binary hop hl hr).folded?_cases st.pre with
      hf | ⟨hc, v, hv, hnumber, hf⟩
    · obtain ⟨t, s₁, x, ht⟩ := ihl hn.1 hs
      obtain ⟨u, s₂, y, hu⟩ := ihr hn.2 ht.within
      exact ⟨_, _, _, ht.binary hop htoken hl hr hf hu⟩
    · exact ⟨_, _, _, writesTerm_of_folded? hc hv hnumber hf hs⟩

/-- **Arithmetic keeps its grouping.** With quoted names, or identifiers as names, it compiles, and
its text is read as the tree that it was written for, with a placeholder for each largest part that
is evaluated. -/
theorem Arithmetic.read_back (h : Arithmetic st e) (c : Clause)
    (hn : e.Named st (Lexicon.identifiers st.quoted))
    (hs : s.aliases.Within (Lexicon.identifiers st.quoted)) :
    ∃ (t : Text) (s' : Slate) (x : Term (Expr × Text)), Yields ((e.render st).value c) s t s' ∧
      readTerm? t = some (x.map Prod.snd) ∧ x.map Prod.fst = e.foldedTerm st.pre ∧
      LeavesInTurn st c s x.leaves s' := by
  obtain ⟨t, s', x, hw⟩ := h.exists_writesTerm hn hs
  obtain ⟨xs, hlexes, hreads⟩ := hw.readAs
  exact ⟨t, s', x, hw.yields, readTerm?_of_lexes hlexes hreads.sum, hw.term, hw.leaves⟩

end Expr

/-! ### Samples -/

namespace Sample

theorem customerRow_identifiers (d : Dialect) :
    customerRow.Named (.standard d world) (Lexicon.identifiers false) := by
  have columns : ∀ v ∈ customerColumns, v ≠ [] ∧ v.all isNameByte = true := by decide
  exact customerRow_named_of rfl (.inr (by decide)) trivial fun v hv => .inr (columns v hv)

/-- A difference of ages, where a sum is evaluated. -/
def ageDifference : Expr :=
  .binary .subtract (.field customerRow "Age")
    (.binary .subtract (.field customerRow "Age")
      (.binary .multiply (.binary .add (.value (.int .int 1)) (.value (.int .int 2)))
        (.field customerRow "Age")))

/-- Twice an age of a row whose name looks like a sum. -/
def twiceAge : Expr :=
  .binary .multiply (.field ⟨1, "a + b", some customer⟩ "Age") (.value (.int .int 2))

end Sample

open Sample in
theorem Expr.Arithmetic.read_back_ageDifference :
    ∃ (t : Text) (s' : Slate) (x : Term (Expr × Text)),
      Yields ((ageDifference.render (.standard .postgres world)).value .select) .empty t s' ∧
        readTerm? t = some (x.map Prod.snd) ∧ x.map Prod.fst = ageDifference.foldedTerm world ∧
        LeavesInTurn (.standard .postgres world) .select .empty x.leaves s' := by
  have age : Arithmetic (.standard .postgres world) (.field customerRow "Age") :=
    .column rfl rfl rfl
  have number : ∀ n, Arithmetic (.standard .postgres world) (.value (.int .int n)) :=
    fun n => .number rfl rfl
  have harith : Arithmetic (.standard .postgres world) ageDifference :=
    .binary (by decide) age (.binary (by decide) age
      (.binary (by decide) (.binary (by decide) (number 1) (number 2)) age))
  have hrow := customerRow_identifiers .postgres
  exact harith.read_back .select ⟨hrow, hrow, ⟨trivial, trivial⟩, hrow⟩ (AliasTable.within_empty _)

open Sample in
/-- A name that is not quoted can be read as arithmetic itself. -/
theorem exists_term_read_otherwise :
    ∃ d, (Draft.new (.standard .sqlServer world)).compile twiceAge .select [] = (d, .ok ()) ∧
      readTerm? d.text =
        some (.node .add (.leaf "a") (.node .multiply (.leaf "b.age") (.leaf "@p1"))) ∧
      ∃ l r, twiceAge.foldedTerm world = .node .multiply (.leaf l) (.leaf r) := by
  have items : selection? twiceAge =
      some (("a + b.age * @p1" : Text), (["a + b.age * @p1"] : List Text)) := by
    decide +kernel
  obtain ⟨d, hd, ht, -⟩ := compile_of_selection? items
  refine ⟨d, hd, ?_, _, _, rfl⟩
  rw [ht]
  decide +kernel

end QueryTree
