import QueryTree.Proofs.Emitted

/-!
# Expressions emit texts of a kind

The rendering of an expression holds what it emits in every position. `Rendering.Lawful` says that
what it emits is a text of the kind in each of them: values as a value and in a membership test,
a condition or nothing as a condition, items in a list, and values in the cells of a row to write.
Each construct of the language is one function on renderings, and each has one lemma here that it
keeps renderings lawful. Compiling is a fold over the tree, and so is the proof that it does.

Only negation needs more than that its operand is lawful: a minus sign has to fit in front of it.
`MinusFits` is about a property of expressions that sees to this and is passed on to the parts of an
expression, the inlined body of an invocation among them.

## Main definitions

* `Expr.parts`: the expressions that are rendered for an expression
* `MinusFits`

## Main results

* `Expr.lawfulOf_renderTo`: the renderings of expressions are lawful where minus signs fit
* `Expr.lawful_renderTo`, `Expr.lawful_render`: they are lawful for the grammar
-/

namespace QueryTree

open Emit

variable {st : Settings} {L : Lexicon} {K : TextKinds st L} {raw : Prop}

namespace Rendering

/-- A rendering that is lawful as an argument under one condition is so under a stronger one. -/
theorem Lawful.mono {raw' : Prop} {r : Rendering} (h : Lawful K raw r) (hraw : raw' → raw) :
    Lawful K raw' r :=
  { h with argument := fun hr => h.argument (hraw hr) }

/-! ### Rows

Rows to write are made of constants here. Their values are bound, and bound values are lawful. -/

theorem lawful_rowsOfValue {e : Expr} {w : Column → Bool} {rows : List Row}
    (h : rowsOfValue st e w = .ok rows) : ∀ x ∈ rows, x.Lawful K w := by
  unfold rowsOfValue at h
  split at h
  · exact Row.lawful_allOfValue h
  · cases h
  · cases h

theorem noRows_ne_ok {e : Expr} {c : Clause} {w : Column → Bool} {rows : List Row} :
    noRows e c w ≠ .ok rows := by
  unfold noRows
  split <;> nofun

/-- Rows come from the constant that an expression is folded to, or there are none. -/
theorem lawful_foldedRows {e : Expr} {c : Clause} {w : Column → Bool} {rows : List Row}
    (h : foldedRows st e (noRows e) c w = .ok rows) : ∀ x ∈ rows, x.Lawful K w := by
  unfold foldedRows at h
  obtain ⟨v?, -, h⟩ := bind_eq_ok.mp h
  cases v? with
  | some v => exact Row.lawful_allOfValue h
  | none => exact absurd h noRows_ne_ok

/-- Nothing is emitted at all. -/
theorem lawful_unsupported (e : Expr) : Lawful K raw (unsupported st e) where
  value _ := emits_unsupported
  condition _ := emits_unsupported
  members := emits_unsupported
  argument _ _ := emits_unsupported
  projection := emits_unsupported
  listing _ _ := emits_unsupported
  row _ _ _ h := lawful_rowsOfValue h
  rows c w _ h := absurd (show noRows e c w = _ from h) noRows_ne_ok
  addends m hm _ := by
    obtain rfl := List.mem_singleton.mp hm
    exact emits_unsupported
  addends_ne := nofun

/-! ### Single values

Operators, calls and conditionals have a value and a condition. The remaining positions are derived
from these two in the same way for all of them. -/

/-- What is folded is a constant, and all other positions are made of the value. -/
theorem lawful_scalar {e : Expr} {value condition : Clause → Emit Text} {isTest : Bool}
    {addends : Option (List (Clause → Emit Text))}
    (hv : ∀ c, Emits L K.Value (value c))
    (hc : ∀ c, Emits L (Optional K.Condition) (condition c))
    (ha : ∀ l, addends = some l → l ≠ [] ∧ ∀ m ∈ l, ∀ c, Emits L K.Value (m c)) :
    Lawful K raw (scalar st e value condition isTest addends) := by
  have folded : ∀ c, Emits L K.Value
      (folding st e (constantValue st) (value c)) := fun c =>
    emits_folding emits_constantValue (hv c)
  have test : ∀ c, Emits L (Optional K.Condition)
      (folding st e (constantCondition · c) (condition c)) := fun c =>
    emits_folding (emits_constantCondition · c) (hc c)
  have addends_ok : addends.getD [fun c => folding st e (constantValue st) (value c)] ≠ [] ∧
      ∀ m ∈ addends.getD [fun c => folding st e (constantValue st) (value c)], ∀ c,
        Emits L K.Value (m c) := by
    cases addends with
    | some l => exact ha l rfl
    | none =>
      refine ⟨nofun, fun m hm => ?_⟩
      obtain rfl := List.mem_singleton.mp hm
      exact folded
  refine ⟨folded, test, emits_folding emits_constantMembers emits_unsupported, fun _ c => ?_,
    emits_selectItem (folded .select) (.inl rfl), fun c ds => ?_, fun _ _ _ h => ?_,
    fun _ _ _ h => lawful_foldedRows h, addends_ok.2, addends_ok.1⟩
  · show Emits L _ (if c = .count && isTest then _ else _)
    split
    · exact (emits_stated (test c)).enclose fun _ _ _ ht => .inl (K.counted ht)
    · exact (folded c).mono fun _ _ _ => .inl
  · intro s p s' hs hy
    simp only [scalar, yields_bind, yields_setPending, yields_pure] at hy
    obtain ⟨t, s₁, ht, _, s₂, rfl, rfl, rfl⟩ := hy
    obtain ⟨hs₁, hv⟩ := folded c s t s₁ hs ht
    exact ⟨hs₁, listText_listItem (.value hv) c ds⟩
  · exact lawful_rowsOfValue h

/-! ### Columns

A column is written with its alias, so its names and that of its row have to be permitted. -/

theorem lengthFunction_mem (d : Dialect) : d.profile.lengthFunction ∈ functionNames := by
  cases d <;> decide

/-- A column needs no mark; its name and its alias are permitted. -/
theorem emits_column {p : Param} (hp : p.Named st L) (member : Text) :
    Emits L (fun n m r => n = m ∧ K.Value n n r.1) (column st p member) := by
  intro s r s' hs hy
  simp only [column, yields_bind, yields_row] at hy
  obtain ⟨⟨e, name⟩, s₁, ⟨he, hname, rfl⟩, hy⟩ := hy
  simp only at he hname hy
  subst hname
  obtain ⟨htable, -, hcolumns⟩ := hp.2 e he
  obtain ⟨ha, hs₁⟩ := hs.bind hp.1 fun hname => .inr (htable hname)
  split at hy
  · exact absurd hy not_yields_fail
  · rename_i c hc
    have hcol : L.Name c.name := hcolumns c (List.mem_of_find?_eq_some hc)
    split at hy
    · obtain ⟨rfl, rfl⟩ := yields_pure.mp hy
      exact ⟨hs₁, rfl, K.bare hcol⟩
    · obtain ⟨rfl, rfl⟩ := yields_pure.mp hy
      exact ⟨hs₁, rfl, K.column ha hcol⟩

/-- The length of a column is a function of it. -/
theorem emits_columnOf {rawOf inlined : Expr → Prop} (c : Clause) (e : Expr)
    (h : e.NamedWith st L rawOf inlined) : Emits L K.Value (columnOf st c e) := by
  fun_induction columnOf st c e with
  | case1 p name _ _ =>
    intro s t s' hs hy
    simp only [yields_bind, yields_setPending, yields_pure] at hy
    obtain ⟨⟨t, col⟩, s₁, hcol, _, _, rfl, rfl, rfl⟩ := hy
    obtain ⟨hs₁, hn, hv⟩ := emits_column h name s _ s₁ hs hcol
    exact ⟨hs₁, hn ▸ hv⟩
  | case2 e n t o name _ _ hif column ih =>
    intro s text s' hs hy
    simp only [yields_bind, yields_enclose, yields_setPending, yields_pure] at hy
    obtain ⟨_, s₁, ⟨t', ht', rfl⟩, _, s₂, rfl, rfl, rfl⟩ := hy
    obtain ⟨hs₁, hv⟩ := ih h s t' s₁ hs ht'
    exact ⟨hs₁, K.call (lengthFunction_mem st.dialect) hv⟩
  | case3 => exact emits_fail
  | case4 => exact emits_unsupported

/-- Dialects that have no truth values compare with one. -/
theorem truthTest_eq (d : Dialect) :
    d.profile.truthTest = (" = " : Text) ++ "1" ∨
      d.profile.truthTest = (" IS " : Text) ++ "TRUE" := by
  cases d <;> decide

theorem lawful_member {rawOf inlined : Expr → Prop} {e : Expr} {name : Text}
    {type owner : Option Ty} (h : e.NamedWith st L rawOf inlined) :
    Lawful K raw (member st e name type owner) := by
  have hcol : ∀ c, Emits L K.Value (columnOf st c (.member e name type owner)) := fun c =>
    emits_columnOf c _ h
  refine lawful_scalar hcol (fun c => ?_) nofun
  split
  · exact emits_fail
  · intro s t s' hs hy
    simp only [yields_bind, yields_setPending, yields_pure] at hy
    obtain ⟨a, s₁, ha, _, s₂, rfl, rfl, rfl⟩ := hy
    obtain ⟨hs₁, hv⟩ := hcol c s a s₁ hs ha
    refine ⟨hs₁, .inr ?_⟩
    rcases truthTest_eq st.dialect with ht | ht
    · have hc : K.Condition s.params.length s₁.params.length (a ++ " = " ++ "1") :=
        K.compare (by decide) hv K.one
      show K.Condition _ _ (a ++ st.dialect.profile.truthTest)
      rw [ht, ← List.append_assoc]
      exact hc
    · have hc : K.Condition s.params.length s₁.params.length (a ++ " IS " ++ "TRUE") :=
        K.compare (by decide) hv (K.word (by decide))
      show K.Condition _ _ (a ++ st.dialect.profile.truthTest)
      rw [ht, ← List.append_assoc]
      exact hc

/-! ### Operators

Conditions may be empty, values are not. So an operator between conditions is left out where a side
is empty, and an operator between values never is. -/

theorem logical_token {op : BinaryOp} (h : op.isLogical = true) :
    op.token?.getD [] ∈ logicalTokens := by
  cases op <;> first | cases h; done | decide

variable {l r : Rendering} {rawl rawr : Prop}

/-- A side that is a true literal is not written. -/
theorem emits_logical {op : BinaryOp} (h : op.isLogical = true) (hl : Lawful K rawl l)
    (hr : Lawful K rawr r) (c : Clause) :
    Emits L (Optional K.Condition) (logical op l r c) := by
  unfold logical
  simp only
  split
  · exact emits_pure fun _ => .inl ⟨rfl, rfl⟩
  · split
    · exact hr.condition c
    · exact emits_joined (logical_token h) (emits_groupedCondition (hl.condition c) _)
        (emits_groupedCondition (hr.condition c) _)

theorem emits_negatable (hl : Lawful K rawl l) (isNegated : Bool) (c : Clause) :
    Emits L (Optional K.Condition) (negatable l isNegated c) :=
  emits_negated (emits_groupedCondition (hl.condition c) _) isNegated

/-- What is compared with a truth literal is one of the two sides. -/
theorem truthComparison?_eq {l r c : Rendering} {v : Bool}
    (h : truthComparison? l r = some (c, v)) : c = l ∨ c = r := by
  unfold truthComparison? at h
  split at h
  all_goals first | cases h | (split at h)
  all_goals first
    | cases h; done
    | (cases h; exact .inl rfl)
    | (cases h; exact .inr rfl)
    | (split at h <;> first | cases h; done | (cases h; exact .inr rfl))

theorem emits_comparison {op : BinaryOp} (h : op.isComparison = true) (hl : Lawful K rawl l)
    (hr : Lawful K rawr r) (c : Clause) :
    Emits L (Optional K.Condition) (comparison op l r c) := by
  have plain : ∀ {l r : Rendering} {rawl rawr : Prop}, Lawful K rawl l → Lawful K rawr r →
      Emits L (Optional K.Condition) (compared op (grouped l.expr.needsParens (l.value c))
        (grouped r.expr.needsParens (r.value c))) := fun hl hr =>
    emits_compared h (emits_grouped (hl.value c) _) (emits_grouped (hr.value c) _)
  have ordered : ∀ x, x = (if l.expr.isNullConstant && !r.expr.isNullConstant then (r, l)
      else (l, r)) → Emits L (Optional K.Condition) (compared op
        (grouped x.1.expr.needsParens (x.1.value c))
        (grouped x.2.expr.needsParens (x.2.value c))) := by
    rintro _ rfl
    split
    · exact plain hr hl
    · exact plain hl hr
  have sides := ordered _ rfl
  unfold comparison
  simp only
  split
  · split
    · rename_i hc
      rcases truthComparison?_eq hc with rfl | rfl
      · exact emits_negatable hl _ c
      · exact emits_negatable hr _ c
    · exact sides
  · exact sides

/-- Logical operators join conditions, comparisons join values, and others are refused. -/
theorem emits_binaryCondition {op : BinaryOp} (hl : Lawful K rawl l) (hr : Lawful K rawr r)
    (c : Clause) : Emits L (Optional K.Condition) (binaryCondition op l r c) := by
  unfold binaryCondition
  split
  · rename_i h
    exact emits_logical h hl hr c
  · split
    · rename_i h
      exact emits_comparison h hl hr c
    · split <;> exact emits_fail

theorem arithmetic_token {op : BinaryOp} {token : Text} (h : op.isArithmetic = true)
    (ht : op.token? = some token) : token ∈ valueOperators := by
  cases op <;> first | cases h; done | cases ht; done | (cases ht; decide)

theorem emits_addends (hl : Lawful K rawl l) (hr : Lawful K rawr r) :
    l.addends ++ r.addends ≠ [] ∧
      ∀ m ∈ l.addends ++ r.addends, ∀ c, Emits L K.Value (m c) := by
  refine ⟨by simp [hl.addends_ne], fun m hm => ?_⟩
  rcases List.mem_append.mp hm with hm | hm
  · exact hl.addends m hm
  · exact hr.addends m hm

/-- A condition is put into a truth case, an addition of texts is a call, and arithmetic joins
values. -/
theorem emits_binaryValue {op : BinaryOp} (hl : Lawful K rawl l) (hr : Lawful K rawr r)
    (c : Clause) : Emits L K.Value (binaryValue st op l r c) := by
  unfold binaryValue
  simp only
  split
  · exact emits_truthCase (emits_binaryCondition hl hr c)
  · rename_i ha
    split
    · intro s t s' hs hy
      simp only [bind_pure_comp, yields_map] at hy
      obtain ⟨ts, hts, rfl⟩ := hy
      obtain ⟨hne, hadd⟩ := emits_addends hl hr
      obtain ⟨hs', hvs, hlen⟩ := emits_mapM (fun m hm => hadd m hm c) s ts s' hs hts
      refine ⟨hs', K.concatAll hvs ?_⟩
      rintro rfl
      exact hne (List.length_eq_zero_iff.mp hlen.symm)
    · split
      · exact emits_fail
      · rename_i token ht
        have hsep := arithmetic_token (by simpa using ha) ht
        exact (emits_grouped (hl.value c) _).join (emits_grouped (hr.value c) _)
          fun _ _ _ _ _ hva hvb => K.op hsep hva hvb

/-- The addends of an addition of texts are those of its operands. -/
theorem lawful_binary {op : BinaryOp} (hl : Lawful K rawl l) (hr : Lawful K rawr r) :
    Lawful K raw (binary st op l r) := by
  refine lawful_scalar (emits_binaryValue hl hr) (emits_binaryCondition hl hr) fun adds h => ?_
  split at h
  · cases h
    exact emits_addends hl hr
  · cases h

theorem lawful_quoted (hl : Lawful K raw l) (type : Option Ty) :
    Lawful K raw (quoted st l type) :=
  { hl with
    row := fun c w rows h => by
      simp only [quoted] at h
      split at h <;> split at h <;> first | exact hl.row c w rows h | exact lawful_rowsOfValue h
    addends := fun m hm => by
      obtain rfl := List.mem_singleton.mp hm
      exact hl.value
    addends_ne := nofun }

/-- A minus sign may stand in front of what the emitter emits. -/
def TakesMinus (K : TextKinds st L) (m : Emit Text) : Prop :=
  ∀ s t s', s.aliases.Within L → Yields m s t s' → K.Unsigned t

/-- A minus sign may stand in front of parentheses. -/
theorem takesMinus_parens (m : Emit Text) : TakesMinus K (grouped true m) := by
  intro s t s' _ hy
  obtain ⟨a, -, rfl⟩ := yields_enclose.mp (show Yields (enclose "(" m ")") s t s' from hy)
  exact K.unsigned_parens a

/-- The minus sign is the only operator that is written in front of its operand. -/
theorem lawful_unary {op : UnaryOp} (hl : Lawful K rawl l)
    (hminus : op = .negate → ∀ c, TakesMinus K (grouped l.expr.isBinary (l.value c)))
    (type : Option Ty) : Lawful K raw (unary st op l type) := by
  refine lawful_scalar (fun c => ?_) (fun c => ?_) nofun
  · split
    · exact hl.value c
    · intro s t s' hs hy
      simp only [bind_pure_comp, yields_map, yields_after] at hy
      obtain ⟨a, ha, rfl⟩ := hy
      obtain ⟨hs', hv⟩ := emits_grouped (hl.value c) _ s a s' hs ha
      exact ⟨hs', K.minus hv (hminus rfl c s a s' hs ha)⟩
    · exact emits_truthCase (emits_negatable hl true c)
    · exact emits_fail
  · split
    · exact emits_negatable hl true c
    · exact hl.condition c
    · exact emits_fail

/-- A conditional that is decided at once emits as one of its branches. -/
theorem emits_decided {Q : Nat → Nat → Text → Prop} {d : Attempt CompileError (Option Bool)}
    {m : Option Bool → Emit Text} (h : ∀ b, Emits L Q (m b)) :
    Emits L Q (ofAttempt d >>= m) := by
  intro s t s' hs hy
  obtain ⟨b, s₁, hb, hm⟩ := yields_bind.mp hy
  obtain ⟨-, rfl⟩ := yields_ofAttempt.mp hb
  exact h b _ t s' hs hm

theorem lawful_cond {c a b : Rendering} {rawc rawa rawb : Prop} (hc : Lawful K rawc c)
    (ha : Lawful K rawa a) (hb : Lawful K rawb b) : Lawful K raw (cond st c a b) := by
  refine lawful_scalar (fun cl => emits_decided fun d => ?_)
    (fun cl => emits_decided fun d => ?_) nofun
  · cases d with
    | some d => cases d with
      | true => exact ha.value cl
      | false => exact hb.value cl
    | none =>
      have branches : Emits L (fun i m t => ∃ j y z, K.Value i j y ∧
          K.Value j m z ∧ t = y ++ " ELSE " ++ z)
          (join (a.value cl) " ELSE " (b.value cl)) :=
        (ha.value cl).join (hb.value cl) fun _ _ _ _ _ hy hz => ⟨_, _, _, hy, hz, rfl⟩
      have cases : Emits L (fun n m t => ∃ i j x y z, K.Condition n i x ∧
          K.Value i j y ∧ K.Value j m z ∧ t = x ++ " THEN " ++ (y ++ " ELSE " ++ z))
          (join (stated (c.condition cl)) " THEN " (join (a.value cl) " ELSE " (b.value cl))) := by
        refine (emits_stated (hc.condition cl)).join branches ?_
        rintro n i m x _ hx ⟨j, y, z, hy, hz, rfl⟩
        exact ⟨i, j, x, y, z, hx, hy, hz, rfl⟩
      refine cases.enclose ?_
      rintro n m _ ⟨i, j, x, y, z, hx, hy, hz, rfl⟩
      simpa only [List.append_assoc] using K.choice hx hy hz
  · cases d with
    | some d => cases d with
      | true => exact ha.condition cl
      | false => exact hb.condition cl
    | none => exact emits_fail

/-! ### Calls

The arguments of a call are lawful without the condition on raw items. Only the first argument of an
aggregate function is read as one. -/

/-- A pattern is put around the mark of its text. -/
theorem emits_pattern (pattern : Pattern) (hr : Lawful K rawr r) (c : Clause) :
    Emits L K.Value (do return pattern.emit st.profile (← r.value c)) := by
  intro s t s' hs hy
  simp only [bind_pure_comp, yields_map] at hy
  obtain ⟨a, ha, rfl⟩ := hy
  obtain ⟨hs', hv⟩ := hr.value c s a s' hs ha
  exact ⟨hs', K.pattern hv pattern⟩

theorem likeToken_mem (isNegated : Bool) :
    (if isNegated then (" NOT LIKE " : Text) else " LIKE ") ∈ comparisonTokens := by
  cases isNegated <;> decide

/-- A value, an operator and a pattern are a condition. -/
theorem emits_likeTest {isNegated : Bool} {pattern : Pattern} (hl : Lawful K rawl l)
    (hr : Lawful K rawr r) (c : Clause) :
    Emits L (Optional K.Condition) (likeTest st isNegated pattern l r c) :=
  (hl.value c).join (emits_pattern pattern hr c) fun _ _ _ _ _ ha hb =>
    .inr (K.compare (likeToken_mem isNegated) ha hb)

theorem emits_members (hr : Lawful K rawr r) : Emits L K.Value
    (if r.expr.isHole then fail (.missingArgument .in_) else r.members) := by
  split
  · exact emits_fail
  · exact hr.members

theorem inToken_mem (isNegated : Bool) :
    (if isNegated then (" NOT IN " : Text) else " IN ") ∈ comparisonTokens := by
  cases isNegated <;> decide

/-- Membership in a list without members is decided without a mark. -/
theorem emits_membership (hl : Lawful K rawl l) (hr : Lawful K rawr r) (isNegated : Bool)
    (c : Clause) : Emits L (Optional K.Condition) (membership l r isNegated c) := by
  unfold membership
  split
  · refine emits_pure fun n => ?_
    split
    · exact .inr K.never
    · split
      · exact .inl ⟨rfl, rfl⟩
      · exact .inr K.always
  · exact (hl.value c).join (emits_members hr) fun _ _ _ _ _ ha hb =>
      .inr (K.compare (inToken_mem isNegated) ha hb)

theorem function_mem {c : Clause} : c.function ∈ functionNames := by
  cases c with
  | unknown => exact (by decide : ("" : Text) ∈ functionNames)
  | _ => decide

/-- The argument may be a raw item here and nowhere else. -/
theorem emits_aggregate {c : Clause} (hl : Lawful K (l.expr.isHole = false) l) :
    Emits L K.Value (aggregate c l) := by
  unfold aggregate
  simp only
  have harg : Emits L (ArgumentText L K.Value)
      (if l.expr.isHole then if c = .count then pure ("*" : Text) else fail (.missingArgument c)
        else l.argument c) := by
    split
    · split
      · exact emits_pure fun _ => .inl (K.word (by decide))
      · exact emits_fail
    · rename_i hhole
      exact hl.argument (by simpa using hhole) c
  exact harg.enclose fun _ _ _ ht => K.argument function_mem ht

/-- The rules of methods name functions of the grammar only. -/
theorem function_of_ofName? {method name : Text}
    (h : Intrinsic.ofName? method = some (.function name)) : name ∈ functionNames := by
  have hall : ∀ x ∈ Intrinsic.table, (match x.2 with
      | .function f => decide (f ∈ functionNames)
      | _ => true) = true := by decide
  simpa using hall _ (AliasTable.mem_of_lookup h)

theorem emits_isNullOrEmpty (hl : Lawful K rawl l) (c : Clause) :
    Emits L (Optional K.Condition)
      (enclose "(" (join (l.value c) " IS NULL OR " (l.value c)) " = '')") := by
  have tests : Emits L (fun n m t => ∃ k x y, K.Value n k x ∧ K.Value k m y ∧
      t = x ++ " IS NULL OR " ++ y) (join (l.value c) " IS NULL OR " (l.value c)) :=
    (hl.value c).join (hl.value c) fun _ _ _ _ _ hx hy => ⟨_, _, _, hx, hy, rfl⟩
  refine tests.enclose ?_
  rintro n m _ ⟨k, x, y, hx, hy, rfl⟩
  have hnull : K.Condition n k (x ++ " IS " ++ "NULL") :=
    K.compare (by decide) hx K.null
  have hempty : K.Condition k m (y ++ " = " ++ "''") :=
    K.compare (by decide) hy (K.word (by decide))
  have hboth := K.group (K.join (by decide : (" OR " : Text) ∈ logicalTokens) hnull hempty)
  have h₁ : (" IS NULL OR " : Text) = " IS " ++ ("NULL" ++ " OR ") := by decide
  have h₂ : (" = '')" : Text) = " = " ++ ("''" ++ ")") := by decide
  refine .inr ?_
  simpa only [h₁, h₂, List.append_assoc] using hboth

variable {target : Rendering} {args : List Rendering}

/-- The methods that are conditions: tests of texts, of membership, of equality and for nothing. -/
theorem emits_conditionIntrinsic {i : Intrinsic} (hi : i.isCondition = true)
    (ht : Lawful K False target) (ha : ∀ a ∈ args, Lawful K False a) (c : Clause) :
    Emits L (Optional K.Condition) (intrinsic st target args c i) := by
  cases i with
  | like isNegated pattern =>
    cases args with
    | nil => exact emits_fault
    | cons a _ => exact emits_likeTest ht (ha a (by simp)) c
  | membership isNegated =>
    cases args with
    | nil => exact emits_fault
    | cons a _ => exact emits_membership ht (ha a (by simp)) isNegated c
  | contains =>
    cases args with
    | nil => exact emits_fault
    | cons a _ =>
      simp only [intrinsic]
      split
      · exact emits_membership (ha a (by simp)) ht false c
      · exact emits_likeTest ht (ha a (by simp)) c
  | isNullOrEmpty => exact emits_isNullOrEmpty ht c
  | equals =>
    cases args with
    | nil => exact emits_fault
    | cons a _ =>
      have h : Lawful K False (binary st .equal target a) := lawful_binary ht (ha a (by simp))
      exact h.condition c
  | function | trim | aggregate => cases hi

/-- The methods that are values: functions of the grammar and aggregate functions. -/
theorem emits_valueIntrinsic {i : Intrinsic} {method : Text}
    (hname : Intrinsic.ofName? method = some i) (hi : i.isCondition = false)
    (ht : Lawful K False target)
    (hagg : i.isAggregate = true → Lawful K (target.expr.isHole = false) target) (c : Clause) :
    Emits L K.Value (intrinsic st target args c i) := by
  cases i with
  | like | membership | contains | isNullOrEmpty | equals => cases hi
  | function name =>
    exact (ht.value c).enclose fun _ _ _ h => K.call (function_of_ofName? hname) h
  | trim =>
    intro s t s' hs hy
    simp only [intrinsic, bind_pure_comp, yields_map] at hy
    obtain ⟨a, ha, rfl⟩ := hy
    obtain ⟨hs', hv⟩ := ht.value c s a s' hs ha
    exact ⟨hs', K.trim hv⟩
  | aggregate clause => exact emits_aggregate (hagg rfl)

theorem emits_calledValue {Q : Nat → Nat → Text → Prop} {e : Expr} {method : Text} {c : Clause}
    {constant : Value → Emit Text} (h : ∀ v, Emits L Q (constant v)) :
    Emits L Q (calledValue st e method c constant) := by
  unfold calledValue
  split
  · exact h _
  · exact emits_fail
  · exact emits_fault

/-- A call of a method that is a condition is compiled by its rule. -/
theorem yields_of_emitCall {receiver : Rendering} {method : Text} {i : Intrinsic}
    {type : Option Ty} {callee : Option Text} {c : Clause} {constant : Value → Emit Text}
    {s s' : Slate} {t : Text} (hi : Intrinsic.ofName? method = some i)
    (hcond : i.isCondition = true)
    (h : Yields (emitCall st receiver method args type callee c true constant) s t s') :
    Yields (intrinsic st (operands receiver args).1 (operands receiver args).2 c i) s t s' := by
  have haggregate : i.isAggregate = false := by
    cases i with
    | aggregate => cases hcond
    | _ => rfl
  have hrule : rule? receiver method = some i := by simp [rule?, hi, haggregate]
  simp only [emitCall, hrule, hcond, if_true] at h
  split at h
  · exact absurd h not_yields_fail
  · exact h

/-- A method without a receiver takes its first argument as one, which may be the raw argument of an
aggregate function. -/
theorem lawful_operands {receiver : Rendering} (hr : Lawful K False receiver)
    (ha : ∀ a ∈ args, Lawful K False a)
    (hraw : receiver.expr.isHole = true → raw → ∀ a ∈ args.head?, Lawful K True a) :
    Lawful K False (operands receiver args).1 ∧
      (∀ a ∈ (operands receiver args).2, Lawful K False a) ∧
      (receiver.expr.isHole = true → raw → Lawful K
        ((operands receiver args).1.expr.isHole = false) (operands receiver args).1) := by
  unfold operands
  cases hh : receiver.expr.isHole with
  | false => exact ⟨hr, ha, nofun⟩
  | true =>
    cases args with
    | nil => exact ⟨hr, nofun, fun _ _ => hr.mono (by simp [hh])⟩
    | cons a as =>
      exact ⟨ha a (by simp), fun a h => ha a (by simp [h]),
        fun _ h => (hraw hh h a rfl).mono fun _ => trivial⟩

theorem rule?_eq_some {receiver : Rendering} {method : Text} {i : Intrinsic}
    (h : rule? receiver method = some i) : Intrinsic.ofName? method = some i ∧
      (i.isAggregate = true → receiver.expr.isHole = true ∧
        Expr.isAggregateName method = true) := by
  have hall : ∀ x ∈ Intrinsic.table, x.2.isAggregate = true → Expr.isAggregateName x.1 = true := by
    decide
  unfold rule? at h
  split at h
  · rename_i j hj
    split at h
    · cases h
    · rename_i hstatic
      cases h
      refine ⟨hj, fun hagg => ⟨by simpa [hagg] using hstatic, ?_⟩⟩
      exact hall _ (AliasTable.mem_of_lookup hj) hagg
  · cases h

/-- A method has a rule, or is computed and emitted as a constant. -/
theorem lawful_call {receiver : Rendering} {method : Text} (hr : Lawful K False receiver)
    (ha : ∀ a ∈ args, Lawful K False a)
    (hraw : receiver.expr.isHole = true → Expr.isAggregateName method = true →
      ∀ a ∈ args.head?, Lawful K True a) (type : Option Ty) (callee : Option Text) :
    Lawful K raw (call st receiver method args type callee) := by
  obtain ⟨ht, hrest, hagg⟩ := lawful_operands hr ha hraw
  have conditions : ∀ c i, i.isCondition = true → Emits L (Optional K.Condition)
      (intrinsic st (operands receiver args).1 (operands receiver args).2 c i) :=
    fun c i hi => emits_conditionIntrinsic hi ht hrest c
  rw [call]
  refine lawful_scalar (fun c => ?_) (fun c => ?_) nofun
  · unfold emitCall
    simp only
    split
    · exact emits_calledValue emits_constantValue
    · rename_i i hi
      obtain ⟨hname, hstatic⟩ := rule?_eq_some hi
      split
      · exact emits_fail
      · split
        · rename_i hcond
          exact emits_valueIntrinsic hname hcond ht
            (fun h => hagg (hstatic h).1 (hstatic h).2) c
        · split
          · rename_i hcond
            exact emits_truthCase (conditions c i hcond)
          · exact emits_fail
  · unfold emitCall
    simp only
    split
    · exact emits_calledValue (emits_constantCondition · c)
    · split
      · exact emits_fail
      · split
        · rename_i hcond
          exact conditions c _ hcond
        · exact emits_fail

/-! ### Rows, shapes and lists

Lists keep a separator behind each item, so they can be appended without looking at them. -/

theorem emits_allColumns {p : Param} (hp : p.Named st L) :
    Emits L (ListText st L K.Value) (allColumns st p) := by
  intro s t s' hs hy
  simp only [allColumns, yields_bind, yields_row, yields_addField, yields_pure] at hy
  obtain ⟨⟨e, name⟩, s₁, ⟨he, hname, rfl⟩, _, s₂, rfl, rfl, rfl⟩ := hy
  simp only at he hname
  subst hname
  obtain ⟨ha, hs₁⟩ := hs.bind hp.1 fun hname => .inr ((hp.2 e he).1 hname)
  refine ⟨hs₁, .single ?_⟩
  split
  · exact .value (K.word (by decide))
  · exact .columns ha

theorem lawful_param {p : Param} (hp : p.Named st L) : Lawful K raw (param st p) :=
  { (lawful_unsupported (.param p) : Lawful K raw _) with
    argument := fun _ c => by
      simp only [param]
      split
      · exact emits_pure fun _ => .inl (K.word (by decide))
      · exact emits_fail
    projection := emits_allColumns hp }

theorem emits_concat {ms : List (Emit Text)} (h : ∀ m ∈ ms, Emits L (ListText st L K.Value) m) :
    Emits L (ListText st L K.Value) (concat ms) :=
  emits_append (fun _ => .nil) .append h

/-- The rendering of a binding is lawful and so is its name; a row among the bindings has permitted
names. -/
def LawfulBinding (K : TextKinds st L) (b : Text × Rendering) : Prop :=
  (b.1 = [] ∨ L.Label b.1) ∧ Lawful K False b.2 ∧ ∀ p, b.2.expr.unquote = .param p → p.Named st L

variable {bindings : List (Text × Rendering)}

/-- A row among the bindings stands for its columns. -/
theorem emits_memberItems (h : ∀ b ∈ bindings, LawfulBinding K b) :
    Emits L (ListText st L K.Value) (memberItems st bindings) := by
  refine emits_concat fun m hm => ?_
  obtain ⟨⟨name, e⟩, hb, rfl⟩ := List.mem_map.mp hm
  obtain ⟨hname, he, hparam⟩ := h _ hb
  simp only
  split
  · rename_i p hp
    exact emits_allColumns (hparam p hp)
  · exact emits_selectItem (he.value .select) hname

/-- The cells of a row are the bindings for columns that may be written. -/
theorem lawful_ofBindings {w : Column → Bool} {type : Option Ty}
    {bs : List (Text × Expr × Emit Text)} {r : Row}
    (hbs : ∀ b ∈ bs, Emits L K.Value b.2.2)
    (h : Row.ofBindings st w type bs = .ok r) : r.Lawful K w := by
  unfold Row.ofBindings at h
  obtain ⟨e, he, h⟩ := bind_eq_ok.mp h
  obtain ⟨cells, hcells, h⟩ := bind_eq_ok.mp h
  cases h
  have hall : ∀ cs ∈ cells, ∀ cell ∈ cs, (cell.column ∈ e.columns ∧ w cell.column = true) ∧
      cell.content.Lawful K := by
    refine of_mapM_eq_ok hcells ?_
    rintro ⟨name, expr, m⟩ hb cs hcs
    obtain ⟨c, hc, hcs⟩ := bind_eq_ok.mp hcs
    have hmem := Row.mem_of_columnOf hc
    split at hcs
    · cases hcs
      intro cell hcell
      split at hcell
      · rename_i hw
        obtain rfl := List.mem_singleton.mp hcell
        exact ⟨⟨hmem, hw⟩, hbs _ hb⟩
      · cases hcell
    · obtain ⟨v, -, hcs⟩ := bind_eq_ok.mp hcs
      cases hcs
      intro cell hcell
      obtain ⟨⟨x, hx, hcolumn⟩, hw, hcontent⟩ := Row.of_mem_cellsOf (L := L) hcell
      obtain rfl := List.mem_singleton.mp hx
      exact ⟨⟨hcolumn ▸ hmem, hw⟩, hcontent⟩
  have hcell : ∀ cell ∈ cells.flatten, (cell.column ∈ e.columns ∧ w cell.column = true) ∧
      cell.content.Lawful K := fun cell hcell => by
    obtain ⟨cs, hcs, hcell⟩ := List.mem_flatten.mp hcell
    exact hall cs hcs cell hcell
  exact ⟨⟨type, Row.entityOf_of_target he⟩, fun cell h => (hcell cell h).1,
    fun cell h => (hcell cell h).2⟩

theorem lawful_shapeRow (h : ∀ b ∈ bindings, LawfulBinding K b) {type : Option Ty} {c : Clause}
    {w : Column → Bool} {rows : List Row} (hrows : shapeRow st type bindings c w = .ok rows) :
    ∀ x ∈ rows, x.Lawful K w := by
  unfold shapeRow at hrows
  obtain ⟨r, hr, hrows⟩ := bind_eq_ok.mp hrows
  cases hrows
  intro x hx
  obtain rfl := List.mem_singleton.mp hx
  refine lawful_ofBindings (fun b hb => ?_) hr
  obtain ⟨⟨name, e⟩, hb', rfl⟩ := List.mem_map.mp hb
  exact (h _ hb').2.1.value c

theorem lawful_shape (h : ∀ b ∈ bindings, LawfulBinding K b) (whole : Expr)
    (type : Option Ty) : Lawful K raw (shape st whole type bindings) :=
  { (lawful_unsupported whole : Lawful K raw _) with
    projection := emits_memberItems h
    listing := fun c ds => by
      refine emits_listings (fun _ => .nil) .append (fun m hm ds => ?_) ds
      obtain ⟨b, hb, rfl⟩ := List.mem_map.mp hm
      exact (h b hb).2.1.listing c ds
    row := fun _ _ _ => lawful_shapeRow h
    rows := fun _ _ _ => lawful_shapeRow h }

/-- Values joined by commas. -/
def Joined (Q : Nat → Nat → Text → Prop) (n m : Nat) (t : Text) : Prop :=
  ∃ ts, ts ≠ [] ∧ Texts Q n m ts ∧ t = Text.join "," ts

theorem emits_foldl_join {ms : List (Emit Text)} (h : ∀ m ∈ ms, Emits L K.Value m)
    {first : Emit Text} (hfirst : Emits L (Joined K.Value) first) :
    Emits L (Joined K.Value) (ms.foldl (fun done m => Emit.join done "," m) first) := by
  induction ms generalizing first with
  | nil => exact hfirst
  | cons m ms ih =>
    refine ih (fun m hm => h m (by simp [hm])) (hfirst.join (h m (by simp)) ?_)
    rintro n k j _ b ⟨ts, hne, hts, rfl⟩ hb
    exact ⟨ts ++ [b], by simp, hts.append (.single hb), (Text.join_concat _ _ hne).symm⟩

variable {es : List Rendering}

/-- Members are joined by commas and put into parentheses. -/
theorem emits_memberList (h : ∀ e ∈ es, Lawful K False e) :
    Emits L K.Value (memberList es) := by
  intro s t s' hs hy
  simp only [memberList, yields_bind, yields_pending] at hy
  obtain ⟨pending, _, ⟨-, rfl⟩, hy⟩ := hy
  have item : ∀ e ∈ es, Emits L K.Value (do
      setPending pending
      e.value .in_) := by
    intro e he s t s' hs hy
    simp only [yields_bind, yields_setPending] at hy
    obtain ⟨_, _, rfl, hy⟩ := hy
    have hv := (h e he).value .in_ { s with pendingType := pending } t s' hs hy
    exact hv
  cases es with
  | nil =>
    obtain ⟨rfl, rfl⟩ := yields_pure.mp hy
    exact ⟨hs, value_nullList⟩
  | cons first rest =>
    simp only [yields_bind, yields_after, yields_setPending, yields_pure] at hy
    obtain ⟨a, s₁, ha, _, s₂, rfl, rfl, rfl⟩ := hy
    have items : ∀ m ∈ rest.map fun e => (do
        setPending pending
        e.value .in_ : Emit Text), Emits L K.Value m := by
      intro m hm
      obtain ⟨e, he, rfl⟩ := List.mem_map.mp hm
      exact item e (by simp [he])
    have start : Emits L (Joined K.Value) (do
        setPending pending
        first.value .in_) := (item first (by simp)).mono fun _ _ t ht =>
      ⟨[t], List.cons_ne_nil t [], .single ht, by simp [Text.join]⟩
    obtain ⟨hs₁, ts, hne, hts, rfl⟩ := emits_foldl_join items start _ a s₁ hs ha
    exact ⟨hs₁, K.tuple hts hne⟩

theorem lawful_items (h : ∀ e ∈ es, Lawful K False e) (whole : Expr) :
    Lawful K raw (items st whole es) :=
  { (lawful_unsupported whole : Lawful K raw _) with
    members := emits_memberList h
    projection := by
      refine emits_concat fun m hm => ?_
      obtain ⟨e, he, rfl⟩ := List.mem_map.mp hm
      exact (h e he).projection
    listing := fun c ds => by
      refine emits_listings (fun _ => .nil) .append (fun m hm ds => ?_) ds
      obtain ⟨e, he, rfl⟩ := List.mem_map.mp hm
      exact (h e he).listing c ds
    rows := fun c w rows hrows => by
      simp only [items] at hrows
      split at hrows
      · obtain ⟨rss, hrss, hrows⟩ := bind_eq_ok.mp hrows
        cases hrows
        have hall : ∀ rs ∈ rss, ∀ x ∈ rs, x.Lawful K w :=
          of_mapM_eq_ok hrss fun e he rs hrs => (h e he).row c w rs hrs
        intro x hx
        obtain ⟨rs, hrs, hx⟩ := List.mem_flatten.mp hx
        exact hall rs hrs x hx
      · exact absurd hrows noRows_ne_ok }

/-! ### Functions

A lambda and an invocation emit what their bodies emit. -/

theorem lawful_lambda (hl : Lawful K raw l) (ps : List Param) :
    Lawful K raw (lambda st l ps) :=
  { hl with
    row := fun _ w _ h => lawful_rowsOfValue (show rowsOfValue st (.lambda l.expr ps) w = _ from h)
    addends := fun m hm => by
      obtain rfl := List.mem_singleton.mp hm
      exact hl.value
    addends_ne := nofun }

/-- An invocation that cannot be inlined emits nothing. -/
theorem emits_emitInlined {α : Type} {Q : Nat → Nat → α → Prop}
    {body : Unit → Except Expr.InlineError Rendering} {f : Rendering → Emit α}
    (h : ∀ r, body () = .ok r → Emits L Q (f r)) : Emits L Q (emitInlined body f) := by
  unfold emitInlined
  split
  · rename_i r hr
    exact h r hr
  · exact emits_fail

theorem lawful_invocation {whole : Expr} {body : Unit → Except Expr.InlineError Rendering}
    (h : ∀ r, body () = .ok r → Lawful K raw r) :
    Lawful K raw (invocation st whole body) where
  value c := emits_emitInlined fun r hr => (h r hr).value c
  condition c := emits_emitInlined fun r hr => (h r hr).condition c
  members := emits_emitInlined fun r hr => (h r hr).members
  argument hraw c := emits_emitInlined fun r hr => (h r hr).argument hraw c
  projection := emits_emitInlined fun r hr => (h r hr).projection
  listing c ds := emits_emitInlined fun r hr => (h r hr).listing c ds
  row _ _ _ hrows := lawful_rowsOfValue hrows
  rows c w rows hrows := by
    simp only [invocation] at hrows
    split at hrows
    · rename_i r hr
      exact (h r hr).rows c w rows hrows
    · cases hrows
  addends m hm c := by
    obtain rfl := List.mem_singleton.mp hm
    exact emits_emitInlined fun r hr => (h r hr).value c
  addends_ne := nofun

end Rendering

namespace Expr

/-! ### Trees

The induction is on the tree, with a case for each construct. Inlined bodies are not parts of the
tree: they come with a hypothesis, and the second induction is on how deep inlining may go. -/

variable {inlined : Expr → Rendering} {rawOf named : Expr → Prop}

mutual

/-- A rendering carries the expression that it is for. -/
theorem renderWith_expr (st : Settings) (inlined : Expr → Rendering) :
    (e : Expr) → (renderWith st inlined e).expr = e
  | hole | const .. | param _ | member .. | new .. | init .. | list .. | array ..
  | invoke .. => by
    rw [renderWith]
    rfl
  | binary op l r => by
    rw [renderWith]
    show binary op _ _ = _
    rw [renderWith_expr st inlined l, renderWith_expr st inlined r]
  | unary op e t => by
    have ih := renderWith_expr st inlined e
    cases op <;> (rw [renderWith]; show unary _ _ _ = _; rw [ih])
    all_goals nofun
  | call e m args t f => by
    rw [renderWith]
    show call _ m ((renderAll st inlined args).map (·.expr)) t f = _
    rw [renderWith_expr st inlined e, renderAll_expr st inlined args]
  | lambda body ps => by
    rw [renderWith]
    show lambda _ ps = _
    rw [renderWith_expr st inlined body]
  | cond c a b => by
    rw [renderWith]
    show cond _ _ _ = _
    rw [renderWith_expr st inlined c, renderWith_expr st inlined a, renderWith_expr st inlined b]

theorem renderAll_expr (st : Settings) (inlined : Expr → Rendering) :
    (es : List Expr) → (renderAll st inlined es).map (·.expr) = es
  | [] => rfl
  | e :: es => by
    rw [renderAll, List.map_cons, renderWith_expr st inlined e, renderAll_expr st inlined es]

end

/-- The expressions that are rendered for an expression. -/
def parts : Expr → List Expr
  | hole | const .. | param _ | member .. => []
  | binary _ l r => [l, r]
  | unary _ e _ | lambda e _ => [e]
  | call e _ args _ _ => e :: args
  | new _ bs | init _ bs => bs.map (·.2)
  | list _ es | array _ es => es
  | invoke target args => (inline target args).toOption.toList
  | cond c a b => [c, a, b]

theorem mem_parts_invoke {target body : Expr} {args : List Expr}
    (h : inline target args = .ok body) : body ∈ (invoke target args).parts := by
  simp [parts, h, Except.toOption]

/-- The property is passed on to the parts of an expression, and where a negation has it, a minus
sign fits in front of what is negated, given that the names in it are permitted. -/
structure MinusFits (K : TextKinds st L) (inlined : Expr → Rendering) (rawOf named : Expr → Prop)
    (fits : Expr → Prop) : Prop where
  parts : ∀ {e y}, fits e → y ∈ e.parts → fits y
  minus : ∀ {x t}, NamedWith st L rawOf named x → fits (unary .negate x t) → x.isBinary = true ∨
    ∀ c, Rendering.TakesMinus K ((renderWith st inlined x).value c)

/-- A minus sign fits everywhere when it may stand in front of every text. -/
theorem minusFits_of_unsigned (hK : ∀ t, K.Unsigned t) :
    MinusFits K inlined rawOf named fun _ => True :=
  ⟨fun _ _ => trivial, fun _ _ => .inr fun _ _ t _ _ _ => hK t⟩

theorem MinusFits.takesMinus {fits : Expr → Prop} (hfits : MinusFits K inlined rawOf named fits)
    {x : Expr} {t : Option Ty} (hx : NamedWith st L rawOf named x) (h : fits (unary .negate x t))
    (c : Clause) : Rendering.TakesMinus K
      (grouped x.isBinary ((renderWith st inlined x).value c)) := by
  rcases hfits.minus hx h with hx | hx
  · rw [hx]
    exact Rendering.takesMinus_parens _
  · cases hb : x.isBinary with
    | true => exact Rendering.takesMinus_parens _
    | false => exact hx c

theorem NamedWith.unquote {e : Expr} (h : NamedWith st L rawOf named e) :
    NamedWith st L rawOf named e.unquote := by
  fun_induction Expr.unquote e with
  | case1 e t ih => exact ih h
  | case2 => exact h

mutual

/-- One case per construct: the rendering of an expression is lawful when the renderings of inlined
bodies are. -/
theorem lawful_renderWith {fits : Expr → Prop}
    (hfits : MinusFits K inlined (RawArgumentWith L rawOf) named fits)
    (hin : ∀ e, named e → fits e → (inlined e).Lawful K (rawOf e)) :
    (e : Expr) → NamedWith st L (RawArgumentWith L rawOf) named e → fits e →
      (renderWith st inlined e).Lawful K (RawArgumentWith L rawOf e)
  | hole, _, _ => by
    rw [renderWith]
    exact Rendering.lawful_unsupported hole
  | const v t, _, _ => by
    rw [renderWith]
    exact Rendering.lawful_constant v t
  | param p, h, _ => by
    rw [renderWith]
    exact Rendering.lawful_param h
  | member e n t o, h, _ => by
    rw [renderWith]
    exact Rendering.lawful_member h
  | binary op l r, h, hf => by
    rw [renderWith]
    exact Rendering.lawful_binary
      (lawful_renderWith hfits hin l h.1 (hfits.parts hf (by simp [parts])))
      (lawful_renderWith hfits hin r h.2 (hfits.parts hf (by simp [parts])))
  | unary op e t, h, hf => by
    have ih := lawful_renderWith hfits hin e h (hfits.parts hf (by simp [parts]))
    cases op with
    | quote =>
      rw [renderWith]
      exact Rendering.lawful_quoted ih t
    | negate =>
      rw [renderWith]
      · refine Rendering.lawful_unary ih (fun _ c => ?_) t
        rw [renderWith_expr]
        exact hfits.takesMinus (x := e) h hf c
      · nofun
    | _ =>
      rw [renderWith]
      · exact Rendering.lawful_unary ih (fun hop => by cases hop) t
      · nofun
  | call e m args t f, h, hf => by
    rw [renderWith]
    have hargs : ∀ y ∈ args, fits y := fun y hy => hfits.parts hf (by simp [parts, hy])
    refine Rendering.lawful_call
      ((lawful_renderWith hfits hin e h.1 (hfits.parts hf (by simp [parts]))).mono nofun)
      (fun a ha => lawful_renderAll hfits hin args h.2.1 hargs a ha) (fun hhole hagg a ha => ?_) t f
    rw [renderWith_expr] at hhole
    cases args with
    | nil => cases ha
    | cons x xs =>
      cases ha
      exact (lawful_renderWith hfits hin x h.2.1.1 (hargs x (by simp))).mono
        fun _ => h.2.2 hhole hagg x rfl
  | new t bs, h, hf => by
    rw [renderWith]
    exact Rendering.lawful_shape (lawful_renderBindings hfits hin bs h
      fun b hb => hfits.parts hf (List.mem_map_of_mem hb)) _ t
  | init t bs, h, hf => by
    rw [renderWith]
    exact Rendering.lawful_shape (lawful_renderBindings hfits hin bs h
      fun b hb => hfits.parts hf (List.mem_map_of_mem hb)) _ t
  | list t es, h, hf => by
    rw [renderWith]
    exact Rendering.lawful_items
      (lawful_renderAll hfits hin es h fun y hy => hfits.parts hf hy) _
  | array t es, h, hf => by
    rw [renderWith]
    exact Rendering.lawful_items
      (lawful_renderAll hfits hin es h fun y hy => hfits.parts hf hy) _
  | lambda body ps, h, hf => by
    rw [renderWith]
    exact Rendering.lawful_lambda
      (lawful_renderWith hfits hin body h (hfits.parts hf (by simp [parts]))) ps
  | invoke target args, h, hf => by
    rw [renderWith]
    have hbody : ∀ r, (inline target args).map inlined = .ok r →
        r.Lawful K (RawArgumentWith L rawOf (invoke target args)) := by
      intro r hr
      cases hi : inline target args with
      | error e =>
        rw [hi] at hr
        cases hr
      | ok body =>
        rw [hi] at hr
        cases hr
        exact (hin body (h body hi) (hfits.parts hf (mem_parts_invoke hi))).mono
          fun hraw => hraw body hi
    exact Rendering.lawful_invocation hbody
  | cond c a b, h, hf => by
    rw [renderWith]
    exact Rendering.lawful_cond
      (lawful_renderWith hfits hin c h.1 (hfits.parts hf (by simp [parts])))
      (lawful_renderWith hfits hin a h.2.1 (hfits.parts hf (by simp [parts])))
      (lawful_renderWith hfits hin b h.2.2 (hfits.parts hf (by simp [parts])))

theorem lawful_renderAll {fits : Expr → Prop}
    (hfits : MinusFits K inlined (RawArgumentWith L rawOf) named fits)
    (hin : ∀ e, named e → fits e → (inlined e).Lawful K (rawOf e)) :
    (es : List Expr) → NamedAll st L (RawArgumentWith L rawOf) named es → (∀ y ∈ es, fits y) →
      ∀ r ∈ renderAll st inlined es, r.Lawful K False
  | [], _, _ => nofun
  | e :: es, h, hf => by
    intro r hr
    rw [renderAll] at hr
    rcases List.mem_cons.mp hr with rfl | hr
    · exact (lawful_renderWith hfits hin e h.1 (hf e (by simp))).mono nofun
    · exact lawful_renderAll hfits hin es h.2 (fun y hy => hf y (by simp [hy])) r hr

theorem lawful_renderBindings {fits : Expr → Prop}
    (hfits : MinusFits K inlined (RawArgumentWith L rawOf) named fits)
    (hin : ∀ e, named e → fits e → (inlined e).Lawful K (rawOf e)) :
    (bs : List (Text × Expr)) → NamedBindings st L (RawArgumentWith L rawOf) named bs →
      (∀ b ∈ bs, fits b.2) → ∀ b ∈ renderBindings st inlined bs, Rendering.LawfulBinding K b
  | [], _, _ => nofun
  | (name, e) :: bs, h, hf => by
    intro b hb
    rw [renderBindings] at hb
    rcases List.mem_cons.mp hb with rfl | hb
    · refine ⟨h.1, (lawful_renderWith hfits hin e h.2.1 (hf (name, e) (by simp))).mono nofun,
        fun p hp => ?_⟩
      rw [renderWith_expr] at hp
      have hnamed := NamedWith.unquote h.2.1
      rw [hp] at hnamed
      exact hnamed
    · exact lawful_renderBindings hfits hin bs h.2.2 (fun b hb => hf b (by simp [hb])) b hb

end

/-- **The renderings of expressions are lawful where minus signs fit**, by induction on how deeply
inlined bodies nest. -/
theorem lawfulOf_renderTo {fits : Expr → Prop}
    (hfits : ∀ depth, MinusFits K (renderTo st depth) (RawArgumentTo L (depth + 1))
      (NamedTo st L depth) fits) :
    (depth : Nat) → (e : Expr) → NamedTo st L depth e → fits e →
      (renderTo st depth e).Lawful K (RawArgumentTo L depth e)
  | 0, _, _, _ => Rendering.lawful_unsupported hole
  | depth + 1, e, h, hf => by
    have hin : ∀ e, NamedTo st L depth e → fits e →
        (renderTo st depth e).Lawful K (RawArgumentTo L depth e) := lawfulOf_renderTo hfits depth
    exact lawful_renderWith (hfits depth) hin e h hf

/-- In the grammar a minus sign fits everywhere. -/
theorem minusFits_grammar : MinusFits (grammar st L) inlined rawOf named fun _ => True :=
  minusFits_of_unsigned fun _ => trivial

theorem grammatical_renderWith (hin : ∀ e, named e → (inlined e).Lawful (grammar st L) (rawOf e))
    (e : Expr) (h : NamedWith st L (RawArgumentWith L rawOf) named e) :
    (renderWith st inlined e).Lawful (grammar st L) (RawArgumentWith L rawOf e) :=
  lawful_renderWith minusFits_grammar (fun e he _ => hin e he) e h trivial

theorem grammatical_renderAll (hin : ∀ e, named e → (inlined e).Lawful (grammar st L) (rawOf e))
    (es : List Expr) (h : NamedAll st L (RawArgumentWith L rawOf) named es) :
    ∀ r ∈ renderAll st inlined es, r.Lawful (grammar st L) False :=
  lawful_renderAll minusFits_grammar (fun e he _ => hin e he) es h fun _ _ => trivial

theorem grammatical_renderBindings
    (hin : ∀ e, named e → (inlined e).Lawful (grammar st L) (rawOf e)) (bs : List (Text × Expr))
    (h : NamedBindings st L (RawArgumentWith L rawOf) named bs) :
    ∀ b ∈ renderBindings st inlined bs, Rendering.LawfulBinding (grammar st L) b :=
  lawful_renderBindings minusFits_grammar (fun e he _ => hin e he) bs h
    fun _ _ => trivial

theorem lawful_renderTo (depth : Nat) (e : Expr) (h : NamedTo st L depth e) :
    (renderTo st depth e).Lawful (grammar st L) (RawArgumentTo L depth e) :=
  lawfulOf_renderTo (fun _ => minusFits_grammar) depth e h trivial

theorem lawful_render {e : Expr} (h : e.Named st L) :
    (e.render st).Lawful (grammar st L) (RawArgumentTo L inlineDepth e) :=
  lawful_renderTo inlineDepth e h

theorem render_expr (st : Settings) (e : Expr) : (e.render st).expr = e :=
  renderWith_expr st _ e

/-! ### Operators and calls as conditions

The condition of an expression in terms of the renderings of its parts. -/

variable {c : Clause}

/-- An operator as a condition, unless it is folded. -/
theorem condition_binary (op : BinaryOp) (l r : Expr) : ((binary op l r).render st).condition c =
    folding st (binary op l r) (constantCondition · c)
      (Rendering.binaryCondition op (l.render st) (r.render st) c) := by
  have hrender : ((binary op l r).render st).condition c =
      folding st (binary op (l.render st).expr (r.render st).expr) (constantCondition · c)
        (Rendering.binaryCondition op (l.render st) (r.render st) c) := rfl
  rw [hrender, render_expr, render_expr]

theorem renderAll_eq_map (st : Settings) (inlined : Expr → Rendering) (es : List Expr) :
    renderAll st inlined es = es.map (renderWith st inlined) := by
  induction es with
  | nil => rfl
  | cons e es ih => rw [renderAll, List.map_cons, ih]

theorem renderBindings_eq_map (st : Settings) (inlined : Expr → Rendering)
    (bs : List (Text × Expr)) :
    renderBindings st inlined bs = bs.map fun b => (b.1, renderWith st inlined b.2) := by
  induction bs with
  | nil => rfl
  | cons b bs ih => rw [renderBindings, List.map_cons, ih]

/-- A call as a condition, unless it is folded. -/
theorem condition_call (receiver : Expr) (method : Text) (args : List Expr) (type : Option Ty)
    (callee : Option Text) : ((call receiver method args type callee).render st).condition c =
      folding st (call receiver method args type callee) (constantCondition · c)
        (Rendering.emitCall st (receiver.render st) method (args.map (render st)) type callee c true
          (constantCondition · c)) := by
  have hrender : (call receiver method args type callee).render st =
      Rendering.call st (receiver.render st) method (args.map (render st)) type callee := by
    show renderWith st (renderTo st 9999) (call receiver method args type callee) = _
    rw [renderWith, renderAll_eq_map]
    rfl
  have hargs : (args.map (render st)).map (·.expr) = args := by
    simp only [List.map_map, Function.comp_def, render_expr, List.map_id']
  rw [hrender, Rendering.call, render_expr, hargs]
  rfl

/-- The arguments of a call beside its target. -/
def besideTarget (receiver : Expr) (args : List Expr) : List Expr :=
  if receiver.isHole then args.tail else args

theorem operands_render (st : Settings) (receiver : Expr) (args : List Expr) :
    (Rendering.operands (receiver.render st) (args.map (render st))).2 =
      (besideTarget receiver args).map (render st) := by
  unfold Rendering.operands besideTarget
  rw [render_expr]
  cases receiver.isHole with
  | false => rfl
  | true => cases args <;> rfl

end Expr

end QueryTree
