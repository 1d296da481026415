import QueryTree.Proofs.Mirrored
import QueryTree.Sample.Conditions

/-!
# Inlining a row

A lambda with one parameter that is invoked with a row is compiled by putting the row in the place
of the parameter. That is the same as compiling the body of the lambda with the parameter bound to
the alias of the row: both ways take the same steps, and wherever one looks up the row the other
looks up the parameter, under the same alias.

Inlining does not know that a lambda in the body hides the parameter it declares. If such a lambda
declares the parameter or the row, what is put into its body is taken for its own parameter when it
is invoked in turn. It also rebuilds what it changes, so a member must have the type that its row
gives it. And an error that names the parameter it depends on names the row instead.

## Main definitions

* `Expr.Inlinable`: what inlining a row for a parameter asks of a body
* `Expr.InlinesWithin`: how deeply the bodies that are inlined in an expression nest
* `Simulation.bound`: states that differ in the parameter that is bound as well
* `Draft.Alike`: the outcomes of two compilations

## Main results

* `Expr.inline_row`: the inlined body is the body renamed
* `Draft.compile_invoke`: inlining equals binding
* `exists_invoke_unlike_bound`: what `Expr.Inlinable` leaves out
-/

namespace QueryTree

open Emit

variable {x p : Param} {e body : Expr}

namespace Expr

/-! ### Parts of an expression -/

mutual

/-- What is below a part of an expression is below the expression. -/
theorem walk_trans {y z : Expr} (hz : z ∈ y.walk) : (e : Expr) → y ∈ e.walk → z ∈ e.walk
  | hole, h => by cases h
  | const .., h | param _, h => by
    obtain rfl := List.mem_singleton.mp h
    exact hz
  | member e .., h | unary _ e _, h => by
    rcases List.mem_cons.mp h with rfl | h
    · exact hz
    · exact List.mem_cons_of_mem _ (walk_trans hz e h)
  | lambda e ps, h => by
    rcases List.mem_cons.mp h with rfl | h
    · exact hz
    refine List.mem_cons_of_mem _ (List.mem_append.mpr ?_)
    rcases List.mem_append.mp h with h | h
    · obtain ⟨q, hq, rfl⟩ := List.mem_map.mp h
      obtain rfl := List.mem_singleton.mp hz
      exact .inl h
    · exact .inr (walk_trans hz e h)
  | binary _ l r, h => by
    rcases List.mem_cons.mp h with rfl | h
    · exact hz
    · exact List.mem_cons_of_mem _ (List.mem_append.mpr
        ((List.mem_append.mp h).imp (walk_trans hz l) (walk_trans hz r)))
  | call e _ args _ _, h | invoke e args, h => by
    rcases List.mem_cons.mp h with rfl | h
    · exact hz
    · exact List.mem_cons_of_mem _ (List.mem_append.mpr
        ((List.mem_append.mp h).imp (walk_trans hz e) (walkAll_trans hz args)))
  | new _ bs, h | init _ bs, h => by
    rcases List.mem_cons.mp h with rfl | h
    · exact hz
    · exact List.mem_cons_of_mem _ (walkBindings_trans hz bs h)
  | list _ es, h | array _ es, h => by
    rcases List.mem_cons.mp h with rfl | h
    · exact hz
    · exact List.mem_cons_of_mem _ (walkAll_trans hz es h)
  | cond c a b, h => by
    rcases List.mem_cons.mp h with rfl | h
    · exact hz
    refine List.mem_cons_of_mem _ (List.mem_append.mpr ?_)
    refine (List.mem_append.mp h).imp (fun h => List.mem_append.mpr ?_) (walk_trans hz b)
    exact (List.mem_append.mp h).imp (walk_trans hz c) (walk_trans hz a)

theorem walkAll_trans {y z : Expr} (hz : z ∈ y.walk) : (es : List Expr) →
    y ∈ walkAll es → z ∈ walkAll es
  | [], h => by cases h
  | e :: es, h => List.mem_append.mpr
      ((List.mem_append.mp h).imp (walk_trans hz e) (walkAll_trans hz es))

theorem walkBindings_trans {y z : Expr} (hz : z ∈ y.walk) : (bs : List (Text × Expr)) →
    y ∈ walkBindings bs → z ∈ walkBindings bs
  | [], h => by cases h
  | (_, e) :: bs, h => List.mem_append.mpr
      ((List.mem_append.mp h).imp (walk_trans hz e) (walkBindings_trans hz bs))

end

/-! ### Rows that can be inlined -/

/-- What inlining `p` for `x` asks of a part of a body: no parameter but `x` and `p` looks like one
of them, no lambda declares them, members have the types that their rows give them, and no branch of
a conditional is missing. -/
def InlinableAt (x p : Param) : Expr → Prop
  | param q => q.Matches x ∨ q.Matches p → q = x ∨ q = p
  | lambda _ ps => x ≠ p → x ∉ ps ∧ p ∉ ps
  | member e name t owner => rebuildMember e name t owner = member e name t owner
  | cond _ a b => a.isHole = false ∧ b.isHole = false
  | _ => True

/-- What inlining `p` for `x` asks of a body. -/
def Inlinable (x p : Param) (e : Expr) : Prop := ∀ y ∈ e.walk, InlinableAt x p y

namespace Inlinable

/-- The row takes the place of the parameter. -/
def toRenaming (h : Inlinable x p e) (ht : p.type = x.type) : Renaming where
  apply q := if q = x then p else q
  Occurs q := param q ∈ e.walk
  type_apply q := by
    split
    · rename_i hq
      rw [hq, ht]
    · rfl
  unique {q q'} hq hq' hid := by
    obtain rfl : q = x := by
      by_contra hne
      exact hq (if_neg hne)
    rw [if_pos rfl] at hid ⊢
    exact h _ hq' (hid.imp .inl .inl)

theorem apply_toRenaming (h : Inlinable x p e) (ht : p.type = x.type) (q : Param) :
    (h.toRenaming ht).apply q = if q = x then p else q := rfl

theorem admits_toRenaming (h : Inlinable x p e) (ht : p.type = x.type) :
    (h.toRenaming ht).Admits e := by
  intro y hy
  cases y with
  | param q => exact hy
  | lambda b ps =>
    intro q hq z hz
    have hzx : z = x := by
      by_contra hne
      exact hz (if_neg hne)
    subst hzx
    rw [apply_toRenaming, if_pos rfl] at hz ⊢
    obtain ⟨hx, hp⟩ := h _ hy (Ne.symm hz)
    have hq' : param q ∈ e.walk := walk_trans (by simp [walk, hq]) e hy
    have hapart : ¬ (q.Matches z ∨ q.Matches p) := fun hm =>
      (h _ hq' hm).elim (fun heq => hx (heq ▸ hq)) (fun heq => hp (heq ▸ hq))
    exact not_or.mp hapart
  | _ => trivial

end Inlinable

/-! ### The inlined body -/

/-- A part that is replaced by `new`, and counted as changed unless that is the old one. -/
structure Replaced.Becomes {α : Type} (x : Replaced α) (old new : α) : Prop where
  result : x.result = new
  unchanged : x.changed = false → new = old

theorem Replaced.Becomes.and {α β : Type} {x : Replaced α} {y : Replaced β} {a a' : α} {b b' : β}
    (hx : x.Becomes a a') (hy : y.Becomes b b') : (x.and y).Becomes (a, b) (a', b') where
  result := by rw [Replaced.and, hx.result, hy.result]
  unchanged h := by
    rw [Replaced.and, Bool.or_eq_false_iff] at h
    rw [hx.unchanged h.1, hy.unchanged h.2]

theorem askFirst_becomes {α : Type} {rule : Expr → Option Expr} {operands : Unit → Replaced α}
    {rebuild : α → Expr} {e' : Expr} {a a' : α} (hn : rule e = none)
    (ho : (operands ()).Becomes a a') (hb : rebuild a' = e') (he : a' = a → e' = e) :
    (askFirst rule e operands rebuild).Becomes e e' := by
  rw [askFirst, hn]
  constructor
  · show (if _ then _ else _) = e'
    cases h : (operands ()).changed with
    | true => rw [if_pos rfl, ho.result, hb]
    | false => rw [if_neg Bool.false_ne_true, he (ho.unchanged h)]
  · exact fun h => he (ho.unchanged h)

theorem orNull_of_isHole {e : Expr} (h : e.isHole = false) : e.orNull = e := by
  rw [orNull, if_neg (by simp [h])]

/-- The parameter of the lambda is replaced, and so is every other that looks like it. -/
theorem substitution_row (x p q : Param) :
    x.Matches q ∧ substitution [x] [param p] q = some (param p) ∨
      ¬ x.Matches q ∧ substitution [x] [param p] q = none := by
  rw [substitution_eq, Param.Matches]
  by_cases hid : x.id = q.id
  · simp [hid]
  · by_cases hname : x.name = q.name <;> by_cases htype : x.type = q.type <;>
      simp [hid, hname, htype]

/-- What replaces `x` by `p`. -/
def rowRule (x p : Param) (e : Expr) : Option Expr :=
  match e with
  | param q => substitution [x] [param p] q
  | _ => none

variable {r : Renaming}

/-- The parameter is replaced, and no other is: one that looks like it is the row itself. -/
theorem replace_row_param (hr : ∀ q, r.apply q = if q = x then p else q)
    (hid : p.id = x.id → p = x) {q : Param} (h : Inlinable x p (param q)) :
    (replace (rowRule x p) (param q)).Becomes (param q) ((param q).rename r) := by
  have hq := h _ (List.mem_singleton_self _)
  rw [rename, hr, replace, rowRule]
  rcases substitution_row x p q with ⟨hm, hs⟩ | ⟨hm, hs⟩
  · rw [hs]
    have hq := hq (.inl (hm.imp Eq.symm fun hm => ⟨hm.1.symm, hm.2.symm⟩))
    by_cases hqx : q = x
    · rw [if_pos hqx]
      refine ⟨rfl, fun hsame => ?_⟩
      have hpq : p.id = q.id := by simpa using hsame
      rw [hid (hqx ▸ hpq), hqx]
    · rw [if_neg hqx, hq.resolve_left hqx]
      exact ⟨rfl, fun _ => rfl⟩
  · rw [hs]
    have hne : q ≠ x := by
      rintro rfl
      exact hm (.inl rfl)
    exact ⟨by rw [if_neg hne], fun _ => by rw [if_neg hne]⟩

mutual

/-- Inlining a row renames the body. -/
theorem replace_row (hr : ∀ q, r.apply q = if q = x then p else q) (hid : p.id = x.id → p = x) :
    (e : Expr) → Inlinable x p e → (replace (rowRule x p) e).Becomes e (e.rename r)
  | hole, _ => ⟨by simp only [rename, replace], fun _ => by simp only [rename]⟩
  | const v t, _ =>
    have hnone : Replaced.Becomes ⟨(), false, 0⟩ () () := ⟨rfl, fun _ => rfl⟩
    askFirst_becomes rfl hnone (by simp only [rename]) fun _ => by simp only [rename]
  | param q, h => replace_row_param hr hid h
  | member e n t o, h => by
    have he := replace_row hr hid e fun y hy => h y (by simp [walk, hy])
    refine askFirst_becomes rfl he ?_ fun hsame => by rw [rename, hsame]
    have hbuilt : rebuildMember e n t o = member e n t o := h _ List.mem_cons_self
    rw [rebuildMember_rename, hbuilt]
  | binary op l l', h => by
    have hl := replace_row hr hid l fun y hy => h y (by simp [walk, hy])
    have hl' := replace_row hr hid l' fun y hy => h y (by simp [walk, hy])
    refine askFirst_becomes rfl (hl.and hl') (by rw [rename]) fun hsame => ?_
    rw [rename, (Prod.mk.inj hsame).1, (Prod.mk.inj hsame).2]
  | unary op e t, h => by
    have he := replace_row hr hid e fun y hy => h y (by simp [walk, hy])
    exact askFirst_becomes rfl he (by rw [rename]) fun hsame => by rw [rename, hsame]
  | call e m args t f, h => by
    have he := replace_row hr hid e fun y hy => h y (by simp [walk, hy])
    have hargs := replaceAll_row hr hid args fun y hy => h y (by simp [walk, hy])
    refine askFirst_becomes rfl (he.and hargs) (by rw [rename]) fun hsame => ?_
    rw [rename, (Prod.mk.inj hsame).1, (Prod.mk.inj hsame).2]
  | new t bs, h => by
    have hbs := replaceBindings_row hr hid bs fun y hy => h y (by simp [walk, hy])
    exact askFirst_becomes rfl hbs (by rw [rename]) fun hsame => by rw [rename, hsame]
  | init t bs, h => by
    have hbs := replaceBindings_row hr hid bs fun y hy => h y (by simp [walk, hy])
    exact askFirst_becomes rfl hbs (by rw [rename]) fun hsame => by rw [rename, hsame]
  | list t es, h => by
    have hes := replaceAll_row hr hid es fun y hy => h y (by simp [walk, hy])
    exact askFirst_becomes rfl hes (by rw [rename]) fun hsame => by rw [rename, hsame]
  | array t es, h => by
    have hes := replaceAll_row hr hid es fun y hy => h y (by simp [walk, hy])
    exact askFirst_becomes rfl hes (by rw [rename]) fun hsame => by rw [rename, hsame]
  | lambda b ps, h => by
    have hb := replace_row hr hid b fun y hy => h y (by simp [walk, hy])
    exact askFirst_becomes rfl hb (by rw [rename]) fun hsame => by rw [rename, hsame]
  | invoke e args, h => by
    have he := replace_row hr hid e fun y hy => h y (by simp [walk, hy])
    have hargs := replaceAll_row hr hid args fun y hy => h y (by simp [walk, hy])
    refine askFirst_becomes rfl (he.and hargs) (by rw [rename]) fun hsame => ?_
    rw [rename, (Prod.mk.inj hsame).1, (Prod.mk.inj hsame).2]
  | cond c a b, h => by
    have hc := replace_row hr hid c fun y hy => h y (by simp [walk, hy])
    have ha := replace_row hr hid a fun y hy => h y (by simp [walk, hy])
    have hb := replace_row hr hid b fun y hy => h y (by simp [walk, hy])
    obtain ⟨haHole, hbHole⟩ : a.isHole = false ∧ b.isHole = false := h _ List.mem_cons_self
    refine askFirst_becomes rfl (hc.and (ha.and hb)) ?_ fun hsame => ?_
    · have ha' : (a.rename r).orNull = a.rename r := orNull_of_isHole (isHole_rename a ▸ haHole)
      have hb' : (b.rename r).orNull = b.rename r := orNull_of_isHole (isHole_rename b ▸ hbHole)
      show condOf _ _ _ = _
      rw [rename, condOf, ha', hb']
    · obtain ⟨hc', hab⟩ := Prod.mk.inj hsame
      rw [rename, hc', (Prod.mk.inj hab).1, (Prod.mk.inj hab).2]

theorem replaceAll_row (hr : ∀ q, r.apply q = if q = x then p else q) (hid : p.id = x.id → p = x) :
    (es : List Expr) → (∀ y ∈ walkAll es, InlinableAt x p y) →
      (replaceAll (rowRule x p) es).Becomes es (renameAll r es)
  | [], _ => ⟨by simp only [replaceAll, renameAll], fun _ => by simp only [renameAll]⟩
  | e :: es, h => by
    have he := replace_row hr hid e fun y hy => h y (by simp [walkAll, hy])
    have hes := replaceAll_row hr hid es fun y hy => h y (by simp [walkAll, hy])
    rw [replaceAll, renameAll]
    refine ⟨?_, fun hsame => ?_⟩
    · rw [(he.and hes).result]
    · obtain ⟨he', hes'⟩ := Prod.mk.inj ((he.and hes).unchanged hsame)
      rw [he', hes']

theorem replaceBindings_row (hr : ∀ q, r.apply q = if q = x then p else q)
    (hid : p.id = x.id → p = x) : (bs : List (Text × Expr)) →
      (∀ y ∈ walkBindings bs, InlinableAt x p y) →
      (replaceBindings (rowRule x p) bs).Becomes bs (renameBindings r bs)
  | [], _ =>
    ⟨by simp only [replaceBindings, renameBindings], fun _ => by simp only [renameBindings]⟩
  | (name, e) :: bs, h => by
    have he := replace_row hr hid e fun y hy => h y (by simp [walkBindings, hy])
    have hbs := replaceBindings_row hr hid bs fun y hy => h y (by simp [walkBindings, hy])
    rw [replaceBindings, renameBindings]
    refine ⟨?_, fun hsame => ?_⟩
    · rw [(he.and hbs).result]
    · obtain ⟨he', hbs'⟩ := Prod.mk.inj ((he.and hbs).unchanged hsame)
      rw [he', hbs']

end

/-- **A lambda that is invoked with a row is inlined to its body, renamed.** -/
theorem inline_row (h : Inlinable x p e) (ht : p.type = x.type) (hid : p.id = x.id → p = x) :
    inline (lambda e [x]) [param p] = .ok (e.rename (h.toRenaming ht)) :=
  congrArg Except.ok (replace_row (h.apply_toRenaming ht) hid e h).result

/-! ### How deeply inlined bodies nest -/

/-- The bodies that are inlined in the expression nest at most `n` deep. -/
def InlinesWithin : (n : Nat) → Expr → Prop
  | 0, e => ∀ target args b, invoke target args ∈ e.walk → inline target args ≠ .ok b
  | n + 1, e => ∀ target args b, invoke target args ∈ e.walk → inline target args = .ok b →
      InlinesWithin n b

theorem inlinesWithin_of_forall (h : ∀ target args, invoke target args ∉ e.walk) :
    (n : Nat) → InlinesWithin n e
  | 0 => fun target args _ hmem => absurd hmem (h target args)
  | _ + 1 => fun target args _ hmem => absurd hmem (h target args)

section

variable {st : Settings} {f g : Expr → Rendering}

mutual

/-- A rendering depends on those of the bodies that are inlined. -/
theorem renderWith_congr : (e : Expr) →
    (∀ target args b, invoke target args ∈ e.walk → inline target args = .ok b → f b = g b) →
    e.renderWith st f = e.renderWith st g
  | hole, _ | const .., _ | param _, _ | member .., _ => by simp only [renderWith]
  | binary op l l', h => by
    rw [renderWith, renderWith, renderWith_congr l fun t as b hm => h t as b (by simp [walk, hm]),
      renderWith_congr l' fun t as b hm => h t as b (by simp [walk, hm])]
  | unary op e t, h => by
    have he := renderWith_congr e fun t as b hm => h t as b (by simp [walk, hm])
    cases op <;> simp only [renderWith, he]
  | call e m args t callee, h => by
    rw [renderWith, renderWith, renderWith_congr e fun t as b hm => h t as b (by simp [walk, hm]),
      renderAll_congr args fun t as b hm => h t as b (by simp [walk, hm])]
  | new t bs, h | init t bs, h => by
    rw [renderWith, renderWith,
      renderBindings_congr bs fun t as b hm => h t as b (by simp [walk, hm])]
  | list t es, h | array t es, h => by
    rw [renderWith, renderWith, renderAll_congr es fun t as b hm => h t as b (by simp [walk, hm])]
  | lambda b ps, h => by
    rw [renderWith, renderWith, renderWith_congr b fun t as b hm => h t as b (by simp [walk, hm])]
  | invoke e args, h => by
    have hbody : (inline e args).map f = (inline e args).map g := by
      cases hb : inline e args with
      | error => rfl
      | ok b => exact congrArg Except.ok (h e args b (by simp [walk]) hb)
    rw [renderWith, renderWith, hbody]
  | cond c a b, h => by
    rw [renderWith, renderWith, renderWith_congr c fun t as b hm => h t as b (by simp [walk, hm]),
      renderWith_congr a fun t as b hm => h t as b (by simp [walk, hm]),
      renderWith_congr b fun t as b hm => h t as b (by simp [walk, hm])]

theorem renderAll_congr : (es : List Expr) →
    (∀ target args b, invoke target args ∈ walkAll es → inline target args = .ok b → f b = g b) →
    renderAll st f es = renderAll st g es
  | [], _ => by simp only [renderAll]
  | e :: es, h => by
    rw [renderAll, renderAll, renderWith_congr e fun t as b hm => h t as b (by simp [walkAll, hm]),
      renderAll_congr es fun t as b hm => h t as b (by simp [walkAll, hm])]

theorem renderBindings_congr : (bs : List (Text × Expr)) →
    (∀ target args b, invoke target args ∈ walkBindings bs → inline target args = .ok b →
      f b = g b) → renderBindings st f bs = renderBindings st g bs
  | [], _ => by simp only [renderBindings]
  | (name, e) :: bs, h => by
    rw [renderBindings, renderBindings,
      renderWith_congr e fun t as b hm => h t as b (by simp [walkBindings, hm]),
      renderBindings_congr bs fun t as b hm => h t as b (by simp [walkBindings, hm])]

end

/-- One more inlining than there are nested ones changes nothing. -/
theorem renderTo_of_inlinesWithin {n m : Nat} (h : InlinesWithin n e) (hm : n < m) :
    e.renderTo st m = e.renderTo st (m + 1) := by
  induction n generalizing e m with
  | zero =>
    obtain ⟨m, rfl⟩ := Nat.exists_eq_add_of_lt hm
    rw [renderTo, renderTo]
    exact renderWith_congr e fun target args b hmem hb => absurd hb (h target args b hmem)
  | succ n ih =>
    obtain ⟨m, rfl⟩ : ∃ k, m = k + 1 := ⟨m - 1, by omega⟩
    rw [renderTo, renderTo]
    exact renderWith_congr e fun target args b hmem hb =>
      ih (h target args b hmem hb) (by omega)

end

end Expr

/-! ### States in which a parameter is bound as well -/

namespace AliasTable

variable {a : AliasTable}

/-- The alias of a table does not depend on the rows. -/
theorem aliasFor_rows (rows : List (Nat × Text)) (table hint : Text) :
    ({ a with rows := rows } : AliasTable).aliasFor table hint =
      ((a.aliasFor table hint).1, { (a.aliasFor table hint).2 with rows := rows }) ∧
    (a.aliasFor table hint).2.rows = a.rows := by
  unfold aliasFor
  dsimp only
  cases a.pairs.lookup (table, hint) with
  | some c => exact ⟨rfl, rfl⟩
  | none => cases hint <;> cases a.firsts.lookup table <;> exact ⟨rfl, rfl⟩

theorem bind_of_lookup {p : Param} {name : Text} (h : a.rows.lookup p.id = some name)
    (table : Text) : a.bind p table = (name, a) := by
  rw [bind, h]

/-- A row that has no alias gets one that depends on the other rows only by the aliases they
hold. -/
theorem bind_rows {p : Param} {rows : List (Nat × Text)} (h : a.rows.lookup p.id = none)
    (h' : rows.lookup p.id = none)
    (held : ∀ c, (a.rows.any fun r => r.2 = c) = rows.any fun r => r.2 = c) (table : Text) :
    (a.bind p table).2.rows = (p.id, (a.bind p table).1) :: a.rows ∧
    ({ a with rows := rows } : AliasTable).bind p table =
      ((a.bind p table).1,
        { (a.bind p table).2 with rows := (p.id, (a.bind p table).1) :: rows }) := by
  obtain ⟨hfor, hrows⟩ := aliasFor_rows (a := a) rows table p.name
  simp only [bind, h, h', hfor, hrows, held]
  split <;> exact ⟨congrArg (List.cons _) hrows, rfl⟩

end AliasTable

/-- The states are the same but for the parameter `x`, which has the alias of the row `p` in the
first. -/
structure Slate.BoundAlike (x p : Param) (name : Text) (s s' : Slate) : Prop where
  params : s.params = s'.params
  fields : s.fields = s'.fields
  pendingType : s.pendingType = s'.pendingType
  aliases : s'.aliases = { s.aliases with rows := s'.aliases.rows }
  parameter : s.aliases.rows.lookup x.id = some name
  row : s'.aliases.rows.lookup p.id = some name
  others : ∀ i, i ≠ x.id → s.aliases.rows.lookup i = s'.aliases.rows.lookup i
  held : ∀ c, (s.aliases.rows.any fun r => r.2 = c) = s'.aliases.rows.any fun r => r.2 = c

namespace Slate.BoundAlike

variable {name : Text} {s s' : Slate}

/-- A row that is looked up by the same identity has the same alias in both states. -/
theorem bind_other (h : BoundAlike x p name s s') {q : Param} (hq : q.id ≠ x.id) (table : Text) :
    (s.aliases.bind q table).1 = (s'.aliases.bind q table).1 ∧
      BoundAlike x p name { s with aliases := (s.aliases.bind q table).2 }
        { s' with aliases := (s'.aliases.bind q table).2 } := by
  have hlookup := h.others q.id hq
  cases hs : s.aliases.rows.lookup q.id with
  | some c =>
    rw [AliasTable.bind_of_lookup hs, AliasTable.bind_of_lookup (hlookup ▸ hs)]
    exact ⟨rfl, h⟩
  | none =>
    have hs' : s'.aliases.rows.lookup q.id = none := hlookup ▸ hs
    obtain ⟨hrows, hbind⟩ := AliasTable.bind_rows hs hs' h.held table
    rw [h.aliases, hbind]
    have hp : p.id ≠ q.id := fun heq => by
      have hrow := h.row
      rw [heq, hs'] at hrow
      cases hrow
    refine ⟨rfl, { h with aliases := rfl, parameter := ?_, row := ?_, others := ?_, held := ?_ }⟩
    · dsimp only
      rw [hrows, List.lookup_cons, beq_false_of_ne hq.symm]
      exact h.parameter
    · dsimp only
      rw [List.lookup_cons, beq_false_of_ne hp]
      exact h.row
    · intro i hi
      dsimp only
      rw [hrows, List.lookup_cons, List.lookup_cons, h.others i hi]
    · intro c
      dsimp only
      rw [hrows, List.any_cons, List.any_cons, h.held c]

/-- The parameter has the alias of the row. -/
theorem bind_parameter (h : BoundAlike x p name s s') (table : Text) :
    (s.aliases.bind x table).1 = (s'.aliases.bind p table).1 ∧
      BoundAlike x p name { s with aliases := (s.aliases.bind x table).2 }
        { s' with aliases := (s'.aliases.bind p table).2 } := by
  rw [AliasTable.bind_of_lookup h.parameter, AliasTable.bind_of_lookup h.row]
  exact ⟨rfl, h⟩

end Slate.BoundAlike

/-- A parameter of the body has the alias that the renamed one has. -/
theorem Slate.BoundAlike.bind {name : Text} {s s' : Slate} (hs : BoundAlike x p name s s')
    (h : e.Inlinable x p) (ht : p.type = x.type) (hid : p.id = x.id → p = x) {q : Param}
    (hq : .param q ∈ e.walk) (table : Text) :
    (s.aliases.bind q table).1 = (s'.aliases.bind ((h.toRenaming ht).apply q) table).1 ∧
      BoundAlike x p name { s with aliases := (s.aliases.bind q table).2 }
        { s' with aliases := (s'.aliases.bind ((h.toRenaming ht).apply q) table).2 } := by
  rw [h.apply_toRenaming]
  by_cases hqx : q = x
  · rw [if_pos hqx, hqx]
    exact hs.bind_parameter table
  · rw [if_neg hqx]
    refine hs.bind_other (fun heq => hqx ?_) table
    obtain rfl := (h _ hq (.inl (.inl heq))).resolve_left hqx
    exact hid heq

/-- Compilations of a body with the parameter bound to the alias of the row, and of the body with
the row in the place of the parameter. -/
def Simulation.bound (h : e.Inlinable x p) (ht : p.type = x.type) (hid : p.id = x.id → p = x)
    (name : Text) : Simulation where
  rows := h.toRenaming ht
  sameText := True
  States := Slate.BoundAlike x p name
  Types := (· = ·)
  types_refl _ := rfl
  pendingType hs := hs.pendingType
  params_length hs _ := by rw [hs.params]
  set_pending hs _ _ ht := { hs with pendingType := ht }
  bind_value hs p v t t' ht := by
    subst ht
    exact { hs with
      params := by rw [Slate.bindValue, Slate.bindValue, hs.params, hs.pendingType]
      pendingType := rfl }
  add_field hs t t' ht := by
    rw [ht trivial]
    exact { hs with fields := by rw [hs.fields] }
  bind_row hs q table hq := (hs.bind h ht hid hq table).2
  alias_eq hs q table hq _ := (hs.bind h ht hid hq table).1

/-! ### Drafts -/

namespace Draft

/-- The draft in which the parameter `x` has the alias `name`. -/
def withRow (d : Draft) (x : Param) (name : Text) : Draft :=
  { d with slate := { d.slate with
      aliases := { d.slate.aliases with rows := (x.id, name) :: d.slate.aliases.rows } } }

/-- Two compilations stop for the same reason, but for the parameter that it names, or they leave
the same text, bound values and recorded items. -/
inductive Alike (r : Renaming) (y y' : Draft × Except (Stop CompileError) Unit) : Prop
  | stopped {cause cause' : Stop CompileError} (h : y.2 = .error cause) (h' : y'.2 = .error cause')
    (hc : cause.Renamed r cause')
  | compiled (h : y.2 = .ok ()) (h' : y'.2 = .ok ()) (text : y.1.text = y'.1.text)
    (params : y.1.slate.params = y'.1.slate.params) (fields : y.1.slate.fields = y'.1.slate.fields)

/-- What is left to do once a clause has been emitted depends on nothing else. -/
theorem alike_finish {r : Renaming} {d d' : Draft} (text : d.text = d'.text)
    (params : d.slate.params = d'.slate.params) (fields : d.slate.fields = d'.slate.fields)
    (c : Clause) (start : Nat) : Alike r (d.finish c start) (d'.finish c start) := by
  obtain ⟨st, t, ⟨ps, fs, a, w⟩⟩ := d
  obtain ⟨st', t', ⟨ps', fs', a', w'⟩⟩ := d'
  obtain ⟨rfl, rfl, rfl⟩ : t = t' ∧ ps = ps' ∧ fs = fs' := ⟨text, params, fields⟩
  cases c with
  | select =>
    by_cases hempty : (t.trimSuffix itemSeparator).length = start
    · simp only [finish, trimSuffix, hempty, if_true]
      exact .compiled rfl rfl rfl rfl rfl
    · simp only [finish, trimSuffix, hempty, if_false]
      exact .compiled rfl rfl rfl rfl rfl
  | update =>
    by_cases hempty : (t.trimSuffix itemSeparator).length = start
    · simp only [finish, trimSuffix, hempty, if_true]
      exact .stopped rfl rfl (.refl _)
    · simp only [finish, trimSuffix, hempty, if_false]
      exact .compiled rfl rfl rfl rfl rfl
  | _ => exact .compiled rfl rfl rfl rfl rfl

/-- An invocation emits what the inlined body emits. -/
theorem emittedIn_invocation {st : Settings} {whole : Expr} {r : Rendering}
    (hw : whole.isHole = false) (hr : r.expr.isHole = false) (c : Clause) (ds : List Direction) :
    (Rendering.invocation st whole fun _ => .ok r).emittedIn st c ds = r.emittedIn st c ds := by
  have haggregate : ∀ c, Rendering.aggregate c (.invocation st whole fun _ => .ok r) =
      Rendering.aggregate c r := by
    intro c
    have hexpr : (Rendering.invocation st whole fun _ => .ok r).expr = whole := rfl
    rw [Rendering.aggregate, Rendering.aggregate, hexpr, hw, hr]
    rfl
  cases c with
  | max | min | avg | sum | count => exact haggregate _
  | _ => rfl

/-- Related runs of what a clause emits leave alike drafts. -/
theorem alike_run {S : Simulation} (d d' : Draft) {m m' : Emit Text} (hsame : S.sameText)
    (hparams : ∀ {s s'}, S.States s s' → s.params = s'.params)
    (hfields : ∀ {s s'}, S.States s s' → s.fields = s'.fields) (text : d.text = d'.text)
    (hs : S.States d.slate d'.slate) (h : S.Agree S.Same m m') (c : Clause) :
    Alike S.rows
      (match d.run m with
        | (x, .ok ()) => x.finish c d.text.length
        | stopped => stopped)
      (match d'.run m' with
        | (x, .ok ()) => x.finish c d'.text.length
        | stopped => stopped) := by
  have hruns := h _ _ hs
  rw [run_eq, run_eq]
  generalize result m d.slate = y, result m' d'.slate = y' at hruns
  cases hruns with
  | stopped hc => exact .stopped rfl rfl hc
  | returned ht hs =>
    rw [← text]
    exact alike_finish (congrArg (d.text ++ ·) (ht hsame)) (hparams hs) (hfields hs) c _

/-- A draft in which the row is bound, with the parameter bound to its alias as well. -/
theorem boundAlike_withRow {d : Draft} {name : Text}
    (hp : d.slate.aliases.rows.lookup p.id = some name) :
    Slate.BoundAlike x p name (d.withRow x name).slate d.slate where
  params := rfl
  fields := rfl
  pendingType := rfl
  aliases := rfl
  parameter := List.lookup_cons_self
  row := hp
  others i hi := by
    rw [withRow, List.lookup_cons, beq_false_of_ne hi]
  held a := by
    -- the alias is held already, by the row
    rw [withRow, List.any_cons, Bool.or_eq_right_iff_imp]
    intro ha
    have ha : name = a := of_decide_eq_true ha
    obtain ⟨before, after, hrows, -⟩ := List.lookup_eq_some_iff.mp hp
    rw [hrows]
    simpa using .inr (.inl ha)

/-- **Inlining equals binding.** A lambda whose parameter is `x`, invoked with a row `p` that is
bound in a draft, compiles to the same as its body in the draft in which `x` is bound to the alias
of `p` as well; and if one stops, the other stops for the same reason, in which `p` is named for
`x`. -/
theorem compile_invoke {d : Draft} {name : Text} (h : body.Inlinable x p) (ht : p.type = x.type)
    (hid : p.id = x.id → p = x) (hhole : body.isHole = false)
    (hdepth : body.InlinesWithin (Expr.inlineDepth - 2))
    (hp : d.slate.aliases.rows.lookup p.id = some name) (c : Clause) (ds : List Direction) :
    Alike (h.toRenaming ht) ((d.withRow x name).compile body c ds)
      (d.compile (.invoke (.lambda body [x]) [.param p]) c ds) := by
  obtain ⟨n, hn⟩ : ∃ n, Expr.inlineDepth = n + 2 := ⟨9998, rfl⟩
  rw [hn, Nat.add_sub_cancel] at hdepth
  let S := Simulation.bound h ht hid name
  -- the body is rendered one inlining deeper than the invocation renders it
  have hbody : body.render d.settings = body.renderTo d.settings (n + 1) := by
    rw [Expr.render, hn]
    exact (Expr.renderTo_of_inlinesWithin hdepth (Nat.lt_succ_self n)).symm
  have hinlined : (Expr.invoke (.lambda body [x]) [.param p]).render d.settings =
      .invocation d.settings (.invoke (.lambda body [x]) [.param p])
        fun _ => .ok ((body.rename S.rows).renderTo d.settings (n + 1)) := by
    rw [Expr.render, hn, Expr.renderTo, Expr.renderWith, Expr.inline_row h ht hid]
    rfl
  have hmirrors : S.Mirrors (body.renderTo d.settings (n + 1))
      ((body.rename S.rows).renderTo d.settings (n + 1)) :=
    Expr.mirrors_renderTo (n + 1) (h.admits_toRenaming ht)
  have hexpr : ((body.rename S.rows).renderTo d.settings (n + 1)).expr.isHole = false := by
    rw [Expr.renderTo, Expr.renderWith_expr, Expr.isHole_rename, hhole]
  have hagree : S.Agree S.Same (emitted d.settings body c ds)
      (emitted d.settings (.invoke (.lambda body [x]) [.param p]) c ds) := by
    rw [emitted_eq, emitted_eq, hbody, hinlined, emittedIn_invocation rfl hexpr]
    exact Simulation.agree_emittedIn hmirrors c ds
  have hstart : S.States (d.withRow x name).slate d.slate := boundAlike_withRow hp
  rw [compile, compile, hhole]
  exact alike_run (d.withRow x name) d trivial Slate.BoundAlike.params Slate.BoundAlike.fields rfl
    hstart hagree c

end Draft

/-! ### Samples -/

namespace Sample

/-- The parameter of a lambda over customers. -/
def lambdaRow : Param := ⟨8, "x", some customer⟩

/-- Another row of customers. -/
def otherRow : Param := ⟨9, "q", some customer⟩

/-- The customer of the row is of age. -/
def isOfAge (p : Param) : Expr :=
  .binary .greaterThan (.field p "Age") (.value (.int .int 17))

/-- A draft in which the row of customers is bound. -/
def boundDraft : Draft :=
  ((Draft.new (.standard .sqlServer world)).bindParam customerRow "customers").2

/-- A lambda over customers, invoked with the row. -/
def invoked (body : Expr) : Expr := .invoke (.lambda body [lambdaRow]) [.param customerRow]

/-- A lambda that declares the same parameter again, invoked with another row. -/
def captured : Expr := .invoke (.lambda (isOfAge lambdaRow) [lambdaRow]) [.param otherRow]

/-- A call of a method that has no rule. -/
def unruled : Expr := .callOf (.param lambdaRow) "Frob" []

/-- A member without the type that its row gives it. -/
def untyped : Expr := .member (.param lambdaRow) "Active" none none

end Sample

open Sample in
/-- A condition is inlined for the row that is bound. -/
theorem Draft.compile_invoke_customers :
    ∃ (h : (isOfAge lambdaRow).Inlinable lambdaRow customerRow)
      (ht : customerRow.type = lambdaRow.type),
      (customerRow.id = lambdaRow.id → customerRow = lambdaRow) ∧
      (isOfAge lambdaRow).isHole = false ∧
      (isOfAge lambdaRow).InlinesWithin (Expr.inlineDepth - 2) ∧
      boundDraft.slate.aliases.rows.lookup customerRow.id = some "c" ∧
      Alike (h.toRenaming ht)
        ((boundDraft.withRow lambdaRow "c").compile (isOfAge lambdaRow) .where_ [])
        (boundDraft.compile (invoked (isOfAge lambdaRow)) .where_ []) := by
  have hwalk : (isOfAge lambdaRow).walk = [isOfAge lambdaRow, .field lambdaRow "Age",
    .param lambdaRow, .value (.int .int 17)] := rfl
  have h : (isOfAge lambdaRow).Inlinable lambdaRow customerRow := by
    intro y hy
    rw [hwalk] at hy
    simp only [List.mem_cons, List.not_mem_nil, or_false] at hy
    rcases hy with rfl | rfl | rfl | rfl
    · trivial
    · show Expr.rebuildMember _ _ _ _ = _
      rfl
    · exact fun _ => .inl rfl
    · trivial
  have hid : customerRow.id = lambdaRow.id → customerRow = lambdaRow := nofun
  have hdepth : (isOfAge lambdaRow).InlinesWithin (Expr.inlineDepth - 2) :=
    Expr.inlinesWithin_of_forall (by
      intro target args hmem
      rw [hwalk] at hmem
      simp only [List.mem_cons, List.not_mem_nil, or_false] at hmem
      rcases hmem with heq | heq | heq | heq <;> cases heq) _
  have hp : boundDraft.slate.aliases.rows.lookup customerRow.id = some "c" := by rfl
  exact ⟨h, rfl, hid, rfl, hdepth, hp, compile_invoke h rfl hid rfl hdepth hp .where_ []⟩

open Sample in
/-- What `Expr.Inlinable` leaves out. A lambda that declares the parameter again takes the row for
its own parameter; an error names the row and not the parameter; and a member gets the type that it
lacks. -/
theorem exists_invoke_unlike_bound :
    (boundDraft.compile (invoked captured) .where_ []).1.text = "c.age > @p1" ∧
    ((boundDraft.withRow lambdaRow "c").compile captured .where_ []).1.text = "q.age > @p1" ∧
    (boundDraft.compile (invoked unruled) .where_ []).2 =
      .error (.error (.method "Frob" .where_ (.dependsOnParameter "c"))) ∧
    ((boundDraft.withRow lambdaRow "c").compile unruled .where_ []).2 =
      .error (.error (.method "Frob" .where_ (.dependsOnParameter "x"))) ∧
    (boundDraft.compile (invoked untyped) .where_ []).1.text = "c.active = 1" ∧
    ((boundDraft.withRow lambdaRow "c").compile untyped .where_ []).2 =
      .error (.error (.construct .member .where_)) := by
  refine ⟨by rfl, by rfl, by rfl, by rfl, by rfl, by rfl⟩

end QueryTree
