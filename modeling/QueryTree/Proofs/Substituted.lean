import QueryTree.Proofs.Renamed

/-!
# Inlining renamed expressions

Inlining looks a parameter up by its identity and else by its name and type, so it does not tell
the parameters of a lambda from others that look the same. It goes through a renaming where no
lambda declares a parameter that looks like an old or a new one: then a renamed invocation is
inlined to the renamed body.

Replacement rebuilds what it changes, and a member that is rebuilt gets its type inferred again. So
it matters that a parameter is replaced by itself in the renamed expression only if it is in the old
one.

## Main definitions

* `Param.Matches`: parameters that look the same to inlining
* `Renaming.Admits`: the parameters of an expression can be renamed, also when it is inlined
* `Renaming.identity`: nothing is renamed
* `Expr.Commutes`: a rule of replacement and the rule for the renamed expression

## Main results

* `Expr.replace_renames`: replacement commutes with renaming
* `Expr.inline_rename`: an inlined invocation is renamed by renaming lambda and arguments
* `Expr.admits_inline`: what is inlined can be renamed as well
-/

namespace QueryTree

/-- The parameters look the same to inlining. -/
def Param.Matches (p q : Param) : Prop := p.id = q.id ∨ p.name = q.name ∧ p.type = q.type

variable {r : Renaming}

/-! ### Parameters that can be renamed

The conditions on an expression are conditions on the expressions in it, so they pass to its
operands. The lemmas below say so for each construct, and simplification uses them in the
inductions. -/

namespace Renaming

/-- The parameter looks like none that is replaced and like none that replaces one. -/
def Spares (r : Renaming) (q : Param) : Prop :=
  ∀ p, r.apply p ≠ p → ¬ q.Matches p ∧ ¬ q.Matches (r.apply p)

/-- The parameter occurs, or the lambda declares only parameters that are spared. -/
def AdmitsAt (r : Renaming) : Expr → Prop
  | .param p => r.Occurs p
  | .lambda _ ps => ∀ q ∈ ps, r.Spares q
  | _ => True

/-- The parameters of the expression can be renamed, also when it is inlined. -/
def Admits (r : Renaming) (e : Expr) : Prop := ∀ x ∈ e.walk, r.AdmitsAt x

/-- The same of the expressions of a list. -/
def AdmitsAll (r : Renaming) (es : List Expr) : Prop := ∀ x ∈ Expr.walkAll es, r.AdmitsAt x

/-- The same of the expressions of bindings. -/
def AdmitsBindings (r : Renaming) (bs : List (Text × Expr)) : Prop :=
  ∀ x ∈ Expr.walkBindings bs, r.AdmitsAt x

variable {e e' l l' c a b target : Expr} {name method : Text} {t owner : Option Ty}
  {callee : Option Text} {op : BinaryOp} {op' : UnaryOp} {p : Param} {ps : List Param}
  {es args : List Expr} {bs : List (Text × Expr)} {v : Value}

@[simp]
theorem admits_hole : r.Admits .hole := by simp [Admits, Expr.walk]

@[simp]
theorem admits_const : r.Admits (.const v t) := by simp [Admits, Expr.walk, AdmitsAt]

@[simp]
theorem admits_param : r.Admits (.param p) ↔ r.Occurs p := by simp [Admits, Expr.walk, AdmitsAt]

@[simp]
theorem admits_member : r.Admits (.member e name t owner) ↔ r.Admits e := by
  simp [Admits, Expr.walk, AdmitsAt]

@[simp]
theorem admits_unary : r.Admits (.unary op' e t) ↔ r.Admits e := by
  simp [Admits, Expr.walk, AdmitsAt]

@[simp]
theorem admits_binary : r.Admits (.binary op l l') ↔ r.Admits l ∧ r.Admits l' := by
  simp [Admits, Expr.walk, AdmitsAt, or_imp, forall_and]

@[simp]
theorem admits_call :
    r.Admits (.call e method args t callee) ↔ r.Admits e ∧ r.AdmitsAll args := by
  simp [Admits, AdmitsAll, Expr.walk, AdmitsAt, or_imp, forall_and]

@[simp]
theorem admits_invoke : r.Admits (.invoke target args) ↔ r.Admits target ∧ r.AdmitsAll args := by
  simp [Admits, AdmitsAll, Expr.walk, AdmitsAt, or_imp, forall_and]

@[simp]
theorem admits_new : r.Admits (.new t bs) ↔ r.AdmitsBindings bs := by
  simp [Admits, AdmitsBindings, Expr.walk, AdmitsAt]

@[simp]
theorem admits_init : r.Admits (.init t bs) ↔ r.AdmitsBindings bs := by
  simp [Admits, AdmitsBindings, Expr.walk, AdmitsAt]

@[simp]
theorem admits_list : r.Admits (.list t es) ↔ r.AdmitsAll es := by
  simp [Admits, AdmitsAll, Expr.walk, AdmitsAt]

@[simp]
theorem admits_array : r.Admits (.array t es) ↔ r.AdmitsAll es := by
  simp [Admits, AdmitsAll, Expr.walk, AdmitsAt]

@[simp]
theorem admits_lambda :
    r.Admits (.lambda e ps) ↔ (∀ q ∈ ps, r.Spares q) ∧ (∀ q ∈ ps, r.Occurs q) ∧ r.Admits e := by
  simp [Admits, Expr.walk, AdmitsAt, or_imp, forall_and]

@[simp]
theorem admits_cond : r.Admits (.cond c a b) ↔ r.Admits c ∧ r.Admits a ∧ r.Admits b := by
  simp [Admits, Expr.walk, AdmitsAt, or_imp, forall_and]

@[simp]
theorem admitsAll_nil : r.AdmitsAll [] := by simp [AdmitsAll, Expr.walkAll]

@[simp]
theorem admitsAll_cons : r.AdmitsAll (e :: es) ↔ r.Admits e ∧ r.AdmitsAll es := by
  simp [Admits, AdmitsAll, Expr.walkAll, or_imp, forall_and]

@[simp]
theorem admitsBindings_cons :
    r.AdmitsBindings ((name, e) :: bs) ↔ r.Admits e ∧ r.AdmitsBindings bs := by
  simp [Admits, AdmitsBindings, Expr.walkBindings, or_imp, forall_and]

/-- Nothing is renamed. -/
def identity : Renaming where
  apply p := p
  Occurs _ := True
  type_apply _ := rfl
  unique h := absurd rfl h

/-- With nothing to rename, every parameter is spared. -/
theorem admits_identity (e : Expr) : identity.Admits e := by
  intro x _
  cases x with
  | lambda => exact fun _ _ _ h => absurd rfl h
  | _ => trivial

theorem AdmitsAll.mem (h : r.AdmitsAll es) (he : e ∈ es) : r.Admits e := by
  induction es with
  | nil => cases he
  | cons x xs ih =>
    rw [admitsAll_cons] at h
    rcases List.mem_cons.mp he with rfl | he
    · exact h.1
    · exact ih h.2 he

theorem Admits.unquote : {e : Expr} → r.Admits e → r.Admits e.unquote
  | .unary op e t, h => by
    cases op with
    | quote => exact (admits_unary.mp h).unquote
    | _ => exact h
  | .hole, h | .const .., h | .param _, h | .member .., h | .binary .., h | .call .., h
  | .new .., h | .init .., h | .list .., h | .array .., h | .lambda .., h | .invoke .., h
  | .cond .., h => h

end Renaming

/-! ### Inlined invocations

Inlining replaces parameters by a rule. The rule is a parameter here, so that the induction on the
expression does not depend on how parameters are looked up. -/

namespace Expr

open Renaming

section

variable {rule rule' : Expr → Option Expr}

/-- What replaces an expression comes from the rule; what is left is rebuilt from its operands. -/
theorem admits_askFirst {α : Type} {e : Expr} {operands : Unit → Replaced α} {rebuild : α → Expr}
    (hrule : ∀ x y, rule x = some y → r.Admits y) (he : r.Admits e)
    (h : r.Admits (rebuild (operands ()).result)) :
    r.Admits (askFirst rule e operands rebuild).result := by
  rw [askFirst]
  split
  · rename_i y hy
    exact hrule e y hy
  · dsimp only
    split
    · exact h
    · exact he

/-- The type of a rebuilt member is inferred again, which no parameter depends on. -/
theorem admits_rebuildMember {e : Expr} (h : r.Admits e) (name : Text) (t owner : Option Ty) :
    r.Admits (rebuildMember e name t owner) := by
  unfold rebuildMember memberOf
  rcases e.type?.bind fun t => t.memberType name with _ | ⟨t, owner⟩
  · exact admits_member.mpr h
  · exact admits_member.mpr h

theorem admits_orNull {e : Expr} (h : r.Admits e) : r.Admits e.orNull := by
  rw [orNull]
  split
  · exact admits_const
  · exact h

mutual

/-- What replaces parts of an expression must admit renaming, and then so does the result. -/
theorem admits_replace (hrule : ∀ x y, rule x = some y → r.Admits y) : (e : Expr) → r.Admits e →
    r.Admits (replace rule e).result
  | hole, h => h
  | const v t, h => admits_askFirst hrule h admits_const
  | param p, h => by
    rw [replace]
    split
    · rename_i q hq
      exact hrule _ _ hq
    · rename_i y _ hy
      exact hrule _ _ hy
    · exact h
  | member e n t o, h =>
    admits_askFirst hrule h
      (admits_rebuildMember (admits_replace hrule e (admits_member.mp h)) n t o)
  | binary op l l', h =>
    have hs := admits_binary.mp h
    admits_askFirst hrule h (admits_binary.mpr
      ⟨admits_replace hrule l hs.1, admits_replace hrule l' hs.2⟩)
  | unary op e t, h =>
    admits_askFirst hrule h (admits_unary.mpr (admits_replace hrule e (admits_unary.mp h)))
  | call e m args t f, h =>
    have hs := admits_call.mp h
    admits_askFirst hrule h (admits_call.mpr
      ⟨admits_replace hrule e hs.1, admits_replaceAll hrule args hs.2⟩)
  | new t bs, h =>
    admits_askFirst hrule h (admits_new.mpr (admits_replaceBindings hrule bs (admits_new.mp h)))
  | init t bs, h =>
    admits_askFirst hrule h (admits_init.mpr (admits_replaceBindings hrule bs (admits_init.mp h)))
  | list t es, h =>
    admits_askFirst hrule h (admits_list.mpr (admits_replaceAll hrule es (admits_list.mp h)))
  | array t es, h =>
    admits_askFirst hrule h (admits_array.mpr (admits_replaceAll hrule es (admits_array.mp h)))
  | lambda body ps, h =>
    have hs := admits_lambda.mp h
    admits_askFirst hrule h (admits_lambda.mpr
      ⟨hs.1, hs.2.1, admits_replace hrule body hs.2.2⟩)
  | invoke e args, h =>
    have hs := admits_invoke.mp h
    admits_askFirst hrule h (admits_invoke.mpr
      ⟨admits_replace hrule e hs.1, admits_replaceAll hrule args hs.2⟩)
  | cond c a b, h =>
    have hs := admits_cond.mp h
    admits_askFirst hrule h (admits_cond.mpr ⟨admits_replace hrule c hs.1,
      admits_orNull (admits_replace hrule a hs.2.1), admits_orNull (admits_replace hrule b hs.2.2)⟩)

theorem admits_replaceAll (hrule : ∀ x y, rule x = some y → r.Admits y) : (es : List Expr) →
    r.AdmitsAll es → r.AdmitsAll (replaceAll rule es).result
  | [], h => h
  | e :: es, h =>
    have hs := admitsAll_cons.mp h
    admitsAll_cons.mpr ⟨admits_replace hrule e hs.1, admits_replaceAll hrule es hs.2⟩

theorem admits_replaceBindings (hrule : ∀ x y, rule x = some y → r.Admits y) :
    (bs : List (Text × Expr)) → r.AdmitsBindings bs →
    r.AdmitsBindings (replaceBindings rule bs).result
  | [], h => h
  | (_, e) :: bs, h =>
    have hs := admitsBindings_cons.mp h
    admitsBindings_cons.mpr ⟨admits_replace hrule e hs.1, admits_replaceBindings hrule bs hs.2⟩

end

/-- A rule that replaces nothing but parameters, and one that replaces the renamed ones by what
replaces the old ones, renamed. A parameter is replaced by itself in both or in neither. -/
structure Commutes (r : Renaming) (rule rule' : Expr → Option Expr) : Prop where
  param : ∀ p, r.Occurs p → rule' (param (r.apply p)) = (rule (param p)).map (rename r)
  same : ∀ p q, r.Occurs p → rule (Expr.param p) = some (Expr.param q) →
    (q.id != p.id) = ((r.apply q).id != (r.apply p).id)
  none : ∀ e, e.param? = none → rule e = none ∧ rule' e = none

/-- Where neither rule replaces the expression, both rebuild it from related operands. -/
theorem askFirst_renames {α : Type} {R : α → α → Prop} {e e' : Expr}
    {operands operands' : Unit → Replaced α} {rebuild rebuild' : α → Expr} (he : e' = e.rename r)
    (hn : rule e = none) (hn' : rule' e' = none) (ho : (operands ()).Relates R (operands' ()))
    (hb : ∀ a a', R a a' → rebuild' a' = (rebuild a).rename r) :
    (askFirst rule e operands rebuild).Relates (fun e e' => e' = e.rename r)
      (askFirst rule' e' operands' rebuild') := by
  rw [askFirst, askFirst, hn, hn']
  refine ⟨?_, ho.changed⟩
  show (if _ then _ else _) = rename r (if _ then _ else _)
  rw [ho.changed]
  split
  · exact hb _ _ ho.result
  · exact he

theorem rebuildMember_rename (e : Expr) (name : Text) (t owner : Option Ty) :
    rebuildMember (e.rename r) name t owner = (rebuildMember e name t owner).rename r := by
  unfold rebuildMember memberOf
  rw [type?_rename]
  rcases e.type?.bind fun t => t.memberType name with _ | ⟨t, owner⟩
  · simp only [rename]
  · simp only [rename]

theorem orNull_rename (e : Expr) : (e.rename r).orNull = e.orNull.rename r := by
  rw [orNull, orNull, isHole_rename]
  split
  · simp only [null, value, rename]
  · rfl

/-- A parameter that is replaced by itself counts as unchanged on both sides. -/
theorem replace_param_renames (hc : Commutes r rule rule') {p : Param} (hp : r.Occurs p) :
    (replace rule (param p)).Relates (fun e e' => e' = e.rename r)
      (replace rule' (param (r.apply p))) := by
  have hsame := hc.same p
  rw [replace, replace, hc.param p hp]
  rcases hr : rule (param p) with _ | x
  · exact ⟨by simp only [Option.map_none, rename], rfl⟩
  · rw [Option.map_some]
    cases x with
    | param q => exact ⟨by simp only [rename], hsame q hp hr⟩
    | _ => exact ⟨by simp only [rename], rfl⟩

mutual

/-- What is replaced in a renamed expression is what is replaced in the expression, renamed. -/
theorem replace_renames (hc : Commutes r rule rule') : (e : Expr) → r.Admits e →
    (replace rule e).Relates (fun e e' => e' = e.rename r) (replace rule' (e.rename r))
  | hole, _ => ⟨by simp only [rename, replace], rfl⟩
  | const v t, _ =>
    askFirst_renames (by simp only [rename]) (hc.none _ rfl).1 (hc.none _ rfl).2
      (R := fun _ _ => True) ⟨trivial, rfl⟩ fun _ _ _ => by simp only [rename]
  | param p, h => by
    rw [rename]
    exact replace_param_renames hc (admits_param.mp h)
  | member e n t o, h => by
    rw [rename]
    refine askFirst_renames (by rw [rename]) (hc.none _ rfl).1 (hc.none _ rfl).2
      (replace_renames hc e (admits_member.mp h)) ?_
    rintro a _ rfl
    exact rebuildMember_rename a n t o
  | binary op l l', h => by
    have hs := admits_binary.mp h
    rw [rename]
    refine askFirst_renames (by rw [rename]) (hc.none _ rfl).1 (hc.none _ rfl).2
      ((replace_renames hc l hs.1).and (replace_renames hc l' hs.2)) ?_
    rintro ⟨a, b⟩ ⟨_, _⟩ ⟨rfl, rfl⟩
    simp only [rename]
  | unary op e t, h => by
    rw [rename]
    refine askFirst_renames (by rw [rename]) (hc.none _ rfl).1 (hc.none _ rfl).2
      (replace_renames hc e (admits_unary.mp h)) ?_
    rintro a _ rfl
    simp only [rename]
  | call e m args t f, h => by
    have hs := admits_call.mp h
    rw [rename]
    refine askFirst_renames (by rw [rename]) (hc.none _ rfl).1 (hc.none _ rfl).2
      ((replace_renames hc e hs.1).and (replaceAll_renames hc args hs.2)) ?_
    rintro ⟨a, b⟩ ⟨_, _⟩ ⟨rfl, rfl⟩
    simp only [rename]
  | new t bs, h => by
    rw [rename]
    refine askFirst_renames (by rw [rename]) (hc.none _ rfl).1 (hc.none _ rfl).2
      (replaceBindings_renames hc bs (admits_new.mp h)) ?_
    rintro a _ rfl
    simp only [rename]
  | init t bs, h => by
    rw [rename]
    refine askFirst_renames (by rw [rename]) (hc.none _ rfl).1 (hc.none _ rfl).2
      (replaceBindings_renames hc bs (admits_init.mp h)) ?_
    rintro a _ rfl
    simp only [rename]
  | list t es, h => by
    rw [rename]
    refine askFirst_renames (by rw [rename]) (hc.none _ rfl).1 (hc.none _ rfl).2
      (replaceAll_renames hc es (admits_list.mp h)) ?_
    rintro a _ rfl
    simp only [rename]
  | array t es, h => by
    rw [rename]
    refine askFirst_renames (by rw [rename]) (hc.none _ rfl).1 (hc.none _ rfl).2
      (replaceAll_renames hc es (admits_array.mp h)) ?_
    rintro a _ rfl
    simp only [rename]
  | lambda body ps, h => by
    rw [rename]
    refine askFirst_renames (by rw [rename]) (hc.none _ rfl).1 (hc.none _ rfl).2
      (replace_renames hc body (admits_lambda.mp h).2.2) ?_
    rintro a _ rfl
    simp only [rename]
  | invoke e args, h => by
    have hs := admits_invoke.mp h
    rw [rename]
    refine askFirst_renames (by rw [rename]) (hc.none _ rfl).1 (hc.none _ rfl).2
      ((replace_renames hc e hs.1).and (replaceAll_renames hc args hs.2)) ?_
    rintro ⟨a, b⟩ ⟨_, _⟩ ⟨rfl, rfl⟩
    simp only [rename]
  | cond c a b, h => by
    have hs := admits_cond.mp h
    rw [rename]
    refine askFirst_renames (by rw [rename]) (hc.none _ rfl).1 (hc.none _ rfl).2
      ((replace_renames hc c hs.1).and
        ((replace_renames hc a hs.2.1).and (replace_renames hc b hs.2.2))) ?_
    rintro ⟨x, y, z⟩ ⟨_, _, _⟩ ⟨rfl, rfl, rfl⟩
    simp only [condOf, rename, orNull_rename]

theorem replaceAll_renames (hc : Commutes r rule rule') : (es : List Expr) → r.AdmitsAll es →
    (replaceAll rule es).Relates (fun es es' => es' = renameAll r es)
      (replaceAll rule' (renameAll r es))
  | [], _ => ⟨by simp only [renameAll, replaceAll], rfl⟩
  | e :: es, h => by
    have hs := admitsAll_cons.mp h
    have h' := (replace_renames hc e hs.1).and (replaceAll_renames hc es hs.2)
    rw [renameAll, replaceAll, replaceAll]
    exact ⟨by rw [renameAll, ← h'.result.1, ← h'.result.2], h'.changed⟩

theorem replaceBindings_renames (hc : Commutes r rule rule') : (bs : List (Text × Expr)) →
    r.AdmitsBindings bs → (replaceBindings rule bs).Relates
      (fun bs bs' => bs' = renameBindings r bs) (replaceBindings rule' (renameBindings r bs))
  | [], _ => ⟨by simp only [renameBindings, replaceBindings], rfl⟩
  | (_, e) :: bs, h => by
    have hs := admitsBindings_cons.mp h
    have h' := (replace_renames hc e hs.1).and (replaceBindings_renames hc bs hs.2)
    rw [renameBindings, replaceBindings, replaceBindings]
    exact ⟨by rw [renameBindings, ← h'.result.1, ← h'.result.2], h'.changed⟩

end

end

/-! ### Substitution

Inlining looks up parameters among those of a lambda. If these are spared, a renamed parameter is
looked up as the old one was. -/

section

variable {ps : List Param} {args : List Expr} {p : Param}

/-- A parameter is only replaced if one of the lambda's looks like it. -/
theorem exists_matches_of_substitution {e : Expr} (h : substitution ps args p = some e) :
    ∃ q ∈ ps, q.Matches p := by
  rw [substitution_eq] at h
  obtain ⟨⟨q, x⟩, hq, -⟩ := Option.map_eq_some_iff.mp h
  rcases Option.or_eq_some_iff.mp hq with hq | ⟨-, hq⟩
  · have hmem := List.mem_of_find?_eq_some hq
    refine ⟨q, (List.of_mem_zip (List.mem_reverse.mp hmem)).1, .inl ?_⟩
    simpa using List.find?_some hq
  · have hmem := List.mem_of_find?_eq_some hq
    refine ⟨q, (List.of_mem_zip (List.mem_reverse.mp hmem)).1, .inr ?_⟩
    simpa using List.find?_some hq

/-- What replaces a parameter is one of the arguments. -/
theorem mem_of_substitution {e : Expr} (h : substitution ps args p = some e) : e ∈ args := by
  rw [substitution_eq] at h
  obtain ⟨⟨q, x⟩, hq, rfl⟩ := Option.map_eq_some_iff.mp h
  have hmem : (q, x) ∈ (ps.zip args).reverse := by
    rcases Option.or_eq_some_iff.mp hq with hq | ⟨-, hq⟩
    · exact List.mem_of_find?_eq_some hq
    · exact List.mem_of_find?_eq_some hq
  exact (List.of_mem_zip (List.mem_reverse.mp hmem)).2

theorem substitution_map (f : Expr → Expr) (ps : List Param) (args : List Expr) (p : Param) :
    substitution ps (args.map f) p = (substitution ps args p).map f := by
  have hzip : (ps.zip (args.map f)).reverse = (ps.zip args).reverse.map (Prod.map id f) := by
    rw [List.zip_map_right, List.map_reverse]
  rw [substitution_eq, substitution_eq, hzip, List.find?_map, List.find?_map]
  simp only [Function.comp_def, Prod.map_fst, id_eq]
  cases ((ps.zip args).reverse.find? fun a => decide (a.1.id = p.id)) with
  | some a => rfl
  | none => cases ((ps.zip args).reverse.find? fun a =>
      decide (a.1.name = p.name) && decide (a.1.type = p.type)) <;> rfl

/-- No lambda parameter that is spared takes the place of one that is renamed. -/
theorem substitution_of_moved (hs : ∀ q ∈ ps, r.Spares q) (hp : r.apply p ≠ p) :
    substitution ps args p = none ∧ substitution ps args (r.apply p) = none := by
  constructor
  · refine Option.eq_none_iff_forall_ne_some.mpr fun e he => ?_
    obtain ⟨q, hq, hm⟩ := exists_matches_of_substitution he
    exact (hs q hq p hp).1 hm
  · refine Option.eq_none_iff_forall_ne_some.mpr fun e he => ?_
    obtain ⟨q, hq, hm⟩ := exists_matches_of_substitution he
    exact (hs q hq p hp).2 hm

/-- Looking up a renamed parameter among renamed arguments. -/
theorem substitution_rename (hs : ∀ q ∈ ps, r.Spares q) (p : Param) :
    substitution ps (renameAll r args) (r.apply p) = (substitution ps args p).map (rename r) := by
  rw [renameAll_eq_map, substitution_map]
  by_cases hp : r.apply p = p
  · rw [hp]
  · have hnone : substitution ps args p = none ∧ substitution ps args (r.apply p) = none :=
      substitution_of_moved hs hp
    rw [hnone.1, hnone.2]

/-- An argument that is the parameter itself stays so when both are renamed. -/
theorem id_bne_of_substitution {q : Param} (hs : ∀ q ∈ ps, r.Spares q) (hp : r.Occurs p)
    (h : substitution ps args p = some (param q)) :
    (q.id != p.id) = ((r.apply q).id != (r.apply p).id) := by
  have hkept : r.apply p = p := by
    by_contra hp
    rw [(substitution_of_moved hs hp).1] at h
    cases h
  obtain ⟨z, hz, hm⟩ := exists_matches_of_substitution h
  rw [hkept]
  by_cases hq : r.apply q = q
  · rw [hq]
  · -- a parameter of the identity of `q` would look like one the lambda does not declare
    have hapart : p ≠ q ∧ p ≠ r.apply q := by
      constructor
      · rintro rfl
        exact (hs z hz _ hq).1 hm
      · intro heq
        exact (hs z hz _ hq).2 (heq ▸ hm)
    have hold : q.id ≠ p.id := fun heq =>
      (r.unique hq hp (.inl heq.symm)).elim hapart.1 hapart.2
    have hnew : (r.apply q).id ≠ p.id := fun heq =>
      (r.unique hq hp (.inr heq.symm)).elim hapart.1 hapart.2
    rw [bne_iff_ne.mpr hold, bne_iff_ne.mpr hnew]

end

/-- **A renamed invocation is inlined to the renamed body.** -/
theorem inline_rename {target : Expr} (ht : r.Admits target) (args : List Expr) :
    inline (target.rename r) (renameAll r args) = (inline target args).map (rename r) := by
  have hadmits := ht.unquote
  unfold inline
  rw [unquote_rename]
  cases htarget : target.unquote with
  | lambda body ps =>
    rw [htarget, admits_lambda] at hadmits
    obtain ⟨hs, -, hbody⟩ := hadmits
    have hlen : (renameAll r args).length = args.length := by rw [renameAll_eq_map, List.length_map]
    simp only [rename, hlen]
    split
    · refine congrArg Except.ok (replace_renames ⟨fun p _ => substitution_rename hs p,
        fun p q hp h => id_bne_of_substitution hs hp h, fun e he => ?_⟩ body hbody).result
      cases e with
      | param p => cases he
      | _ => exact ⟨rfl, rfl⟩
    · rfl
  | _ => simp only [rename]; rfl

/-- What is inlined can be renamed as well. -/
theorem admits_inline {target b : Expr} {args : List Expr} (ht : r.Admits target)
    (ha : r.AdmitsAll args) (h : inline target args = .ok b) : r.Admits b := by
  have hadmits := ht.unquote
  unfold inline at h
  cases htarget : target.unquote with
  | lambda body ps =>
    rw [htarget, admits_lambda] at hadmits
    simp only [htarget] at h
    split at h
    · cases h
      refine admits_replace (fun x y hxy => ?_) body hadmits.2.2
      split at hxy
      · exact ha.mem (mem_of_substitution hxy)
      · cases hxy
    · cases h
  | _ => simp only [htarget] at h; cases h

end Expr

end QueryTree
