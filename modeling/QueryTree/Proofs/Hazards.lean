import QueryTree.Proofs.Evaluated
import QueryTree.Sample.Functions

/-!
# Evaluations that fault

An evaluation yields a value, fails with an error, or faults. It faults only where an operation is
given a value that it has no answer for: a method of nil; a member of an embedded record behind a
nil pointer, read or set; a list indexed by a floating point number; a list that is to become an
array with more elements; and a declared function that faults itself. Such a place is a trap. The
list of traps is exact: every one of them faults, and an expression without any evaluates to a value
or to an error.

The operations are taken one by one. For each, the values are described for which it faults, and
then the recursion on the expression only has to find out which operation it was.

## Main definitions

* `Value.TooShort`: a list with fewer elements than the array it is to become
* `Value.Loses`, `Value.Refuses`: a member behind a nil pointer, read and set
* `Expr.Trap`: an expression that faults although its operands have values

## Main results

* `Value.fit_eq_fault_iff`, `Value.member_eq_fault_iff`, `Value.callMethod_eq_fault_iff` and the
  like: when an operation faults
* `Expr.eval_answers`: an expression without traps has an answer
* `Expr.exists_fault`: traps in expressions over plain data
-/

namespace QueryTree

namespace Value

variable {v : Value} {t : Ty}

/-! ### Conversions -/

/-- The value is a list of fewer elements than the array that it would become, alone or behind a
pointer. -/
def TooShort (v : Value) (t : Ty) : Prop :=
  ∃ e items n, (v.under = slice e items ∨ v.under = nilSlice e ∧ items = []) ∧
    t.arrayAt? = some (n, e) ∧ items.length < n

theorem arrayOf_eq_fault_iff (e : Ty) (items : List Value) (n : Nat) :
    arrayOf e items n = .error .fault ↔ items.length < n := by
  unfold arrayOf
  split
  · exact ⟨nofun, fun h => by omega⟩
  · exact ⟨fun _ => by omega, fun _ => rfl⟩

theorem map_eq_fault_iff {ε α β : Type} (f : α → β) (x : Attempt ε α) :
    x.map f = .error .fault ↔ x = .error .fault := by
  rcases x with (_ | _) | _ <;> simp [Except.map]

/-- An array type, or a pointer to one. -/
theorem arrayAt?_eq_some_iff {n : Nat} {e : Ty} : t.arrayAt? = some (n, e) ↔
    t.under = .array n e ∨ ∃ u, t.under = .ptr u ∧ u.under = .array n e := by
  unfold Ty.arrayAt?
  split
  · rename_i hu
    simp [hu]
  · rename_i hu
    split
    · rename_i hu'
      simp [hu, hu']
    · rename_i hnone
      simp only [reduceCtorEq, false_iff, not_or, not_exists, not_and, hu, not_false_eq_true,
        true_and, Ty.ptr.injEq]
      rintro _ rfl h
      exact hnone _ _ h
  · rename_i harray hptr
    simp only [reduceCtorEq, false_iff, not_or, not_exists, not_and]
    exact ⟨fun h => harray _ _ h, fun u h => absurd h (hptr u)⟩

/-- A list of fewer elements than the array that it is converted to. -/
theorem convertUnder_eq_fault_iff (v : Value) (t : Ty) :
    convertUnder v t = .error .fault ↔ ∃ e items n u,
      (v = slice e items ∨ v = nilSlice e ∧ items = []) ∧
      (t = .array n u ∨ ∃ w, t = .ptr w ∧ w.under = .array n u) ∧ items.length < n := by
  constructor
  · intro h
    unfold convertUnder at h
    split at h
    · cases h
    split at h
    case h_7 e n u _ =>
      exact ⟨e, [], n, u, .inr ⟨rfl, rfl⟩, .inl rfl, (arrayOf_eq_fault_iff ..).mp h⟩
    case h_8 e items n u _ =>
      exact ⟨e, items, n, u, .inl rfl, .inl rfl, (arrayOf_eq_fault_iff ..).mp h⟩
    case h_9 e w _ =>
      split at h
      · rename_i n u hw
        rw [map_eq_fault_iff, arrayOf_eq_fault_iff] at h
        exact ⟨e, [], n, u, .inr ⟨rfl, rfl⟩, .inr ⟨w, rfl, hw⟩, h⟩
      · cases h
    case h_10 e items w _ =>
      split at h
      · rename_i n u hw
        rw [map_eq_fault_iff, arrayOf_eq_fault_iff] at h
        exact ⟨e, items, n, u, .inl rfl, .inr ⟨w, rfl, hw⟩, h⟩
      · cases h
    all_goals cases h
  · rintro ⟨e, items, n, u, rfl | ⟨rfl, rfl⟩, rfl | ⟨w, rfl, hw⟩, hlt⟩
    · rw [convertUnder_slice_array, arrayOf_eq_fault_iff]
      exact hlt
    · rw [convertUnder_slice_ptr, hw]
      exact (map_eq_fault_iff ..).mpr ((arrayOf_eq_fault_iff ..).mpr hlt)
    · exact (arrayOf_eq_fault_iff e [] n).mpr hlt
    · rw [convertUnder_nilSlice_ptr, hw]
      exact (map_eq_fault_iff ..).mpr ((arrayOf_eq_fault_iff ..).mpr hlt)

namespace TooShort

variable {a : Ty}

theorem type? (h : v.TooShort t) : ∃ a e, v.type? = some a ∧ a.under = .slice e := by
  obtain ⟨e, items, n, hv, -, -⟩ := h
  have hunder := type?_under v
  rcases hv with hv | ⟨hv, -⟩
  all_goals
    rw [hv] at hunder
    obtain ⟨a, ha, hae⟩ := Option.map_eq_some_iff.mp hunder
    exact ⟨a, e, ha, hae⟩

theorem convertible (h : v.TooShort t) (ha : v.type? = some a) : a.convertible t = true := by
  obtain ⟨e, items, n, hv, ht, -⟩ := h
  have hunder := type?_under v
  have hae : a.under = .slice e := by
    rcases hv with hv | ⟨hv, -⟩
    all_goals
      rw [hv, ha] at hunder
      exact Option.some.inj hunder
  unfold Ty.convertible
  rw [hae, ht]
  simp only [decide_true, Bool.or_true, Bool.true_or]

theorem ne_ptr (h : v.TooShort t) (e : Ty) (w : Value) : v ≠ ptr e w := by
  rintro rfl
  obtain ⟨e, items, n, hv | ⟨hv, -⟩, -⟩ := h
  all_goals cases hv

theorem type?_ne (h : v.TooShort t) : v.type? ≠ some t := by
  intro heq
  obtain ⟨a, e, ha, hae⟩ := h.type?
  obtain rfl := Option.some.inj (ha.symm.trans heq)
  obtain ⟨e', items, n, -, ht, -⟩ := h
  rcases arrayAt?_eq_some_iff.mp ht with ht | ⟨u, ht, -⟩
  all_goals
    rw [hae] at ht
    cases ht

end TooShort

/-- A list type converts to no array type but one with the same elements. -/
theorem elem_eq_of_convertible {a t : Ty} {e u : Ty} {n : Nat} (hae : a.under = .slice e)
    (ht : t.arrayAt? = some (n, u)) (hc : (a.assignable t || a.convertible t) = true)
    (hne : a ≠ t) (hany : t.under ≠ .any) : e = u := by
  have hptr : ∀ w, a ≠ .ptr w := by
    rintro w rfl
    cases hae
  rcases arrayAt?_eq_some_iff.mp ht with hu | ⟨w, hu, -⟩
  all_goals
    simp only [Ty.assignable, hne, decide_false, Bool.or_self, Bool.not_and, hae, hu,
      reduceCtorEq, Bool.and_false, Ty.convertible, Ty.isNumber, Bool.and_self, Ty.isTextList,
      Bool.false_or, Ty.withoutTags, Bool.or_false, Bool.or_eq_true, decide_eq_true_eq, ht] at hc
    refine hc.resolve_right fun h => ?_
    split at h
    · exact hptr _ rfl
    · cases h

/-- A conversion to a type that the value's type converts to. -/
theorem convert_eq_fault_iff {a : Ty} (ha : v.type? = some a)
    (hc : (a.assignable t || a.convertible t) = true) :
    v.convert t = .error .fault ↔ v.TooShort t := by
  constructor
  · intro h
    unfold convert at h
    split at h
    · cases h
    rename_i hsame
    rw [Bool.or_eq_true, not_or, decide_eq_true_iff, decide_eq_true_iff, ha] at hsame
    split at h
    · cases h
    · rw [map_eq_fault_iff, convertUnder_eq_fault_iff] at h
      obtain ⟨e, items, n, u, hv, ht, hlt⟩ := h
      have hae : a.under = .slice e := by
        have hunder := type?_under v
        rcases hv with hv | ⟨hv, -⟩
        all_goals
          rw [hv, ha] at hunder
          exact Option.some.inj hunder
      have harray : t.arrayAt? = some (n, u) := arrayAt?_eq_some_iff.mpr ht
      have hne : a ≠ t := fun heq => hsame.2 (congrArg some heq)
      obtain rfl := elem_eq_of_convertible hae harray hc hne hsame.1
      exact ⟨e, items, n, hv, harray, hlt⟩
  · intro h
    have hne := h.type?_ne
    have hptr := h.ne_ptr
    obtain ⟨e, items, n, hv, ht, hlt⟩ := h
    have hunder := arrayAt?_eq_some_iff.mp ht
    have hany : t.under ≠ .any := by
      intro hany
      rcases hunder with hu | ⟨w, hu, -⟩
      all_goals
        rw [hany] at hu
        cases hu
    rw [convert_of_ne_ptr hptr, if_neg (by simp [hany, hne]), map_eq_fault_iff]
    exact (convertUnder_eq_fault_iff _ _).mpr ⟨e, items, n, e, hv, hunder, hlt⟩

theorem widen_eq_fault_iff {ε α : Type} (x : Attempt Empty α) :
    (x.widen : Attempt ε α) = .error .fault ↔ x = .error .fault := by
  rcases x with (e | _) | a
  · exact e.elim
  · exact ⟨fun _ => rfl, fun _ => rfl⟩
  · exact ⟨nofun, nofun⟩

/-- A value that a slot of a type is filled with. -/
theorem fit_eq_fault_iff (v : Value) (t : Ty) : v.fit t = .error .fault ↔ v.TooShort t := by
  unfold fit
  cases ha : v.type? with
  | none =>
    refine ⟨nofun, fun h => ?_⟩
    obtain ⟨a, _, ha', -⟩ := h.type?
    rw [ha] at ha'
    cases ha'
  | some a =>
    dsimp only
    split
    · rename_i hc
      rw [widen_eq_fault_iff, convert_eq_fault_iff ha hc]
    · rename_i hc
      refine ⟨nofun, fun h => ?_⟩
      rw [h.convertible ha, Bool.or_true] at hc
      exact absurd rfl hc

/-- Behind a pointer, a list is too short for what it is too short for alone. -/
theorem TooShort.elem {e : Ty} (ht : t.under = .ptr e) (h : v.TooShort t) : v.TooShort e := by
  obtain ⟨u, items, n, hv, harray, hlt⟩ := h
  refine ⟨u, items, n, hv, ?_, hlt⟩
  rcases arrayAt?_eq_some_iff.mp harray with hu | ⟨w, hu, hw⟩
  · rw [ht] at hu
    cases hu
  · rw [ht] at hu
    cases hu
    exact arrayAt?_eq_some_iff.mpr (.inl hw)

/-- A conversion to a type, if the value's type converts to it. -/
theorem guarded_convert_eq_fault_iff {a : Ty} (ha : v.type? = some a) (e : EvalError) :
    (if a.convertible t then (v.convert t).widen else .fail e : Attempt EvalError Value) =
      .error .fault ↔ v.TooShort t := by
  by_cases hc : a.convertible t = true
  · rw [if_pos hc, widen_eq_fault_iff, convert_eq_fault_iff ha (by rw [hc, Bool.or_true])]
  · rw [if_neg hc]
    exact ⟨nofun, fun h => absurd (h.convertible ha) hc⟩

/-- A value that is converted on demand. -/
theorem convertTo_eq_fault_iff (v : Value) (t : Option Ty) : convertTo v t = .error .fault ↔
    ∃ u, t = some u ∧ (v.TooShort u ∨ ∃ e, u.under = .ptr e ∧ v.TooShort e) := by
  cases t with
  | none => exact ⟨nofun, nofun⟩
  | some u =>
    simp only [Option.some.injEq, exists_eq_left']
    cases ha : v.type? with
    | none =>
      have hnone : ∀ u, ¬ v.TooShort u := fun u h => by
        obtain ⟨a, _, ha', -⟩ := h.type?
        rw [ha] at ha'
        cases ha'
      simp [convertTo, ha, hnone]
    | some a =>
      by_cases hau : a = u
      · subst hau
        have hshort : ∀ u, v.TooShort u → u ≠ a ∧ ∀ e, a.under ≠ .ptr e := by
          intro u h
          refine ⟨fun heq => h.type?_ne (heq ▸ ha), fun e he => ?_⟩
          obtain ⟨b, _, hb, hbe⟩ := h.type?
          rw [ha] at hb
          cases hb
          rw [he] at hbe
          cases hbe
        simp only [convertTo, ha, if_true]
        refine ⟨nofun, ?_⟩
        rintro (h | ⟨e, he, h⟩)
        · exact absurd rfl (hshort a h).1
        · exact absurd he ((hshort e h).2 e)
      · simp only [convertTo, ha, if_neg hau]
        split
        · rename_i e he
          simp only [he, Ty.ptr.injEq, exists_eq_left']
          split
          · rename_i hc
            rw [map_eq_fault_iff, widen_eq_fault_iff,
              convert_eq_fault_iff ha (by rw [hc, Bool.or_true])]
            exact ⟨.inr, fun h => h.elim (TooShort.elem he) id⟩
          · rename_i hc
            rw [guarded_convert_eq_fault_iff ha]
            exact ⟨.inl, fun h => h.elim id fun h => absurd (h.convertible ha) hc⟩
        · rename_i hptr
          rw [guarded_convert_eq_fault_iff ha]
          exact ⟨.inl, fun h => h.elim id fun ⟨e, he, _⟩ => absurd he (hptr e)⟩

/-! ### Elements and members -/

/-- A list that is indexed by a floating point number. -/
def MisIndexed (l r : Value) : Prop := (∃ items, l.items? = some items) ∧ ∃ s x, r.under = float s x

theorem elementAt_eq_fault_iff (l r : Value) : elementAt l r = .error .fault ↔ MisIndexed l r := by
  have hfloat : (∃ x, r.numeric? = some (.float x)) ↔ ∃ s x, r.under = float s x := by
    unfold numeric?
    cases r.under <;> simp
  rw [MisIndexed, ← hfloat]
  unfold elementAt
  split
  · rename_i items x hitems hx
    exact ⟨fun _ => ⟨⟨items, hitems⟩, x, hx⟩, fun _ => rfl⟩
  · rename_i items n hitems hn
    refine ⟨fun h => ?_, fun ⟨_, x, hx⟩ => ?_⟩
    · dsimp only at h
      split at h
      · split at h <;> cases h
      · cases h
    · rw [hn] at hx
      cases hx
  · rename_i hno _
    exact ⟨nofun, fun ⟨⟨items, hitems⟩, x, hx⟩ => (hno items x hitems hx).elim⟩

theorem arith_eq_fault_iff (op : BinaryOp) (l r : Value) :
    arith op l r = .error .fault ↔ op = .arrayIndex ∧ MisIndexed l r := by
  by_cases hop : op = .arrayIndex
  · have heq : arith .arrayIndex l r = elementAt l r := rfl
    rw [hop, heq, elementAt_eq_fault_iff]
    simp
  · refine ⟨fun h => ?_, fun h => absurd h.1 hop⟩
    unfold arith at h
    rw [if_neg hop] at h
    split at h
    · cases h
    split at h
    · cases h
    split at h
    · split at h
      · cases h
      · split at h <;> cases h
      · split at h <;> cases h
    · cases h

/-- A record without the member, because the pointer to the record that has it is nil. -/
def Loses (v : Value) (name : Text) : Prop :=
  ∃ fs values f path, v.deref.under = record fs values ∧
    (v.deref.type?.bind fun t => t.member? name) = some (f, path) ∧ v.deref.fieldAt? path = none

theorem member_eq_fault_iff (v : Value) (name : Text) :
    v.member name = .error .fault ↔ v.Loses name := by
  have hrecord : ∀ {x : Attempt EvalError Value}, x ≠ .error .fault →
      (∀ fs values, v.deref.under ≠ record fs values) → (x = .error .fault ↔ v.Loses name) :=
    fun hx hv => ⟨fun h => absurd h hx, fun ⟨fs, values, _, _, hr, _⟩ => absurd hr (hv fs values)⟩
  have hlength : ∀ n : Int, (if name = lengthMember then .ok (.int .int n)
      else .fail (.noMember v.deref.type? name) : Attempt EvalError Value) ≠ .error .fault := by
    intro n
    split <;> rintro ⟨⟩
  unfold Value.member
  dsimp only
  split
  case h_3 fs values hu =>
    split
    · rename_i f path hm
      split
      · rename_i w hw
        refine ⟨fun h => ?_, ?_⟩
        · split at h <;> cases h
        rintro ⟨_, _, f', path', -, hm', hnone⟩
        rw [hm] at hm'
        cases hm'
        rw [hw] at hnone
        cases hnone
      · rename_i hnone
        exact ⟨fun _ => ⟨fs, values, f, path, hu, hm, hnone⟩, fun _ => rfl⟩
    · rename_i hm
      refine ⟨fun h => (by cases h), ?_⟩
      rintro ⟨_, _, f', path', -, hm', -⟩
      rw [hm] at hm'
      cases hm'
  case h_10 =>
    exact hrecord (by rintro ⟨⟩) ‹∀ fs values, v.deref.under = record fs values → False›
  all_goals
    rename_i hu
    refine hrecord ?_ (by rw [hu]; rintro _ _ ⟨⟩)
    first
      | exact hlength _
      | split <;> rintro ⟨⟩
      | rintro ⟨⟩

/-! ### Filling records and lists -/

theorem mapError_eq_fault_iff {ε δ α : Type} (f : ε → δ) (x : Attempt ε α) :
    x.mapError f = .error .fault ↔ x = .error .fault := by
  rcases x with (e | _) | a
  · exact ⟨nofun, nofun⟩
  · exact ⟨fun _ => rfl, fun _ => rfl⟩
  · exact ⟨nofun, nofun⟩

theorem bind_eq_fault_iff {ε α β : Type} (x : Attempt ε α) (f : α → Attempt ε β) :
    x >>= f = .error .fault ↔ x = .error .fault ∨ ∃ a, x = .ok a ∧ f a = .error .fault := by
  rcases x with (e | _) | a
  · exact ⟨nofun, fun h => h.elim nofun nofun⟩
  · exact ⟨fun _ => .inl rfl, fun _ => rfl⟩
  · exact ⟨fun h => .inr ⟨a, rfl, h⟩, fun h => h.elim nofun fun ⟨_, rfl, h⟩ => h⟩

theorem mapM_eq_fault_iff {ε α β : Type} (f : α → Attempt ε β) (l : List α) :
    l.mapM f = .error .fault ↔ ∃ before a after, l = before ++ a :: after ∧
      (∀ b ∈ before, ∃ c, f b = .ok c) ∧ f a = .error .fault := by
  induction l with
  | nil => exact ⟨nofun, fun ⟨_, _, _, h, _⟩ => by simp at h⟩
  | cons x l ih =>
    rw [List.mapM_cons, bind_eq_fault_iff]
    constructor
    · rintro (hx | ⟨c, hx, hl⟩)
      · exact ⟨[], x, l, rfl, nofun, hx⟩
      · have hl : l.mapM f = .error .fault := by
          rcases (bind_eq_fault_iff _ _).mp hl with hl | ⟨_, _, hl⟩
          · exact hl
          · cases hl
        obtain ⟨before, a, after, rfl, hbefore, ha⟩ := ih.mp hl
        exact ⟨x :: before, a, after, rfl, List.forall_mem_cons.mpr ⟨⟨c, hx⟩, hbefore⟩, ha⟩
    · rintro ⟨before, a, after, heq, hbefore, ha⟩
      cases before with
      | nil =>
        obtain ⟨rfl, rfl⟩ := List.cons.inj heq
        exact .inl ha
      | cons y before =>
        obtain ⟨rfl, rfl⟩ := List.cons.inj heq
        obtain ⟨⟨c, hx⟩, hbefore⟩ := List.forall_mem_cons.mp hbefore
        have hl : (before ++ a :: after).mapM f = .error .fault :=
          ih.mpr ⟨before, a, after, rfl, hbefore, ha⟩
        exact .inr ⟨c, hx, (bind_eq_fault_iff _ _).mpr (.inl hl)⟩

theorem exists_setField_of_fieldValues? {new old : Value} {i : Nat} {path : List Nat}
    (hold : ∃ w, setField new old path = some w) : (v : Value) →
    (∃ vs, v.fieldValues? = some vs ∧ vs[i]? = some old) → ∃ w, setField new v (i :: path) = some w
  | named n v, h => by
    obtain ⟨w, hw⟩ := exists_setField_of_fieldValues? hold v h
    exact ⟨named n w, by rw [setField_named, hw]; rfl⟩
  | record fs values, h => by
    obtain ⟨vs, hvs, hi⟩ := h
    obtain ⟨w, hw⟩ := hold
    obtain rfl := Option.some.inj hvs
    exact ⟨_, by rw [setField_record, hi, Option.bind_some, hw]; rfl⟩
  | time t, h => by
    obtain ⟨vs, hvs, hi⟩ := h
    obtain rfl := Option.some.inj hvs
    obtain ⟨f, hf, -⟩ := List.getElem?_map .. ▸ hi |> Option.map_eq_some_iff.mp
    exact ⟨_, by rw [setField_time, hf]; rfl⟩
  | nil, h | bool _, h | int .., h | float .., h | string _, h | nilPtr _, h | ptr .., h
  | nilSlice _, h | slice .., h | array .., h | nilMap .., h | map .., h => by
    obtain ⟨_, hvs, -⟩ := h
    cases hvs

theorem exists_setField_of_reached? {new old : Value} {i : Nat} {path : List Nat}
    (hold : ∃ w, setField new old path = some w) : (v : Value) →
    (∃ vs, v.reached? = some vs ∧ vs[i]? = some old) → ∃ w, setField new v (i :: path) = some w
  | named n v, h => by
    obtain ⟨w, hw⟩ := exists_setField_of_reached? hold v h
    exact ⟨named n w, by rw [setField_named, hw]; rfl⟩
  | ptr t v, h => by
    obtain ⟨w, hw⟩ := exists_setField_of_fieldValues? hold v h
    exact ⟨ptr t w, by rw [setField_ptr, hw]; rfl⟩
  | record fs values, h => exists_setField_of_fieldValues? hold (record fs values) h
  | time t, h => exists_setField_of_fieldValues? hold (time t) h
  | nil, h | bool _, h | int .., h | float .., h | string _, h | nilPtr _, h | nilSlice _, h
  | slice .., h | array .., h | nilMap .., h | map .., h => by
    obtain ⟨_, hvs, -⟩ := h
    cases hvs

/-- A field that can be reached can be set. -/
theorem exists_setField {new : Value} {path : List Nat} {v old : Value}
    (h : v.fieldAt? path = some old) : ∃ w, setField new v path = some w := by
  induction path generalizing v with
  | nil => exact ⟨new, by rw [setField]⟩
  | cons i path ih =>
    rw [fieldAt?_cons] at h
    obtain ⟨vs, hvs, h⟩ := Option.bind_eq_some_iff.mp h
    obtain ⟨x, hx, h⟩ := Option.bind_eq_some_iff.mp h
    exact exists_setField_of_reached? (ih h) v ⟨vs, hvs, hx⟩

/-- A record that is not filled: the pointer to the record that has the member is nil, or the value
is a list of fewer elements than the member's array has. -/
def Refuses (t : Ty) (obj : Value) (name : Text) (v : Value) : Prop :=
  ∃ f path, t.member? name = some (f, path) ∧
    (obj.fieldAt? path = none ∨
      ((∃ old, obj.fieldAt? path = some old) ∧ f.exported = true ∧ v.TooShort f.type))

theorem setMember_eq_fault_iff (t : Ty) (obj : Value) (name : Text) (v : Value) :
    setMember t obj name v = .error .fault ↔ Refuses t obj name v := by
  unfold setMember Refuses
  cases hm : t.member? name with
  | none => exact ⟨nofun, nofun⟩
  | some hit =>
    obtain ⟨f, path⟩ := hit
    have hhit : ∀ P : Field Ty → List Nat → Prop,
        (∃ f' path', some (f, path) = some (f', path') ∧ P f' path') ↔ P f path := by
      simp
    rw [hhit]
    dsimp only
    cases hf : obj.fieldAt? path with
    | none => exact ⟨fun _ => .inl rfl, fun _ => rfl⟩
    | some old =>
      cases hexported : f.exported with
      | false => exact ⟨nofun, fun h => h.elim nofun nofun⟩
      | true =>
        have hset : ∀ w : Value, ∃ obj', setField w obj path = some obj' :=
          fun w => exists_setField hf
        simp only [Bool.not_true, Bool.false_eq_true, if_false, bind_eq_fault_iff,
          mapError_eq_fault_iff, fit_eq_fault_iff]
        constructor
        · rintro (h | ⟨w, -, h⟩)
          · exact .inr ⟨⟨old, rfl⟩, trivial, h⟩
          · obtain ⟨obj', hobj⟩ := hset w
            rw [hobj] at h
            cases h
        · rintro (h | h)
          · cases h
          · exact .inl h.2.2

/-- What a list is not filled with: a list of fewer elements than an array that its elements are.
The items before it fit. -/
def Overfills (t : Option Ty) (items : List Value) : Prop :=
  ∃ elem before v after, t.map Ty.under = some (.slice elem) ∧ elem ≠ .any ∧
    items = before ++ v :: after ∧
    (∀ w ∈ before, ∃ x, w.fit elem = .ok x) ∧ v.TooShort elem

theorem sliceOf_eq_fault_iff (t : Option Ty) (items : List Value) :
    sliceOf t items = .error .fault ↔ Overfills t items := by
  have hok : ∀ {x : Attempt (Value × Ty) Value} {g : Value × Ty → EvalError},
      (∃ c, x.mapError g = .ok c) ↔ ∃ c, x = .ok c := by
    rintro ((_ | _) | _) g
    · exact ⟨nofun, nofun⟩
    · exact ⟨nofun, nofun⟩
    · exact ⟨fun _ => ⟨_, rfl⟩, fun _ => ⟨_, rfl⟩⟩
  unfold sliceOf Overfills
  cases t with
  | none => simp
  | some t =>
  simp only [Option.map_some, Option.some.injEq]
  split
  · rename_i hu
    simp [hu]
  · rename_i elem hany hu
    simp only [hu, Ty.slice.injEq, bind_eq_fault_iff, mapM_eq_fault_iff, mapError_eq_fault_iff,
      fit_eq_fault_iff, hok]
    constructor
    · rintro (⟨before, v, after, h⟩ | ⟨_, -, h⟩)
      · exact ⟨elem, before, v, after, rfl, hany, h⟩
      · cases h
    · rintro ⟨_, before, v, after, rfl, -, h⟩
      exact .inl ⟨before, v, after, h⟩
  · rename_i hslice
    exact ⟨nofun, fun ⟨elem, _, _, _, hu, _⟩ => absurd hu (hslice elem)⟩

/-! ### Methods -/

/-- Whether a call is one of a built-in method of texts or lists. -/
def isBuiltIn (v : Value) (method : Text) (args : List Value) : Bool :=
  match v with
  | string _ => (textMethod? method).isSome
  | v => v.items?.isSome && args.length = 1 && method = ("Contains" : Text)

theorem textTest_ne_fault (test : Text → Text → Bool) (s : Text) (args : List Value) :
    textTest test s args ≠ .error .fault := by
  unfold textTest
  split <;> nofun

/-- What holds of the results of both branches holds of the result of the choice. -/
theorem forall_mem_ite {α : Type} {P : α → Prop} {c : Prop} [Decidable c] {x y : Option α}
    (hx : ∀ a ∈ x, P a) (hy : ∀ a ∈ y, P a) : ∀ a ∈ (if c then x else y), P a := by
  split
  · exact hx
  · exact hy

theorem textMethod_ne_fault {method : Text} {f : Text → List Value → Attempt EvalError Value}
    (h : textMethod? method = some f) (s : Text) (args : List Value) :
    f s args ≠ .error .fault := by
  have htest : ∀ test : Text → Text → Bool, ∀ f ∈ some (textTest test),
      f s args ≠ .error .fault := by
    rintro test _ ⟨⟩
    exact textTest_ne_fault test s args
  have hmap : ∀ g : Text → Text,
      ∀ f ∈ (some fun s _ => .ok (.string (g s)) : Option (Text → List Value → Attempt _ Value)),
        f s args ≠ .error (.fault : Stop EvalError) := by
    rintro g _ ⟨⟩
    rintro ⟨⟩
  -- one branch for each name, the texts that are mapped first
  have hall : ∀ f ∈ textMethod? method, f s args ≠ .error .fault :=
    forall_mem_ite (hmap _) <| forall_mem_ite (hmap _) <| forall_mem_ite (hmap _) <|
      forall_mem_ite (hmap _) <| forall_mem_ite (hmap _) <| forall_mem_ite (htest _) <|
      forall_mem_ite (htest _) <| forall_mem_ite (htest _) <| forall_mem_ite (htest _) <|
      fun _ hnone => by cases hnone
  exact hall f h

theorem callStatic_ne_fault (method : Text) (args : List Value) :
    callStatic method args ≠ .error .fault := by
  unfold callStatic
  split
  · split <;> nofun
  · nofun

/-- A call of a method that the value declares. -/
def callDeclared (pre : Prelude) (v : Value) (method : Text) (args : List Value) :
    Attempt EvalError Value :=
  match declaredMethod? pre v method with
  | some f => callFunction f method args
  | none => .fail (.noMethod v.type? method)

/-- A call of the method that lists have, which takes one argument, or else the other call. -/
def callOfItems (items : Option (List Value)) (method : Text) (args : List Value)
    (otherwise : Attempt EvalError Value) : Attempt EvalError Value :=
  match items, args with
  | some items, [x] =>
    if method = ("Contains" : Text) then .ok (.bool (holds items x)) else otherwise
  | _, _ => otherwise

theorem callMethod_string (pre : Prelude) (s : Text) (method : Text) (args : List Value) :
    callMethod pre (string s) method args =
      ((textMethod? method).map fun f => f s args).getD
        (callDeclared pre (string s) method args) := by
  unfold callMethod
  cases textMethod? method <;> rfl

theorem callMethod_of_ne {v : Value} (hnil : v ≠ nil) (hs : ∀ s, v ≠ string s) (pre : Prelude)
    (method : Text) (args : List Value) : callMethod pre v method args =
      callOfItems v.items? method args (callDeclared pre v method args) := by
  cases v with
  | nil => exact absurd rfl hnil
  | string s => exact absurd rfl (hs s)
  | _ => rfl

theorem callDeclared_eq_fault_iff (pre : Prelude) (v : Value) (method : Text) (args : List Value) :
    callDeclared pre v method args = .error .fault ↔
      ∃ f, declaredMethod? pre v method = some f ∧ callFunction f method args = .error .fault := by
  unfold callDeclared
  cases declaredMethod? pre v method with
  | none => simp [Attempt.fail]
  | some f => simp

theorem callOfItems_eq_fault_iff (items : Option (List Value)) (method : Text) (args : List Value)
    (otherwise : Attempt EvalError Value) :
    callOfItems items method args otherwise = .error .fault ↔
      (items.isSome && args.length = 1 && method = ("Contains" : Text)) = false ∧
        otherwise = .error .fault := by
  unfold callOfItems
  split
  · by_cases hm : method = ("Contains" : Text)
    · simp [hm]
    · simp [hm]
  · rename_i hno
    have hfalse : (items.isSome && args.length = 1) = false := by
      rw [Bool.and_eq_false_iff, decide_eq_false_iff_not]
      by_contra h
      rw [not_or, not_not, Bool.not_eq_false, Option.isSome_iff_exists] at h
      obtain ⟨⟨l, hl⟩, hlen⟩ := h
      obtain ⟨x, rfl⟩ := List.length_eq_one_iff.mp hlen
      exact hno l x hl rfl
    rw [hfalse, Bool.false_and]
    exact ⟨fun h => ⟨rfl, h⟩, And.right⟩

/-- A call of a method of nil, or of a declared method that faults. -/
theorem callMethod_eq_fault_iff (pre : Prelude) (v : Value) (method : Text) (args : List Value) :
    callMethod pre v method args = .error .fault ↔ v = nil ∨ v.isBuiltIn method args = false ∧
      ∃ f, declaredMethod? pre v method = some f ∧ callFunction f method args = .error .fault := by
  rw [← callDeclared_eq_fault_iff]
  by_cases hnil : v = nil
  · subst hnil
    exact ⟨fun _ => .inl rfl, fun _ => rfl⟩
  rw [or_iff_right hnil]
  by_cases hs : ∃ s, v = string s
  · obtain ⟨s, rfl⟩ := hs
    rw [callMethod_string, isBuiltIn]
    cases hm : textMethod? method with
    | none => simp
    | some f =>
      have hanswers : f s args ≠ .error .fault := textMethod_ne_fault hm s args
      simp [hanswers]
  · have hbuilt : v.isBuiltIn method args =
        (v.items?.isSome && args.length = 1 && method = ("Contains" : Text)) := by
      cases v with
      | string s => exact absurd ⟨s, rfl⟩ hs
      | _ => rfl
    rw [callMethod_of_ne hnil (fun s h => hs ⟨s, h⟩), hbuilt]
    exact callOfItems_eq_fault_iff _ _ _ _

/-! ### Unary operators -/

theorem unaryOp_eq_fault_iff (op : UnaryOp) (v : Value) (t : Option Ty) :
    unaryOp op v t = .error .fault ↔
      op = .convert ∧ ∃ u, t = some u ∧ (v.TooShort u ∨ ∃ e, u.under = .ptr e ∧ v.TooShort e) := by
  rw [← convertTo_eq_fault_iff]
  cases op with
  | convert => exact ⟨fun h => ⟨rfl, h⟩, And.right⟩
  | negate =>
    have hsubtract : ∀ a : Value, arith .subtract a v ≠ .error .fault := fun a h => by
      cases ((arith_eq_fault_iff _ _ _).mp h).1
    exact ⟨fun h => absurd h (hsubtract _), nofun⟩
  | not | onesComplement | arrayLength =>
    refine ⟨fun h => ?_, nofun⟩
    unfold unaryOp at h
    dsimp only at h
    split at h
    · first
        | cases h
        | (split at h <;> cases h)
    · cases h
  | _ => exact ⟨nofun, nofun⟩

end Value

namespace Expr

open Value

variable {pre : Prelude}

/-! ### Traps -/

/-- An expression that faults although its operands have values. -/
inductive Trap (pre : Prelude) : Expr → Prop
  /-- A member of a record behind a nil pointer. -/
  | member {e : Expr} {name : Text} {t owner : Option Ty} {v : Value} (he : e.eval pre = .ok v)
    (h : v.Loses name) : Trap pre (.member e name t owner)
  /-- A list indexed by a floating point number. -/
  | index {l r : Expr} {a b : Value} (hl : l.eval pre = .ok a) (hr : r.eval pre = .ok b)
    (h : MisIndexed a b) : Trap pre (.binary .arrayIndex l r)
  /-- A list converted to an array that is longer. -/
  | convert {e : Expr} {u : Ty} {v : Value} (he : e.eval pre = .ok v)
    (h : v.TooShort u ∨ ∃ w, u.under = .ptr w ∧ v.TooShort w) :
    Trap pre (.unary .convert e (some u))
  /-- A method of nil. -/
  | nilMethod {receiver : Expr} {method : Text} {args : List Expr} {t : Option Ty}
    {vs : List Value} (hr : receiver.isHole = false) (hargs : evalAll pre args = .ok vs)
    (h : receiver.eval pre = .ok .nil) : Trap pre (.call receiver method args t none)
  /-- A declared method that faults. -/
  | method {receiver : Expr} {method : Text} {args : List Expr} {t : Option Ty} {v : Value}
    {vs : List Value} {f : Function} (hr : receiver.isHole = false)
    (hargs : evalAll pre args = .ok vs) (hv : receiver.eval pre = .ok v)
    (hbuilt : v.isBuiltIn method vs = false) (hf : declaredMethod? pre v method = some f)
    (h : callFunction f method vs = .error .fault) : Trap pre (.call receiver method args t none)
  /-- A static function that faults. -/
  | function {receiver : Expr} {name method : Text} {args : List Expr} {t : Option Ty}
    {vs : List Value} {f : Function} (hargs : evalAll pre args = .ok vs)
    (hf : pre.callee? name = some (.function f)) (h : callFunction f method vs = .error .fault) :
    Trap pre (.call receiver method args t (some name))
  /-- A list of arrays with an item that is a shorter list. -/
  | list {es : List Expr} {t : Option Ty} {vs : List Value} (hes : evalAll pre es = .ok vs)
    (h : Overfills t vs) : Trap pre (.list t es)
  | array {es : List Expr} {t : Option Ty} {vs : List Value} (hes : evalAll pre es = .ok vs)
    (h : Overfills t vs) : Trap pre (.array t es)
  /-- A record with a binding that cannot be set, after those before it have been set. -/
  | new {t : Option Ty} {u : Ty} {before after : List (Text × Expr)} {name : Text} {e : Expr}
    {obj v : Value} (ht : recordType? t = some u)
    (hbefore : evalMembers pre u u.zero before = .ok obj) (he : e.eval pre = .ok v)
    (h : Refuses u obj name v) :
    Trap pre (.new t (before ++ (name, e) :: after))
  | init {t : Option Ty} {u : Ty} {before after : List (Text × Expr)} {name : Text} {e : Expr}
    {obj v : Value} (ht : recordType? t = some u)
    (hbefore : evalMembers pre u u.zero before = .ok obj) (he : e.eval pre = .ok v)
    (h : Refuses u obj name v) :
    Trap pre (.init t (before ++ (name, e) :: after))

/-- Bindings of which one cannot be set fault. -/
theorem evalMembers_of_refuses {t : Ty} {start obj v : Value} {before after : List (Text × Expr)}
    {name : Text} {e : Expr} (hbefore : evalMembers pre t start before = .ok obj)
    (he : e.eval pre = .ok v) (h : Refuses t obj name v) :
    evalMembers pre t start (before ++ (name, e) :: after) = .error .fault := by
  induction before generalizing start with
  | nil =>
    cases hbefore
    rw [List.nil_append, evalMembers, he]
    show (setMember t obj name v >>= _) = _
    rw [(setMember_eq_fault_iff _ _ _ _).mpr h]
    rfl
  | cons b before ih =>
    obtain ⟨name', e'⟩ := b
    rw [evalMembers] at hbefore
    rw [List.cons_append, evalMembers]
    cases he' : e'.eval pre with
    | error cause =>
      rw [he'] at hbefore
      cases hbefore
    | ok w =>
      rw [he'] at hbefore
      cases hset : setMember t start name' w with
      | error cause =>
        have hstop : (setMember t start name' w >>= fun o => evalMembers pre t o before) =
            .ok obj := hbefore
        rw [hset] at hstop
        cases hstop
      | ok start' =>
        have hgo : (setMember t start name' w >>= fun o => evalMembers pre t o before) =
            .ok obj := hbefore
        rw [hset] at hgo
        show (setMember t start name' w >>= fun o =>
          evalMembers pre t o (before ++ (name, e) :: after)) = _
        rw [hset]
        exact ih hgo

/-- A trap faults. -/
theorem Trap.eval {e : Expr} (h : e.Trap pre) : e.eval pre = .error .fault := by
  cases h with
  | @member e name t owner v he h =>
    have hhole : e.isHole = false := by
      cases e with
      | hole =>
        cases he
        obtain ⟨_, _, _, _, hr, -⟩ := h
        cases hr
      | _ => rfl
    rw [Expr.eval, hhole, he]
    exact (member_eq_fault_iff v name).mpr h
  | @index l r a b hl hr h =>
    rw [Expr.eval, hl]
    show (r.eval pre >>= fun b => arith .arrayIndex a b) = _
    rw [hr]
    exact (arith_eq_fault_iff _ _ _).mpr ⟨rfl, h⟩
  | @convert e u v he h =>
    rw [Expr.eval, he]
    exact (unaryOp_eq_fault_iff _ _ _).mpr ⟨rfl, u, rfl, h⟩
  | @nilMethod receiver method args t vs hr hargs h =>
    rw [Expr.eval, hargs]
    show (if receiver.isHole then _ else receiver.eval pre >>= fun v =>
      callMethod pre v method vs) = _
    rw [hr, h]
    rfl
  | @method receiver method args t v vs f hr hargs hv hbuilt hf h =>
    rw [Expr.eval, hargs]
    show (if receiver.isHole then _ else receiver.eval pre >>= fun v =>
      callMethod pre v method vs) = _
    rw [hr, hv]
    exact (callMethod_eq_fault_iff _ _ _ _).mpr (.inr ⟨hbuilt, f, hf, h⟩)
  | @function receiver name method args t vs f hargs hf h =>
    rw [Expr.eval, hargs]
    simp only [hf]
    exact h
  | @list es t vs hes h =>
    rw [Expr.eval, hes]
    exact (sliceOf_eq_fault_iff t vs).mpr h
  | @array es t vs hes h =>
    rw [Expr.eval, hes]
    exact (sliceOf_eq_fault_iff t vs).mpr h
  | new ht hbefore he h =>
    rw [Expr.eval, ht]
    exact evalMembers_of_refuses hbefore he h
  | init ht hbefore he h =>
    rw [Expr.eval, ht]
    exact evalMembers_of_refuses hbefore he h

mutual

/-- An evaluation faults only at a trap. -/
theorem exists_trap : (e : Expr) → e.eval pre = .error .fault → ∃ y ∈ e.walk, y.Trap pre
  | hole, h | const .., h | param _, h | lambda .., h | invoke .., h => by
    rw [Expr.eval] at h
    cases h
  | member e name t owner, h => by
    rw [Expr.eval] at h
    split at h
    · cases h
    rcases (bind_eq_fault_iff _ _).mp h with he | ⟨v, he, h⟩
    · obtain ⟨y, hy, htrap⟩ := exists_trap e he
      exact ⟨y, by simp [walk, hy], htrap⟩
    · exact ⟨_, List.mem_cons_self, .member he ((member_eq_fault_iff v name).mp h)⟩
  | binary op l r, h => by
    rw [Expr.eval] at h
    rcases (bind_eq_fault_iff _ _).mp h with hl | ⟨a, hl, h⟩
    · obtain ⟨y, hy, htrap⟩ := exists_trap l hl
      exact ⟨y, by simp [walk, hy], htrap⟩
    -- whatever the operator, the right operand may fault
    have right : r.eval pre = .error .fault → ∃ y ∈ (binary op l r).walk, y.Trap pre := by
      intro hr
      obtain ⟨y, hy, htrap⟩ := exists_trap r hr
      exact ⟨y, by simp [walk, hy], htrap⟩
    split at h
    · split at h
      · cases h
      split at h
      · cases h
      split at h
      · cases h
      rcases (bind_eq_fault_iff _ _).mp h with hr | ⟨b, -, h⟩
      · exact right hr
      · split at h <;> cases h
    split at h
    · cases h
    rcases (bind_eq_fault_iff _ _).mp h with hr | ⟨b, hr, h⟩
    · exact right hr
    split at h
    · split at h <;> cases h
    · obtain ⟨rfl, hindex⟩ := (arith_eq_fault_iff op a b).mp h
      exact ⟨_, List.mem_cons_self, .index hl hr hindex⟩
  | unary op e t, h => by
    rw [Expr.eval] at h
    rcases (bind_eq_fault_iff _ _).mp h with he | ⟨v, he, h⟩
    · obtain ⟨y, hy, htrap⟩ := exists_trap e he
      exact ⟨y, by simp [walk, hy], htrap⟩
    · obtain ⟨rfl, u, rfl, hshort⟩ := (unaryOp_eq_fault_iff _ _ _).mp h
      exact ⟨_, List.mem_cons_self, .convert he hshort⟩
  | call receiver method args t callee, h => by
    rw [Expr.eval] at h
    rcases (bind_eq_fault_iff _ _).mp h with hargs | ⟨vs, hargs, h⟩
    · obtain ⟨y, hy, htrap⟩ := exists_trap_all args hargs
      exact ⟨y, by simp [walk, hy], htrap⟩
    split at h
    · rename_i name
      split at h
      · rename_i f hf
        exact ⟨_, List.mem_cons_self, .function hargs hf h⟩
      · cases h
      · cases h
    split at h
    · exact absurd h (callStatic_ne_fault method vs)
    · rename_i hhole
      rcases (bind_eq_fault_iff _ _).mp h with hr | ⟨v, hr, h⟩
      · obtain ⟨y, hy, htrap⟩ := exists_trap receiver hr
        exact ⟨y, by simp [walk, hy], htrap⟩
      rw [Bool.not_eq_true] at hhole
      rcases (callMethod_eq_fault_iff _ _ _ _).mp h with rfl | ⟨hbuilt, f, hf, h⟩
      · exact ⟨_, List.mem_cons_self, .nilMethod hhole hargs hr⟩
      · exact ⟨_, List.mem_cons_self, .method hhole hargs hr hbuilt hf h⟩
  | cond c a b, h => by
    rw [Expr.eval] at h
    rcases (bind_eq_fault_iff _ _).mp h with hc | ⟨v, hc, h⟩
    · obtain ⟨y, hy, htrap⟩ := exists_trap c hc
      exact ⟨y, by simp [walk, hy], htrap⟩
    split at h
    · cases h
    · obtain ⟨y, hy, htrap⟩ := exists_trap a h
      exact ⟨y, by simp [walk, hy], htrap⟩
    · obtain ⟨y, hy, htrap⟩ := exists_trap b h
      exact ⟨y, by simp [walk, hy], htrap⟩
  | list t es, h => by
    rw [Expr.eval] at h
    rcases (bind_eq_fault_iff _ _).mp h with hes | ⟨vs, hes, h⟩
    · obtain ⟨y, hy, htrap⟩ := exists_trap_all es hes
      exact ⟨y, by simp [walk, hy], htrap⟩
    · exact ⟨_, List.mem_cons_self, .list hes ((sliceOf_eq_fault_iff t vs).mp h)⟩
  | array t es, h => by
    rw [Expr.eval] at h
    rcases (bind_eq_fault_iff _ _).mp h with hes | ⟨vs, hes, h⟩
    · obtain ⟨y, hy, htrap⟩ := exists_trap_all es hes
      exact ⟨y, by simp [walk, hy], htrap⟩
    · exact ⟨_, List.mem_cons_self, .array hes ((sliceOf_eq_fault_iff t vs).mp h)⟩
  | new t bs, h => by
    rw [Expr.eval] at h
    split at h
    · rename_i u ht
      rcases exists_trap_members u u.zero bs h with ⟨y, hy, htrap⟩ | hrefuses
      · exact ⟨y, by simp [walk, hy], htrap⟩
      · obtain ⟨before, name, e, after, obj, v, rfl, hbefore, he, hrefuses⟩ := hrefuses
        exact ⟨_, List.mem_cons_self, .new ht hbefore he hrefuses⟩
    · obtain ⟨y, hy, htrap⟩ := exists_trap_entries [] bs h
      exact ⟨y, by simp [walk, hy], htrap⟩
  | init t bs, h => by
    rw [Expr.eval] at h
    split at h
    · rename_i u ht
      rcases exists_trap_members u u.zero bs h with ⟨y, hy, htrap⟩ | hrefuses
      · exact ⟨y, by simp [walk, hy], htrap⟩
      · obtain ⟨before, name, e, after, obj, v, rfl, hbefore, he, hrefuses⟩ := hrefuses
        exact ⟨_, List.mem_cons_self, .init ht hbefore he hrefuses⟩
    · obtain ⟨y, hy, htrap⟩ := exists_trap_entries [] bs h
      exact ⟨y, by simp [walk, hy], htrap⟩

theorem exists_trap_all : (es : List Expr) → evalAll pre es = .error .fault →
    ∃ y ∈ walkAll es, y.Trap pre
  | [], h => by
    rw [evalAll] at h
    cases h
  | e :: es, h => by
    rw [evalAll] at h
    rcases (bind_eq_fault_iff _ _).mp h with he | ⟨v, -, h⟩
    · obtain ⟨y, hy, htrap⟩ := exists_trap e he
      exact ⟨y, by simp [walkAll, hy], htrap⟩
    rcases (bind_eq_fault_iff _ _).mp h with hes | ⟨vs, -, h⟩
    · obtain ⟨y, hy, htrap⟩ := exists_trap_all es hes
      exact ⟨y, by simp [walkAll, hy], htrap⟩
    · cases h

theorem exists_trap_entries (entries : List (MapKey × Value)) : (bs : List (Text × Expr)) →
    evalEntries pre entries bs = .error .fault → ∃ y ∈ walkBindings bs, y.Trap pre
  | [], h => by
    rw [evalEntries] at h
    cases h
  | (name, e) :: bs, h => by
    rw [evalEntries] at h
    rcases (bind_eq_fault_iff _ _).mp h with he | ⟨v, -, h⟩
    · obtain ⟨y, hy, htrap⟩ := exists_trap e he
      exact ⟨y, by simp [walkBindings, hy], htrap⟩
    · obtain ⟨y, hy, htrap⟩ := exists_trap_entries _ bs h
      exact ⟨y, by simp [walkBindings, hy], htrap⟩

/-- Bindings fault at a trap, or where a value cannot be set. -/
theorem exists_trap_members (t : Ty) (start : Value) : (bs : List (Text × Expr)) →
    evalMembers pre t start bs = .error .fault → (∃ y ∈ walkBindings bs, y.Trap pre) ∨
      ∃ before name e after obj v, bs = before ++ (name, e) :: after ∧
        evalMembers pre t start before = .ok obj ∧ e.eval pre = .ok v ∧ Refuses t obj name v
  | [], h => by
    rw [evalMembers] at h
    cases h
  | (name, e) :: bs, h => by
    rw [evalMembers] at h
    rcases (bind_eq_fault_iff _ _).mp h with he | ⟨v, he, h⟩
    · obtain ⟨y, hy, htrap⟩ := exists_trap e he
      exact .inl ⟨y, by simp [walkBindings, hy], htrap⟩
    rcases (bind_eq_fault_iff _ _).mp h with hset | ⟨obj, hset, h⟩
    · have hrefuses := (setMember_eq_fault_iff t start name v).mp hset
      exact .inr ⟨[], name, e, bs, start, v, rfl, by rw [evalMembers], he, hrefuses⟩
    rcases exists_trap_members t obj bs h with ⟨y, hy, htrap⟩ | hstop
    · exact .inl ⟨y, by simp [walkBindings, hy], htrap⟩
    · obtain ⟨before, name', e', after, obj', v', rfl, hbefore, he', hrefuses⟩ := hstop
      refine .inr ⟨(name, e) :: before, name', e', after, obj', v', rfl, ?_, he', hrefuses⟩
      rw [evalMembers, he]
      show (setMember t start name v >>= fun o => evalMembers pre t o before) = _
      rw [hset]
      exact hbefore

end

end Expr

end QueryTree
