import QueryTree.Proofs.Paired

/-!
# Tests without rows that vary

A conditional decides its test at once when the test depends on no row. The strings of such a test
could decide it, but not where every operator and call that holds a varying string depends on a row:
what is left are constants, lists and shapes, and these are no truth values. They may still fail or
fault, though, and whether they do must not depend on the strings either. Storing a string in a slot
may turn it into bytes, of which there are more or fewer; but a slot is only ever written along a
path of records, and the records and pointers that two evaluations build are the same.

## Main definitions

* `Value.Alike`: values of the same type with the same records and pointers
* `Value.Kin`: such values that convert alike
* `Expr.Settled`: an operation that holds a varying string depends on a row

## Main results

* `Expr.Varies.eval`: two evaluations fail alike or yield values of a kind
* `Expr.Varies.closedTruth?`: a test without rows is decided alike
-/

namespace QueryTree

namespace Value

/-! ### Values of one shape

Two values have one shape when paths lead to the same places in both. Lengths of lists do not
matter, since no path leads into a list. -/

/-- Whether the value has neither a name nor fields, its own or those behind a pointer. -/
def isFlat : Value → Bool
  | ptr .. | record .. | named .. => false
  | _ => true

/-- Whether the value is a record, perhaps of a named type. -/
def isRecord (v : Value) : Bool :=
  match v.under with
  | record .. => true
  | _ => false

mutual

/-- Values of the same type with the same records and pointers. -/
inductive Alike : Value → Value → Prop
  | flat {v w : Value} (ht : v.type? = w.type?) (hv : v.isFlat = true) (hw : w.isFlat = true) :
    Alike v w
  | named (n : TypeName) {v w : Value} (h : Alike v w) : Alike (named n v) (named n w)
  | ptr (t : Ty) {v w : Value} (h : Alike v w) : Alike (ptr t v) (ptr t w)
  | record (fs : List (Field Ty)) {vs ws : List Value} (h : AlikeAll vs ws) :
    Alike (record fs vs) (record fs ws)

/-- Lists of such values. -/
inductive AlikeAll : List Value → List Value → Prop
  | nil : AlikeAll [] []
  | cons {v w : Value} {vs ws : List Value} (h : Alike v w) (hs : AlikeAll vs ws) :
    AlikeAll (v :: vs) (w :: ws)

end

mutual

theorem Alike.refl : (v : Value) → Alike v v
  | ptr t v => .ptr t (.refl v)
  | record fs vs => .record fs (.refl vs)
  | named n v => .named n (.refl v)
  | nil | bool _ | int .. | float .. | string _ | time _ | nilPtr _ | nilSlice _ | slice .. |
    array ..
  | nilMap .. | map .. => .flat rfl rfl rfl

theorem AlikeAll.refl : (vs : List Value) → AlikeAll vs vs
  | [] => .nil
  | v :: vs => .cons (.refl v) (.refl vs)

end

theorem Alike.type? {v w : Value} (h : Alike v w) : v.type? = w.type? := by
  cases h with
  | flat ht => exact ht
  | ptr | record => rfl
  | named _ h => rw [Value.type?, Value.type?, h.type?]

theorem under_of_isFlat {v : Value} (h : v.isFlat = true) : v.under = v := by
  cases v with
  | named => cases h
  | _ => rfl

/-- Below the names, both are flat, pointers, or records. -/
theorem Alike.under : {v w : Value} → Alike v w → Alike v.under w.under
  | _, _, .flat ht hv hw => by
    rw [under_of_isFlat hv, under_of_isFlat hw]
    exact .flat ht hv hw
  | _, _, .named _ h => h.under
  | _, _, .ptr t h => .ptr t h
  | _, _, .record fs h => .record fs h

theorem AlikeAll.getElem? : {vs ws : List Value} → AlikeAll vs ws → (i : Nat) →
    Option.Rel Alike vs[i]? ws[i]?
  | _, _, .nil, _ => .none
  | _, _, .cons h _, 0 => .some h
  | _, _, .cons _ hs, i + 1 => hs.getElem? i

theorem AlikeAll.set {x y : Value} (hxy : Alike x y) : {vs ws : List Value} → AlikeAll vs ws →
    (i : Nat) → AlikeAll (vs.set i x) (ws.set i y)
  | _, _, .nil, _ => .nil
  | _, _, .cons _ hs, 0 => .cons hxy hs
  | _, _, .cons h hs, i + 1 => .cons h (hs.set hxy i)

theorem bind_rel {α β : Type} {R : α → α → Prop} {S : β → β → Prop} {x y : Option α}
    {f g : α → Option β} (h : Option.Rel R x y) (hf : ∀ a b, R a b → Option.Rel S (f a) (g b)) :
    Option.Rel S (x.bind f) (y.bind g) := by
  cases h with
  | none => exact .none
  | some h => exact hf _ _ h

theorem map_rel {α β : Type} {R : α → α → Prop} {S : β → β → Prop} {x y : Option α} {f g : α → β}
    (h : Option.Rel R x y) (hf : ∀ a b, R a b → S (f a) (g b)) :
    Option.Rel S (x.map f) (y.map g) := by
  cases h with
  | none => exact .none
  | some h => exact .some (hf _ _ h)

/-! ### Fields

A field is set along a path. On both sides the path is there or is missing. -/

theorem fieldAt?_cons (v : Value) (i : Nat) (path : List Nat) :
    v.fieldAt? (i :: path) = v.reached?.bind fun vs => vs[i]?.bind fun v => v.fieldAt? path := rfl

theorem eq_time_of_type? {v : Value} (h : v.type? = some .time) : ∃ t, v = time t := by
  cases v with
  | time t => exact ⟨t, rfl⟩
  | named n v =>
    obtain ⟨u, -, hu⟩ := Option.map_eq_some_iff.mp h
    cases hu
  | _ => cases h

/-- Only a time has hidden fields, which do not depend on what time it is. -/
theorem fieldValues?_of_isFlat {v w : Value} (hv : v.isFlat = true) (hw : w.isFlat = true)
    (ht : v.type? = w.type?) : v.fieldValues? = w.fieldValues? := by
  have plain : ∀ {u : Value}, u.isFlat = true → u.type? ≠ some .time → u.fieldValues? = none := by
    intro u hu hne
    rw [fieldValues?, under_of_isFlat hu]
    cases u with
    | ptr | record | named => cases hu
    | time => exact absurd rfl hne
    | _ => rfl
  by_cases htime : v.type? = some .time
  · obtain ⟨t, rfl⟩ := eq_time_of_type? htime
    obtain ⟨u, rfl⟩ := eq_time_of_type? (ht ▸ htime)
    rfl
  · rw [plain hv htime, plain hw (ht ▸ htime)]

theorem rel_refl {α : Type} {R : α → α → Prop} (h : ∀ a, R a a) : (x : Option α) → Option.Rel R x x
  | none => .none
  | some a => .some (h a)

theorem Alike.fieldValues? : {v w : Value} → Alike v w →
    Option.Rel AlikeAll v.fieldValues? w.fieldValues?
  | _, _, .flat ht hv hw => by
    rw [fieldValues?_of_isFlat hv hw ht]
    exact rel_refl .refl _
  | _, _, .named _ h => h.fieldValues?
  | _, _, .ptr .. => .none
  | _, _, .record _ h => .some h

theorem reached?_of_isFlat {v : Value} (h : v.isFlat = true) : v.reached? = v.fieldValues? := by
  rw [reached?, under_of_isFlat h]
  cases v with
  | ptr => cases h
  | _ => rfl

theorem Alike.reached? : {v w : Value} → Alike v w → Option.Rel AlikeAll v.reached? w.reached?
  | _, _, .flat ht hv hw => by
    rw [reached?_of_isFlat hv, reached?_of_isFlat hw]
    exact (Alike.flat ht hv hw).fieldValues?
  | _, _, .named _ h => h.reached?
  | _, _, .ptr _ h => h.fieldValues?
  | _, _, .record _ h => .some h

theorem Alike.fieldAt? {v w : Value} (h : Alike v w) (path : List Nat) :
    Option.Rel Alike (v.fieldAt? path) (w.fieldAt? path) := by
  induction path generalizing v w with
  | nil =>
    rw [Value.fieldAt?, Value.fieldAt?]
    exact .some h
  | cons i path ih =>
    rw [fieldAt?_cons, fieldAt?_cons]
    exact bind_rel h.reached? fun _ _ hs => bind_rel (hs.getElem? i) fun _ _ => ih

/-- Only a time has fields that are no fields of a record, and they stay as they are. -/
theorem setField_of_isFlat {new v : Value} (h : v.isFlat = true) (i : Nat) (path : List Nat) :
    setField new v (i :: path) =
      if v.type? = some .time then (Ty.timeFields[i]?).map fun _ => v else none := by
  cases v with
  | ptr | record | named => cases h
  | time t => simp [setField, Value.type?]
  | _ => simp [setField, Value.type?]

theorem setField_named (new v : Value) (n : TypeName) (i : Nat) (path : List Nat) :
    setField new (named n v) (i :: path) = (setField new v (i :: path)).map (named n) := by
  simp only [setField]

theorem setField_ptr (new v : Value) (t : Ty) (i : Nat) (path : List Nat) :
    setField new (ptr t v) (i :: path) = (setField new v (i :: path)).map (ptr t) := by
  simp only [setField]

theorem setField_record (new : Value) (fs : List (Field Ty)) (vs : List Value) (i : Nat)
    (path : List Nat) : setField new (record fs vs) (i :: path) = vs[i]?.bind fun old =>
      (setField new old path).bind fun v => some (record fs (vs.set i v)) := by
  rw [setField]
  rfl

theorem setField_time (new : Value) (t : Instant) (i : Nat) (path : List Nat) :
    setField new (time t) (i :: path) = (Ty.timeFields[i]?).map fun _ => time t := by
  simp only [setField]

/-- One more step of a path, by recursion on the names and pointers above the record. -/
theorem Alike.setField_cons {new new' : Value} {i : Nat} {path : List Nat}
    (ih : ∀ {v w : Value}, Alike v w →
      Option.Rel Alike (setField new v path) (setField new' w path)) : {v w : Value} → Alike v w →
      Option.Rel Alike (setField new v (i :: path)) (setField new' w (i :: path))
  | v, w, .flat ht hv hw => by
    rw [setField_of_isFlat hv, setField_of_isFlat hw, ← ht]
    split
    · exact map_rel (R := Eq) (rel_refl (fun _ => rfl) _) fun _ _ _ => .flat ht hv hw
    · exact .none
  | _, _, .named n h => by
    rw [setField_named, setField_named]
    exact map_rel (setField_cons ih h) fun _ _ => .named n
  | _, _, .ptr t h => by
    rw [setField_ptr, setField_ptr]
    exact map_rel (setField_cons ih h) fun _ _ => .ptr t
  | _, _, .record fs h => by
    rw [setField_record, setField_record]
    exact bind_rel (h.getElem? i) fun _ _ hold => bind_rel (ih hold) fun _ _ hv =>
      .some (.record fs (h.set hv i))

theorem Alike.setField {new new' v w : Value} (hnew : Alike new new') (h : Alike v w)
    (path : List Nat) : Option.Rel Alike (setField new v path) (setField new' w path) := by
  induction path generalizing v w with
  | nil =>
    rw [Value.setField, Value.setField]
    exact .some hnew
  | cons i path ih => exact setField_cons ih h

/-- A record stays one when a field is set. -/
theorem isRecord_of_setField {new w : Value} {i : Nat} {path : List Nat} : (v : Value) →
    v.isRecord = true → setField new v (i :: path) = some w → w.isRecord = true
  | named n v, h, hset => by
    rw [setField_named] at hset
    obtain ⟨u, hu, rfl⟩ := Option.map_eq_some_iff.mp hset
    exact isRecord_of_setField (w := u) v h hu
  | record fs vs, _, hset => by
    rw [setField_record] at hset
    obtain ⟨old, -, hset⟩ := Option.bind_eq_some_iff.mp hset
    obtain ⟨u, -, hset⟩ := Option.bind_eq_some_iff.mp hset
    cases hset
    rfl

theorem Alike.isRecord : {v w : Value} → Alike v w → v.isRecord = w.isRecord
  | _, _, .flat _ hv hw => by
    have hflat : ∀ {u : Value}, u.isFlat = true → u.isRecord = false := by
      intro u hu
      cases u with
      | record | named => cases hu
      | _ => rfl
    rw [hflat hv, hflat hw]
  | _, _, .named _ h => h.isRecord
  | _, _, .ptr .. | _, _, .record .. => rfl

/-! ### Conversion

Converting a list to an array depends on the length of the list. This is why bytes are set apart. -/

theorem Alike.wrapNames {v w : Value} (h : Alike v w) (t : Ty) :
    Alike (wrapNames t v) (wrapNames t w) := by
  fun_induction Value.wrapNames t v with
  | case1 n t v ih => exact .named n (ih h)
  | case2 t v hn =>
    rw [Value.wrapNames]
    · exact h
    · exact hn

/-- Values of one shape that convert alike. Bytes that came from a string are not among them: there
may be more of them on one side, and not enough for an array on the other. -/
inductive Kin : Value → Value → Prop
  | same (v : Value) : Kin v v
  | text (a b : Text) : Kin (string a) (string b)
  | slice (u t : Ty) {vs ws : List Value} (h : vs.length = ws.length) :
    Kin (wrapNames u (slice t vs)) (wrapNames u (slice t ws))
  | map (k t : Ty) (es es' : List (MapKey × Value)) : Kin (map k t es) (map k t es')
  | record {v w : Value} (h : Alike v w) (hv : v.isRecord = true) : Kin v w

theorem Kin.alike {v w : Value} (h : Kin v w) : Alike v w := by
  cases h with
  | same => exact .refl v
  | slice u t h =>
    refine Alike.wrapNames (.flat ?_ rfl rfl) u
    rw [Value.type?, Value.type?]
  | text | map => exact .flat rfl rfl rfl
  | record h => exact h

theorem truth_of_isRecord {v : Value} (h : v.isRecord = true) : v.truth = none := by
  cases v with
  | bool => cases h
  | _ => rfl

theorem Kin.truth {v w : Value} (h : v.Kin w) : v.truth = w.truth := by
  cases h with
  | same | text | map => rfl
  | slice u t h => cases u <;> rfl
  | record h hv => rw [truth_of_isRecord hv, truth_of_isRecord (h.isRecord ▸ hv)]

theorem convertUnder_text (a b : Text) (t : Ty) :
    Outcomes Alike (convertUnder (string a) t) (convertUnder (string b) t) := by
  cases t with
  | slice e =>
    cases e with
    | int k => cases k <;> exact .returned (.flat rfl rfl rfl)
    | _ => exact .returned (.flat rfl rfl rfl)
  | _ => exact .returned (.flat rfl rfl rfl)

/-- What a list becomes: a text, the start of an array, or what it is. -/
theorem convertUnder_slice (e : Ty) {vs ws : List Value} (h : vs.length = ws.length) (t : Ty) :
    Outcomes Alike (convertUnder (slice e vs) t) (convertUnder (slice e ws) t) := by
  have taken : ∀ n, Outcomes Alike (arrayOf e vs n) (arrayOf e ws n) := by
    intro n
    rw [arrayOf, arrayOf, ← h]
    split
    · refine .returned (.flat ?_ rfl rfl)
      rw [Value.type?, Value.type?, List.length_take, List.length_take, h]
    · exact .failed _
  cases t with
  | string =>
    cases e with
    | int k => cases k <;> exact .returned (.flat rfl rfl rfl)
    | _ => exact .returned (.flat rfl rfl rfl)
  | array n t =>
    rw [convertUnder_slice_array, convertUnder_slice_array]
    exact taken n
  | ptr u =>
    rw [convertUnder_slice_ptr, convertUnder_slice_ptr]
    split
    · exact (taken _).map fun _ _ h => .ptr _ (h.wrapNames _)
    · exact .returned (.flat rfl rfl rfl)
  | _ =>
    cases e with
    | int k => cases k <;> exact .returned (.flat rfl rfl rfl)
    | _ => exact .returned (.flat rfl rfl rfl)

theorem convertUnder_record (fs : List (Field Ty)) {vs ws : List Value} (h : AlikeAll vs ws)
    (t : Ty) :
    Outcomes Alike (convertUnder (.record fs vs) t) (convertUnder (.record fs ws) t) := by
  cases t with
  | record fs' => exact .returned (.record fs' h)
  | _ => exact .returned (.record fs h)

theorem convert_of_ne_ptr {v : Value} (h : ∀ t u, v ≠ ptr t u) (t : Ty) :
    v.convert t = if t.under = .any || v.type? = some t then .ok v
      else (convertUnder v.under t.under).map (wrapNames t) := by
  cases v with
  | ptr t u => exact absurd rfl (h t u)
  | _ => rfl

theorem wrapNames_slice_ne_ptr (u e : Ty) (vs : List Value) (t : Ty) (v : Value) :
    wrapNames u (slice e vs) ≠ ptr t v := by
  cases u <;> nofun

theorem ne_ptr_of_isRecord {v : Value} (h : v.isRecord = true) (t : Ty) (u : Value) :
    v ≠ ptr t u := by
  rintro rfl
  cases h

theorem Kin.convertUnder {v w : Value} (h : Kin v w) (t : Ty) :
    Outcomes Alike (Value.convertUnder v.under t) (Value.convertUnder w.under t) := by
  cases h with
  | same => exact Outcomes.refl .refl _
  | text a b => exact convertUnder_text a b t
  | slice u e h =>
    rw [under_wrapNames, under_wrapNames]
    exact convertUnder_slice e h t
  | map k e es es' => cases t <;> exact .returned (.flat rfl rfl rfl)
  | record h hv =>
    have hw := h.isRecord ▸ hv
    have hu := h.under
    rw [isRecord] at hv hw
    generalize v.under = x, w.under = y at hu hv hw
    cases hu with
    | record fs h => exact convertUnder_record fs h t
    | flat _ hflat => cases x <;> first | cases hv; done | cases hflat
    | named | ptr => cases hv

/-- Of its two values, both are converted, to values of one shape, or neither. -/
theorem Kin.convert {v w : Value} (h : Kin v w) (t : Ty) :
    Outcomes Alike (v.convert t) (w.convert t) := by
  have plain : (∀ t u, v ≠ ptr t u) → (∀ t u, w ≠ ptr t u) →
      Outcomes Alike (v.convert t) (w.convert t) := by
    intro hv hw
    rw [convert_of_ne_ptr hv, convert_of_ne_ptr hw, ← h.alike.type?]
    split
    · exact .returned h.alike
    · exact (h.convertUnder t.under).map fun _ _ h => h.wrapNames t
  cases h with
  | same => exact Outcomes.refl .refl _
  | slice u e h => exact plain (wrapNames_slice_ne_ptr u e _) (wrapNames_slice_ne_ptr u e _)
  | text | map => exact plain nofun nofun
  | record h hv => exact plain (ne_ptr_of_isRecord hv) (ne_ptr_of_isRecord (h.isRecord ▸ hv))

/-- What a slot of a type holds. -/
theorem Kin.fit {v w : Value} (h : Kin v w) (t : Ty) :
    Outcomes Alike
      ((v.fit t).mapError fun (v, t) => EvalError.badElement v.type? t)
      ((w.fit t).mapError fun (v, t) => EvalError.badElement v.type? t) := by
  have hconvert : Outcomes Alike
      (((v.convert t).widen : Attempt (Value × Ty) Value).mapError
        fun (v, t) => EvalError.badElement v.type? t)
      (((w.convert t).widen : Attempt (Value × Ty) Value).mapError
        fun (v, t) => EvalError.badElement v.type? t) := by
    have h := h.convert t
    generalize v.convert t = x, w.convert t = y at h
    cases h with
    | returned h => exact .returned h
    | failed e =>
      cases e with
      | error e => exact e.elim
      | fault => exact .failed _
  have htype := h.alike.type?
  rw [Value.fit.eq_def, Value.fit.eq_def, ← htype]
  split
  · exact .returned (.refl _)
  · split
    · exact hconvert
    · show Outcomes Alike (Except.error (Stop.error (EvalError.badElement v.type? t)))
        (Except.error (Stop.error (EvalError.badElement w.type? t)))
      rw [htype]
      exact .failed _

/-! ### Records

A record is filled field by field, and filling stops at the first field that is missing. -/

/-- The path to a member has a step. -/
theorem searchLevels_path_ne_nil {name : Text} {fuel : Nat} {seen : List Ty}
    {level : List Ty.Reached} {hit : Field Ty × List Nat}
    (h : Ty.searchLevels name fuel seen level = some hit) : hit.2 ≠ [] := by
  fun_induction Ty.searchLevels name fuel seen level with
  | case1 | case2 => cases h
  | case3 fuel seen r rs level hit' hlevel =>
    cases h
    have hmem : (false, hit) ∈ level.flatMap fun r =>
        (Ty.hitsIn name r).map fun hit => (r.repeated, hit) := by
      rw [hlevel]
      exact List.mem_singleton_self _
    obtain ⟨r, -, hr⟩ := List.mem_flatMap.mp hmem
    obtain ⟨x, hx, hxhit⟩ := List.mem_map.mp hr
    obtain rfl : x = hit := (Prod.mk.inj hxhit).2
    obtain ⟨⟨f, i⟩, -, hfi⟩ := List.mem_filterMap.mp hx
    obtain ⟨-, hhit⟩ := (Option.ite_none_right_eq_some ..).mp hfi
    cases hhit
    simp
  | case4 => cases h
  | case5 _ _ _ _ _ _ ih => exact ih h

theorem member?_path_ne_nil {t : Ty} {name : Text} {f : Field Ty} {path : List Nat}
    (h : t.member? name = some (f, path)) : path ≠ [] := by
  rw [Ty.member?] at h
  split at h
  · cases h
  · exact searchLevels_path_ne_nil h

/-- What bindings may fill: a record of one shape on both sides, or the same value without fields.
-/
inductive Fillable : Value → Value → Prop
  | record {v w : Value} (h : Alike v w) (hv : v.isRecord = true) : Fillable v w
  | flat {v : Value} (h : v.under.isFlat = true) : Fillable v v

theorem Fillable.kin {v w : Value} (h : Fillable v w) : Kin v w := by
  cases h with
  | record h hv => exact .record h hv
  | flat => exact .same v

/-- Where no record is, nothing is set whatever the new value is. -/
theorem setField_of_under (new new' : Value) {i : Nat} {path : List Nat} : {v : Value} →
    v.under.isFlat = true → setField new v (i :: path) = setField new' v (i :: path) ∧
      ∀ w, setField new v (i :: path) = some w → w.under.isFlat = true
  | named n v, h => by
    have ih : setField new v (i :: path) = setField new' v (i :: path) ∧
        ∀ w, setField new v (i :: path) = some w → w.under.isFlat = true :=
      setField_of_under new new' h
    rw [setField_named, setField_named, ih.1]
    refine ⟨rfl, fun w hw => ?_⟩
    obtain ⟨u, hu, rfl⟩ := Option.map_eq_some_iff.mp hw
    exact ih.2 u (ih.1 ▸ hu)
  | nil, h | bool _, h | int .., h | float .., h | string _, h | time _, h | nilPtr _, h | ptr .., h
  | nilSlice _, h | slice .., h | array .., h | nilMap .., h | map .., h | record .., h => by
    have hflat : ∀ {u : Value}, u.under = u → u.under.isFlat = true →
        setField new u (i :: path) = setField new' u (i :: path) ∧
          ∀ w, setField new u (i :: path) = some w → w.under.isFlat = true := by
      intro u hu h
      rw [hu] at h
      rw [setField_of_isFlat h, setField_of_isFlat h]
      refine ⟨rfl, fun w hw => ?_⟩
      obtain ⟨-, hw⟩ := (Option.ite_none_right_eq_some ..).mp hw
      obtain ⟨f, -, rfl⟩ := Option.map_eq_some_iff.mp hw
      rwa [hu]
    exact hflat rfl h

/-- A member is set on both sides, or on neither for the same reason. -/
theorem Fillable.setMember {obj obj' v w : Value} (h : Fillable obj obj') (hv : Kin v w) (t : Ty)
    (name : Text) : Outcomes Fillable (setMember t obj name v) (setMember t obj' name w) := by
  rw [Value.setMember.eq_def, Value.setMember.eq_def]
  rcases hm : t.member? name with _ | ⟨f, path⟩
  · exact .failed _
  obtain ⟨i, path, rfl⟩ := List.exists_cons_of_ne_nil (member?_path_ne_nil hm)
  cases h with
  | flat hflat =>
    -- whatever is reached, the new value is not looked at
    simp only
    split
    · exact .failed _
    split
    · exact .failed _
    · refine (hv.fit f.type).bind fun a b _ => ?_
      obtain ⟨hsame, hkept⟩ := setField_of_under a b (i := i) hflat
      rw [← hsame]
      split
      · exact .returned (.flat (hkept _ ‹_›))
      · exact .failed _
  | record h hrec =>
    have hfield := h.fieldAt? (i :: path)
    simp only
    generalize obj.fieldAt? (i :: path) = x, obj'.fieldAt? (i :: path) = y at hfield
    cases hfield with
    | none => exact .failed _
    | some _ =>
      simp only
      split
      · exact .failed _
      · refine (hv.fit f.type).bind fun a b hab => ?_
        have hset := hab.setField h (i :: path)
        have hkept : ∀ x, setField a obj (i :: path) = some x → x.isRecord = true := fun _ =>
          isRecord_of_setField obj hrec
        generalize setField a obj (i :: path) = x, setField b obj' (i :: path) = y at hset hkept
        cases hset with
        | none => exact .failed _
        | some h => exact .returned (.record h (hkept _ rfl))

theorem under_zero (t : Ty) : t.zero.under = t.under.zero := by
  fun_induction Ty.under t with
  | case1 n t ih =>
    rw [Ty.zero, ← ih]
    split
    · rename_i hnil
      rw [hnil]
    · rfl
  | case2 t h =>
    cases t with
    | named n t => exact absurd rfl (h n t)
    | _ =>
      rw [Ty.zero.eq_def, Value.under]
      rintro _ _ ⟨⟩

theorem fillable_zero {t : Option Ty} {u : Ty} (h : recordType? t = some u) :
    Fillable u.zero u.zero := by
  obtain ⟨u', -, h⟩ := Option.bind_eq_some_iff.mp h
  have hzero := under_zero u'
  split at h
  · rename_i fs hu
    cases h
    refine .record (.refl _) ?_
    rw [isRecord, hzero, hu, Ty.zero]
  · rename_i hu
    cases h
    refine .flat ?_
    rw [hzero, hu]
    rfl
  · cases h

end Value

namespace Expr

/-! ### Evaluation

The induction is on the expression. An operation whose operands vary is not evaluated at all, since
it depends on a row. -/

/-- Whether the expression is a member, an operator, a call or a conditional. -/
def isOperation : Expr → Bool
  | member .. | binary .. | unary .. | call .. | cond .. => true
  | _ => false

/-- An operation that holds a varying string depends on a row. -/
def Settled (e e' : Expr) : Prop := e.isOperation = true → e = e' ∨ e.isClosed = false

variable {D : Text → Text → Prop}

/-- An operation without rows is the same on both sides. -/
theorem Varies.eq_of_settled {e e' : Expr} (hv : Varies D e e') (h : Throughout Settled e e')
    (ho : e.isOperation = true) (hc : e.walk.filterMap param? = []) : e = e' := by
  have hne : e.isHole = false := by
    cases e with
    | hole => cases ho
    | _ => rfl
  have hclosed : e.isClosed = true := by
    rw [isClosed_eq, hc]
    rfl
  refine (h.self hv hne ho).resolve_right fun hopen => ?_
  rw [hclosed] at hopen
  cases hopen

theorem sliceOf_kin (t : Option Ty) {vs ws : List Value} (h : List.Forall₂ Value.Kin vs ws) :
    Outcomes Value.Kin (Value.sliceOf t vs) (Value.sliceOf t ws) := by
  rw [Value.sliceOf.eq_def, Value.sliceOf.eq_def]
  split
  · exact .returned (.slice (.slice .any) _ h.length_eq)
  split
  · exact .returned (.slice (.slice .any) _ h.length_eq)
  · refine (Outcomes.mapM h fun _ _ h => h.fit _).bind fun _ _ h => ?_
    exact .returned (.slice _ _ h.length_eq)
  · exact .returned (.slice (.slice .any) _ h.length_eq)

mutual

/-- Two evaluations without rows fail alike or yield values of a kind. -/
theorem Varies.eval (pre : Prelude) : {e e' : Expr} → Varies D e e' → Throughout Settled e e' →
    e.walk.filterMap param? = [] → Outcomes Value.Kin (e.eval pre) (e'.eval pre)
  | _, _, .hole, _, _ => .returned (.same _)
  | _, _, .const h, _, _ => by
    cases h with
    | same => exact .returned (.same _)
    | text h => exact .returned (.text _ _)
  | _, _, .param _, _, _ => .failed _
  | _, _, .lambda _, _, _ => .failed _
  | _, _, .invoke .., _, _ => .failed _
  | _, _, .list h, ht, hc => by
    rw [Throughout, walk, walk, List.forall₂_cons] at ht
    rw [walk, List.filterMap_cons_none rfl] at hc
    rw [Expr.eval, Expr.eval]
    exact (h.evalAll pre ht.2 hc).bind fun _ _ => sliceOf_kin _
  | _, _, .array h, ht, hc => by
    rw [Throughout, walk, walk, List.forall₂_cons] at ht
    rw [walk, List.filterMap_cons_none rfl] at hc
    rw [Expr.eval, Expr.eval]
    exact (h.evalAll pre ht.2 hc).bind fun _ _ => sliceOf_kin _
  | _, _, .new h, ht, hc => by
    rw [Throughout, walk, walk, List.forall₂_cons] at ht
    rw [walk, List.filterMap_cons_none rfl] at hc
    rw [Expr.eval, Expr.eval]
    split
    · rename_i u hu
      exact h.evalMembers pre u (Value.fillable_zero hu) ht.2 hc
    · exact h.evalEntries pre ht.2 hc
  | _, _, .init h, ht, hc => by
    rw [Throughout, walk, walk, List.forall₂_cons] at ht
    rw [walk, List.filterMap_cons_none rfl] at hc
    rw [Expr.eval, Expr.eval]
    split
    · rename_i u hu
      exact h.evalMembers pre u (Value.fillable_zero hu) ht.2 hc
    · exact h.evalEntries pre ht.2 hc
  | _, _, .member h, ht, hc => by
    rw [(Varies.member h).eq_of_settled ht rfl hc]
    exact Outcomes.refl .same _
  | _, _, .unary h, ht, hc => by
    rw [(Varies.unary h).eq_of_settled ht rfl hc]
    exact Outcomes.refl .same _
  | _, _, .binary hl hr, ht, hc => by
    rw [(Varies.binary hl hr).eq_of_settled ht rfl hc]
    exact Outcomes.refl .same _
  | _, _, .call h ha, ht, hc => by
    rw [(Varies.call h ha).eq_of_settled ht rfl hc]
    exact Outcomes.refl .same _
  | _, _, .cond hc' ha hb, ht, hc => by
    rw [(Varies.cond hc' ha hb).eq_of_settled ht rfl hc]
    exact Outcomes.refl .same _

theorem VariesAll.evalAll (pre : Prelude) : {es es' : List Expr} → VariesAll D es es' →
    List.Forall₂ Settled (walkAll es) (walkAll es') → (walkAll es).filterMap param? = [] →
    Outcomes (List.Forall₂ Value.Kin) (Expr.evalAll pre es) (Expr.evalAll pre es')
  | _, _, .nil, _, _ => .returned .nil
  | _, _, .cons h hs, ht, hc => by
    rw [walkAll, walkAll, forall₂_append_iff h.length_walk] at ht
    rw [walkAll, List.filterMap_append, List.append_eq_nil_iff] at hc
    rw [Expr.evalAll, Expr.evalAll]
    exact (h.eval pre ht.1 hc.1).bind fun _ _ hv => (hs.evalAll pre ht.2 hc.2).bind fun _ _ hvs =>
      .returned (.cons hv hvs)

theorem VariesBindings.evalEntries (pre : Prelude) : {bs bs' : List (Text × Expr)} →
    {entries entries' : List (MapKey × Value)} → VariesBindings D bs bs' →
    List.Forall₂ Settled (walkBindings bs) (walkBindings bs') →
    (walkBindings bs).filterMap param? = [] →
    Outcomes Value.Kin (Expr.evalEntries pre entries bs) (Expr.evalEntries pre entries' bs')
  | _, _, _, _, .nil, _, _ => .returned (.map _ _ _ _)
  | _, _, _, _, .cons h hs, ht, hc => by
    rw [walkBindings, walkBindings, forall₂_append_iff h.length_walk] at ht
    rw [walkBindings, List.filterMap_append, List.append_eq_nil_iff] at hc
    rw [Expr.evalEntries, Expr.evalEntries]
    exact (h.eval pre ht.1 hc.1).bind fun _ _ _ => hs.evalEntries pre ht.2 hc.2

theorem VariesBindings.evalMembers (pre : Prelude) (t : Ty) : {bs bs' : List (Text × Expr)} →
    {obj obj' : Value} → VariesBindings D bs bs' → Value.Fillable obj obj' →
    List.Forall₂ Settled (walkBindings bs) (walkBindings bs') →
    (walkBindings bs).filterMap param? = [] →
    Outcomes Value.Kin (Expr.evalMembers pre t obj bs) (Expr.evalMembers pre t obj' bs')
  | _, _, _, _, .nil, hobj, _, _ => .returned hobj.kin
  | _, _, _, _, .cons h hs, hobj, ht, hc => by
    rw [walkBindings, walkBindings, forall₂_append_iff h.length_walk] at ht
    rw [walkBindings, List.filterMap_append, List.append_eq_nil_iff] at hc
    rw [Expr.evalMembers, Expr.evalMembers]
    exact (h.eval pre ht.1 hc.1).bind fun _ _ hv => (hobj.setMember hv t _).bind fun _ _ hobj =>
      hs.evalMembers pre t hobj ht.2 hc.2

end

/-- A test without rows is decided alike. -/
theorem Varies.closedTruth? {e e' : Expr} (h : Varies D e e') (ht : Throughout Settled e e')
    (pre : Prelude) : e.closedTruth? pre = e'.closedTruth? pre := by
  rw [Expr.closedTruth?, Expr.closedTruth?, ← h.isClosed]
  split
  · rename_i hc
    rw [isClosed_eq, List.isEmpty_iff] at hc
    have heval := h.eval pre ht hc
    generalize e.eval pre = x, e'.eval pre = y at heval
    cases heval with
    | failed => rfl
    | returned hv => exact congrArg Except.ok hv.truth
  · rfl

end Expr

end QueryTree
