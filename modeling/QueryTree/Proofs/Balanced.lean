import QueryTree.Proofs.Nesting
import QueryTree.Proofs.Placeholder
import QueryTree.Sample.Conditions

/-!
# Compiled texts are balanced

Conditions, values and rows to write are put together from texts of the grammar, and these nest.
Lists may hold raw items too, and of them the grammar says nothing but that they are plain names: a
column may be renamed to `end`, and then the text is not balanced. So the raw items that an
expression stands for in a list are followed to the constants they come from. `Expr.RawItemsTo` does
that along the same paths as compiling does, through quotes, lambdas, lists, shapes and invocations,
and `Rendering.ListsNeatly` says that there is nothing else in a list that does not nest.

## Main definitions

* `Expr.RawItems`: the raw items of an expression in a clause are permitted
* `Rendering.ListsNeatly`

## Main results

* `Expr.listsNeatly_render`
* `balanced_compile`: what is compiled into a new draft is balanced
-/

namespace QueryTree

open Sql Emit

/-! ### Raw items -/

/-- Whether texts are raw items in the clause. -/
def Clause.takesRaw : Clause → Bool
  | .select | .groupBy | .orderBy | .max | .min | .avg | .sum | .count => true
  | _ => false

/-- The items of a raw list are permitted. -/
def Raw.Permitted (L : Lexicon) (ordered : Bool) (t : Text) : Prop :=
  ∀ items, Raw.items t ordered = .ok items → ∀ i ∈ items, L.Raw i

/-- The raw items that a constant stands for in a clause are permitted. -/
def Value.RawItems (L : Lexicon) (c : Clause) : Value → Prop
  | .string t => Raw.Permitted L (c = .orderBy) t
  | .slice .string vs =>
    c.isListing = true → ∀ t, .string t ∈ vs → Raw.Permitted L (c = .orderBy) t
  | _ => True

namespace Expr

mutual

/-- The raw items that the expression stands for in a clause are permitted, where `inlined` says so
of inlined bodies. -/
def RawItemsWith (L : Lexicon) (c : Clause) (inlined : Expr → Prop) : Expr → Prop
  | const v _ => v.RawItems L c
  | unary .quote e _ => RawItemsWith L c inlined e
  | lambda body _ => RawItemsWith L c inlined body
  | new _ bs | init _ bs => c.isListing = true → RawItemsBindings L c inlined bs
  | list _ es | array _ es => RawItemsAll L c inlined es
  | invoke target args => ∀ body, inline target args = .ok body → inlined body
  | _ => True

/-- The raw items of every expression of a list are permitted. -/
def RawItemsAll (L : Lexicon) (c : Clause) (inlined : Expr → Prop) : List Expr → Prop
  | [] => True
  | e :: es => RawItemsWith L c inlined e ∧ RawItemsAll L c inlined es

/-- The raw items of what the bindings bind are permitted. -/
def RawItemsBindings (L : Lexicon) (c : Clause) (inlined : Expr → Prop) :
    List (Text × Expr) → Prop
  | [] => True
  | (_, e) :: bs => RawItemsWith L c inlined e ∧ RawItemsBindings L c inlined bs

end

/-- The raw items of an expression with at most `depth` nested inlinings are permitted. -/
def RawItemsTo (L : Lexicon) (c : Clause) : (depth : Nat) → Expr → Prop
  | 0, _ => True
  | depth + 1, e => RawItemsWith L c (RawItemsTo L c depth) e

/-- The raw items that an expression is compiled to in a clause are permitted. -/
def RawItems (L : Lexicon) (c : Clause) (e : Expr) : Prop :=
  c.takesRaw = true → RawItemsTo L c inlineDepth e

variable {L : Lexicon} {c : Clause}

/-- What an aggregate function is given are raw items of a select list. -/
theorem rawArgumentTo_of_rawItemsTo (hc : c ≠ .orderBy) :
    (depth : Nat) → (e : Expr) → RawItemsTo L c depth e → RawArgumentTo L depth e
  | 0, _, _ => trivial
  | depth + 1, e, h => by
    replace h : RawItemsWith L c (RawItemsTo L c depth) e := h
    show RawArgumentWith L (RawArgumentTo L depth) e
    fun_induction RawArgumentWith L (RawArgumentTo L depth) e with
    | case1 t _ => simpa [RawItemsWith, Value.RawItems, Raw.Permitted, hc] using h
    | case2 e t ih => exact ih h
    | case3 body ps ih => exact ih h
    | case4 target args =>
      exact fun body hbody => rawArgumentTo_of_rawItemsTo hc depth body (h body hbody)
    | case5 => trivial

end Expr

/-! ### Neat lists -/

/-- A list that is empty, or that nests before its last separator. -/
abbrev NeatList : Nat → Nat → Text → Prop := ListOf fun _ _ => Neat

variable {st : Settings} {c : Clause} {n k m : Nat} {t u : Text}

theorem NeatList.nil (n : Nat) : NeatList n n [] := .inl ⟨rfl, rfl⟩

theorem NeatList.single (h : Neat t) : NeatList n m (t ++ itemSeparator) := .inr ⟨t, rfl, h⟩

theorem NeatList.append {a b : Text} (ha : NeatList n k a) (hb : NeatList k m b) :
    NeatList n m (a ++ b) :=
  ListOf.append (fun ha hb => Neat.join ha (by decide) hb) ha hb

theorem neatList_listItem (h : Neat t) (c : Clause) (ds : List Direction) :
    NeatList n m (listItem c ds t) := by
  unfold listItem
  split
  · refine .single (h.join (w := " ") (by decide) (neat_of_isBlank ?_))
    cases ds.headD .asc <;> decide
  · exact .single h

/-- Raw items that hold neither of the words. -/
theorem neat_of_mem_items {ordered : Bool} {items : List Text}
    (h : Raw.items t ordered = .ok items)
    (hraw : Raw.Permitted (.wordless st.quoted) ordered t) : ∀ i ∈ items, Neat i := by
  intro i hi
  have hitem := isField_or_isOrder_of_mem h i hi
  refine neat_of_native ?_ (hraw items h i hi)
  split at hitem
  · exact Raw.native_of_isOrder hitem
  · exact Raw.native_of_isField hitem

/-- Rows to write nest. -/
theorem rowTexts_neat (st : Settings) :
    RowTexts (grammar st (.wordless st.quoted)) fun _ _ => Neat where
  nil _ := neat_nil
  name _ hv := neat_ident (.inr hv)
  value h := h.neat
  join hsep ha hb := by
    have hall : ∀ sep ∈ rowSeparators, isBetween sep = true := by decide
    exact ha.join (hall _ hsep) hb
  enclose hxy h := by
    have hall : ∀ xy ∈ rowBrackets, isAround xy.1 xy.2 = true := by decide
    exact h.enclose (hall _ hxy)

namespace Emit

theorem emits_neatItem {x : Emit Text} {name : Text}
    (h : Emits (.wordless st.quoted) (ValueText st (.wordless st.quoted)) x)
    (hname : name = [] ∨ (Lexicon.wordless st.quoted).Label name) :
    Emits (.wordless st.quoted) NeatList (selectItem st x name) := by
  intro s t s' hs hy
  obtain ⟨a, s₁, ha, item, hitem, rfl, rfl⟩ := yields_selectItem.mp hy
  obtain ⟨hs₁, hv⟩ := h s a s₁ hs ha
  refine ⟨hs₁, .single ?_⟩
  rw [hitem]
  split
  · rename_i hnamed
    rcases hname with rfl | hname
    · simp at hnamed
    · exact hv.neat.join (by decide) (neat_ident (.inr hname))
  · exact hv.neat

theorem neatList_items {items : List Text} (h : ∀ i ∈ items, Neat i) :
    NeatList n n (items.flatMap fun t => t ++ itemSeparator) := by
  induction items with
  | nil => exact .nil n
  | cons i items ih =>
    rw [List.flatMap_cons]
    exact NeatList.append (.single (h i (by simp))) (ih fun i hi => h i (by simp [hi]))

theorem emits_neatProjection {v : Value} (h : v.RawItems (.wordless st.quoted) .select) :
    Emits (.wordless st.quoted) NeatList (constantProjection st v) := by
  unfold constantProjection
  split
  · intro s t s' hs hy
    obtain ⟨items, s₁, h₁, hf⟩ := yields_bind.mp hy
    obtain ⟨hi, rfl⟩ := yields_ofExcept.mp h₁
    simp only [rawFields, yields_bind, yields_pure] at hf
    obtain ⟨_, s₂, h₂, rfl, rfl⟩ := hf
    obtain ⟨hp, ha⟩ := yields_forM_addField h₂
    rw [hp, ha]
    exact ⟨hs, neatList_items (neat_of_mem_items hi h)⟩
  · exact emits_neatItem (emits_constantValue (K := grammar st _) _) (.inl rfl)

theorem neatList_rawListing {items : List Text} (h : ∀ i ∈ items, Neat i) (ds : List Direction) :
    NeatList n n (rawListing c ds items).1 := by
  induction items generalizing ds with
  | nil => exact .nil n
  | cons i items ih =>
    exact NeatList.append (neatList_listItem (m := n) (h i (by simp)) c ds)
      (ih (fun i hi => h i (by simp [hi])) ds.tail)

theorem emits_neatRawList (h : Raw.Permitted (.wordless st.quoted) (c = .orderBy) t)
    (ds : List Direction) :
    Emits (.wordless st.quoted) (fun n m p => NeatList n m p.1) (rawList c t ds) := by
  intro s p s' hs hy
  simp only [rawList, bind_pure_comp, yields_map, yields_ofExcept] at hy
  obtain ⟨items, ⟨hi, rfl⟩, rfl⟩ := hy
  exact ⟨hs, neatList_rawListing (neat_of_mem_items hi h) ds⟩

theorem emits_neatListing {v : Value} (hc : c.isListing = true)
    (h : v.RawItems (.wordless st.quoted) c) (ds : List Direction) :
    Emits (.wordless st.quoted) (fun n m p => NeatList n m p.1) (constantListing v c ds) := by
  unfold constantListing
  split
  · exact emits_neatRawList h ds
  · exact emits_pure .nil
  · refine emits_listings .nil .append (fun x hx ds => ?_) ds
    obtain ⟨v, hv, rfl⟩ := List.mem_map.mp hx
    split
    · exact emits_neatRawList (h hc _ hv) ds
    · exact emits_fault
  · exact emits_fail

end Emit

/-! ### Renderings -/

namespace Rendering

variable {raw : Prop}

/-- In the lists of a clause the rendering emits texts that nest, provided that `raw` holds. -/
structure ListsNeatly (st : Settings) (c : Clause) (raw : Prop) (r : Rendering) : Prop where
  projection : c = .select → raw → Emits (.wordless st.quoted) NeatList r.projection
  listing : c.isListing = true → raw → ∀ ds,
    Emits (.wordless st.quoted) (fun n m p => NeatList n m p.1) (r.listing c ds)

theorem listsNeatly_unsupported (e : Expr) : ListsNeatly st c raw (unsupported st e) :=
  ⟨fun _ _ => emits_unsupported, fun _ _ _ => emits_unsupported⟩

theorem listsNeatly_scalar {e : Expr} {value condition : Clause → Emit Text} {isTest : Bool}
    {addends : Option (List (Clause → Emit Text))}
    (h : ∀ c, Emits (.wordless st.quoted) (ValueText st (.wordless st.quoted))
      ((scalar st e value condition isTest addends).value c)) :
    ListsNeatly st c raw (scalar st e value condition isTest addends) where
  projection _ _ := emits_neatItem (h .select) (.inl rfl)
  listing _ _ ds := by
    intro s p s' hs hy
    simp only [scalar, yields_bind, yields_setPending, yields_pure] at hy
    obtain ⟨t, s₁, ht, _, s₂, rfl, rfl, rfl⟩ := hy
    obtain ⟨hs₁, hv⟩ := h c s t s₁ hs ht
    exact ⟨hs₁, neatList_listItem hv.neat c ds⟩

theorem listsNeatly_constant (v : Value) (t : Option Ty) :
    ListsNeatly st c (v.RawItems (.wordless st.quoted) c) (constant st v t) where
  projection hc h := emits_neatProjection (hc ▸ h)
  listing hc h ds := emits_neatListing hc h ds

theorem emits_neatColumns {p : Param} (hp : p.Named st (.wordless st.quoted)) :
    Emits (.wordless st.quoted) NeatList (allColumns st p) := by
  intro s t s' hs hy
  simp only [allColumns, yields_bind, yields_row, yields_addField, yields_pure] at hy
  obtain ⟨⟨e, name⟩, s₁, ⟨he, hname, rfl⟩, _, s₂, rfl, rfl, rfl⟩ := hy
  simp only at he hname
  subst hname
  obtain ⟨ha, hs₁⟩ := hs.bind hp.1 fun hname => .inr ((hp.2 e he).1 hname)
  refine ⟨hs₁, .single ?_⟩
  split
  · exact neat_of_isBlank (by decide)
  · exact neat_allColumns ha

theorem listsNeatly_param {p : Param} (hp : p.Named st (.wordless st.quoted)) :
    ListsNeatly st c raw (param st p) :=
  { (listsNeatly_unsupported (.param p) : ListsNeatly st c raw _) with
    projection := fun _ _ => emits_neatColumns hp }

theorem listsNeatly_shape {bindings : List (Text × Rendering)}
    (h : ∀ b ∈ bindings, LawfulBinding (grammar st (.wordless st.quoted)) b)
    (hb : c.isListing = true → raw → ∀ b ∈ bindings, ListsNeatly st c True b.2) (whole : Expr)
    (type : Option Ty) : ListsNeatly st c raw (shape st whole type bindings) where
  projection _ _ := by
    refine emits_append .nil .append fun x hx => ?_
    obtain ⟨⟨name, e⟩, hmem, rfl⟩ := List.mem_map.mp hx
    obtain ⟨hname, he, hparam⟩ := h _ hmem
    simp only
    split
    · rename_i p hp
      exact emits_neatColumns (hparam p hp)
    · exact emits_neatItem (he.value .select) hname
  listing hc hraw := by
    refine emits_listings .nil .append fun x hx ds => ?_
    obtain ⟨b, hmem, rfl⟩ := List.mem_map.mp hx
    exact (hb hc hraw b hmem).listing hc trivial ds

theorem listsNeatly_items {es : List Rendering}
    (h : raw → ∀ e ∈ es, ListsNeatly st c True e) (whole : Expr) :
    ListsNeatly st c raw (items st whole es) where
  projection hc hraw := by
    refine emits_append .nil .append fun x hx => ?_
    obtain ⟨e, he, rfl⟩ := List.mem_map.mp hx
    exact (h hraw e he).projection hc trivial
  listing hc hraw := by
    refine emits_listings .nil .append fun x hx ds => ?_
    obtain ⟨e, he, rfl⟩ := List.mem_map.mp hx
    exact (h hraw e he).listing hc trivial ds

theorem listsNeatly_invocation {whole : Expr} {body : Unit → Except Expr.InlineError Rendering}
    (h : raw → ∀ r, body () = .ok r → ListsNeatly st c True r) :
    ListsNeatly st c raw (invocation st whole body) where
  projection hc hraw := emits_emitInlined fun r hr => (h hraw r hr).projection hc trivial
  listing hc hraw ds := emits_emitInlined fun r hr => (h hraw r hr).listing hc trivial ds

theorem ListsNeatly.of_raw {r : Rendering} (h : ListsNeatly st c raw r) (hraw : raw) :
    ListsNeatly st c True r :=
  ⟨fun hc _ => h.projection hc hraw, fun hc _ => h.listing hc hraw⟩

end Rendering

namespace Expr

open Rendering

variable {inlined : Expr → Rendering} {rawOf named listed : Expr → Prop}

mutual

/-- One case per construct: in lists an expression emits texts that nest when inlined bodies do. -/
theorem listsNeatly_renderWith
    (hin : ∀ e, named e → (inlined e).Lawful (grammar st (.wordless st.quoted)) (rawOf e))
    (hlist : ∀ e, named e → (inlined e).ListsNeatly st c (listed e)) :
    (e : Expr) → NamedWith st (.wordless st.quoted) (RawArgumentWith (.wordless st.quoted) rawOf)
      named e → (renderWith st inlined e).ListsNeatly st c
        (RawItemsWith (.wordless st.quoted) c listed e)
  | hole, _ => by
    rw [renderWith]
    exact listsNeatly_unsupported hole
  | const v t, _ => by
    rw [renderWith]
    exact listsNeatly_constant v t
  | param p, h => by
    rw [renderWith]
    exact listsNeatly_param h
  | member e n t o, h => by
    have hl := grammatical_renderWith hin (member e n t o) h
    rw [renderWith] at hl ⊢
    exact listsNeatly_scalar hl.value
  | binary op l r, h => by
    have hl := grammatical_renderWith hin (binary op l r) h
    rw [renderWith] at hl ⊢
    exact listsNeatly_scalar hl.value
  | unary op e t, h => by
    cases op with
    | quote =>
      have ih := listsNeatly_renderWith hin hlist e h
      rw [renderWith]
      exact ⟨ih.projection, ih.listing⟩
    | _ =>
      have hl := grammatical_renderWith hin (unary _ e t) h
      rw [renderWith] at hl ⊢
      · exact listsNeatly_scalar hl.value
      all_goals nofun
  | call e m args t f, h => by
    have hl := grammatical_renderWith hin (call e m args t f) h
    rw [renderWith] at hl ⊢
    exact listsNeatly_scalar hl.value
  | new t bs, h => by
    rw [renderWith]
    exact listsNeatly_shape (grammatical_renderBindings hin bs h)
      (fun hc hraw => listsNeatly_renderBindings hin hlist bs h (hraw hc)) _ t
  | init t bs, h => by
    rw [renderWith]
    exact listsNeatly_shape (grammatical_renderBindings hin bs h)
      (fun hc hraw => listsNeatly_renderBindings hin hlist bs h (hraw hc)) _ t
  | list t es, h => by
    rw [renderWith]
    exact listsNeatly_items (listsNeatly_renderAll hin hlist es h) _
  | array t es, h => by
    rw [renderWith]
    exact listsNeatly_items (listsNeatly_renderAll hin hlist es h) _
  | lambda body ps, h => by
    have ih := listsNeatly_renderWith hin hlist body h
    rw [renderWith]
    exact ⟨ih.projection, ih.listing⟩
  | invoke target args, h => by
    rw [renderWith]
    refine listsNeatly_invocation fun hraw r hr => ?_
    cases hi : inline target args with
    | error e =>
      rw [hi] at hr
      cases hr
    | ok body =>
      rw [hi] at hr
      cases hr
      exact (hlist body (h body hi)).of_raw (hraw body hi)
  | cond x a b, h => by
    have hl := grammatical_renderWith hin (cond x a b) h
    rw [renderWith] at hl ⊢
    exact listsNeatly_scalar hl.value

theorem listsNeatly_renderAll
    (hin : ∀ e, named e → (inlined e).Lawful (grammar st (.wordless st.quoted)) (rawOf e))
    (hlist : ∀ e, named e → (inlined e).ListsNeatly st c (listed e)) :
    (es : List Expr) → NamedAll st (.wordless st.quoted)
      (RawArgumentWith (.wordless st.quoted) rawOf) named es →
        RawItemsAll (.wordless st.quoted) c listed es →
          ∀ r ∈ renderAll st inlined es, r.ListsNeatly st c True
  | [], _, _ => nofun
  | e :: es, h, hraw => by
    intro r hr
    rw [renderAll] at hr
    rcases List.mem_cons.mp hr with rfl | hr
    · exact (listsNeatly_renderWith hin hlist e h.1).of_raw hraw.1
    · exact listsNeatly_renderAll hin hlist es h.2 hraw.2 r hr

theorem listsNeatly_renderBindings
    (hin : ∀ e, named e → (inlined e).Lawful (grammar st (.wordless st.quoted)) (rawOf e))
    (hlist : ∀ e, named e → (inlined e).ListsNeatly st c (listed e)) :
    (bs : List (Text × Expr)) → NamedBindings st (.wordless st.quoted)
      (RawArgumentWith (.wordless st.quoted) rawOf) named bs →
        RawItemsBindings (.wordless st.quoted) c listed bs →
          ∀ b ∈ renderBindings st inlined bs, b.2.ListsNeatly st c True
  | [], _, _ => nofun
  | (name, e) :: bs, h, hraw => by
    intro b hb
    rw [renderBindings] at hb
    rcases List.mem_cons.mp hb with rfl | hb
    · exact (listsNeatly_renderWith hin hlist e h.2.1).of_raw hraw.1
    · exact listsNeatly_renderBindings hin hlist bs h.2.2 hraw.2 b hb

end

/-- In lists an expression emits texts that nest, by induction on how deeply inlined bodies nest. -/
theorem listsNeatly_renderTo : (depth : Nat) → (e : Expr) →
    NamedTo st (.wordless st.quoted) depth e →
      (renderTo st depth e).ListsNeatly st c (RawItemsTo (.wordless st.quoted) c depth e)
  | 0, _, _ => listsNeatly_unsupported hole
  | depth + 1, e, h =>
    listsNeatly_renderWith (lawful_renderTo depth) (listsNeatly_renderTo depth) e h

end Expr

/-! ### Drafts -/

/-- What an expression emits in a clause nests. -/
theorem Expr.clausal_neat {e : Expr} (he : e.Named st (.wordless st.quoted))
    (hraw : e.RawItems (.wordless st.quoted) c) (hw : e.WritesNamed st (.wordless st.quoted) c) :
    (e.render st).Clausal st (.wordless st.quoted) (fun _ _ => Neat) c := by
  have hl := lawful_render he
  have hlists : (e.render st).ListsNeatly st c _ := listsNeatly_renderTo _ e he
  refine ⟨fun hc => ?_, fun hc => ?_, fun hc => ?_, fun _ => ?_,
    fun _ => hl.members.mono fun _ _ _ => ValueText.neat, fun hc => ?_, fun hc => ?_⟩
  · subst hc
    exact hlists.projection rfl (hraw rfl)
  · subst hc
    exact emits_rowsOf hl hw fun _ => emits_insertRows (rowTexts_neat st)
  · subst hc
    exact emits_rowsOf hl hw fun _ => emits_assignments (rowTexts_neat st)
  · refine (hl.condition c).mono fun n k t ht => ?_
    rcases ht with ⟨rfl, -⟩ | ht
    · exact neat_nil
    · exact ConditionText.neat ht
  · refine hlists.listing hc (hraw ?_)
    cases c <;> first | cases hc; done | rfl
  · have htakes : c.takesRaw = true := by cases c <;> first | cases hc; done | rfl
    have horder : c ≠ .orderBy := by
      rintro rfl
      cases hc
    have hargument := rawArgumentTo_of_rawItemsTo horder _ e (hraw htakes)
    exact (Rendering.emits_aggregate (hl.mono fun _ => hargument)).mono
      fun _ _ _ => ValueText.neat

theorem Draft.neat_compile {e : Expr} {ds : List Direction} {d : Draft}
    (he : e.Named st (.wordless st.quoted)) (hraw : e.RawItems (.wordless st.quoted) c)
    (hw : e.WritesNamed st (.wordless st.quoted) c)
    (h : (new st).compile e c ds = (d, .ok ())) : Neat d.text :=
  of_compile (fun _ => neat_nil) (fun _ => neat_of_isBlank (by decide))
    ((Rendering.emits_aggregate (K := grammar st (.wordless st.quoted))
      (Rendering.lawful_unsupported .hole)).mono fun _ _ _ => ValueText.neat)
    (e.clausal_neat he hraw hw) h

/-- **What is compiled into a new draft is balanced**, provided that names are quoted or are plain
identifiers other than `CASE` and `END`, and that no raw item holds one of these words. -/
theorem balanced_compile {e : Expr} {ds : List Direction} {d : Draft}
    (he : e.Named st (.wordless st.quoted)) (hraw : e.RawItems (.wordless st.quoted) c)
    (hw : e.WritesNamed st (.wordless st.quoted) c)
    (h : (Draft.new st).compile e c ds = (d, .ok ())) : Balanced d.text :=
  (Draft.neat_compile he hraw hw h).balanced

namespace Sample

/-- Neither of the words is a name of customers. -/
theorem customerRow_wordless (d : Dialect) :
    customerRow.Named (.standard d world) (.wordless false) := by
  have columns : ∀ v ∈ customerColumns, v.all Sql.isNameByte = true ∧ isWord v = false := by
    decide
  exact customerRow_named_of rfl (.inr (by decide)) trivial fun v hv => .inr (columns v hv)

/-- The customer is not of age, or has a name. -/
def minorOrNamed : Expr :=
  .notOf (.binary .and
    (.binary .greaterThan (.cond isActive (.field customerRow "Age") (.value (.int .int 0)))
      (.value (.int .int 18)))
    (.callOf (.field customerRow "Name") "IsNullOrEmpty" []))

/-- What this compiles to as a condition. -/
def minorOrNamedText : Text :=
  "(CASE WHEN c.active = 1 THEN c.age ELSE @p1 END <= @p2 OR " ++
    "(c.name IS NOT NULL AND c.name <> ''))"

/-- What a raw select list compiles to in a draft of its own where names are quoted, if it
compiles. -/
def selectText? (list : Text) : Option Text :=
  match (Draft.new { Settings.standard .sqlServer world with quoted := true }).compile
      (.value (.string list)) .select [] with
  | (d, .ok ()) => some d.text
  | _ => none

theorem compile_of_selectText? {list t : Text} (h : selectText? list = some t) :
    ∃ d, (Draft.new { Settings.standard .sqlServer world with quoted := true }).compile
      (.value (.string list)) .select [] = (d, .ok ()) ∧ d.text = t := by
  unfold selectText? at h
  split at h
  · rename_i d hd
    cases h
    exact ⟨d, hd, rfl⟩
  · cases h

end Sample

open Sample in
theorem balanced_compile_minorOrNamed :
    (∃ d, (Draft.new (.standard .sqlServer world)).compile minorOrNamed .where_ [] = (d, .ok ()) ∧
      d.text = minorOrNamedText ∧ Balanced d.text) ∧
    ∃ d, (Draft.new { Settings.standard .sqlServer world with quoted := true }).compile
        (.value (.string "c.age AS years, c.end")) .select [] = (d, .ok ()) ∧
      d.text = "c.age AS years, c.end" ∧ Balanced d.text := by
  have hrow := customerRow_wordless .sqlServer
  have hnamed : minorOrNamed.Named (.standard .sqlServer world) (.wordless false) :=
    ⟨⟨⟨hrow, hrow, trivial⟩, trivial⟩, hrow, trivial, nofun⟩
  have hraw : (Expr.value (.string "c.age AS years, c.end")).RawItems (.wordless true) .select := by
    intro _ items hitems
    obtain rfl : (["c.age AS years", "c.end"] : List Text) = items := Except.ok.inj hitems
    show ∀ i ∈ (["c.age AS years", "c.end"] : List Text), holdsWord i = false
    decide +kernel
  have where_text : whereText? (.standard .sqlServer world) minorOrNamed =
      some minorOrNamedText := by
    decide +kernel
  have select_text : selectText? "c.age AS years, c.end" =
      some ("c.age AS years, c.end" : Text) := by
    decide +kernel
  obtain ⟨d, hd, ht⟩ := compile_of_whereText? where_text
  obtain ⟨d', hd', ht'⟩ := compile_of_selectText? select_text
  exact ⟨⟨d, hd, ht, balanced_compile (c := .where_) hnamed (fun h => by cases h) trivial hd⟩,
    d', hd', ht', balanced_compile (c := .select) (e := .value _) trivial hraw trivial hd'⟩

open Sample in
/-- A raw item that is neither of the words may still rename a column to one, also where names are
quoted. -/
theorem exists_unbalanced_text :
    ∃ d, (Draft.new { Settings.standard .sqlServer world with quoted := true }).compile
        (.value (.string "age AS end")) .select [] = (d, .ok ()) ∧
      Raw.items "age AS end" false = .ok ["age AS end"] ∧ isWord "age AS end" = false ∧
      ¬ Balanced d.text := by
  have text : selectText? "age AS end" = some ("age AS end" : Text) := by decide
  obtain ⟨d, hd, ht⟩ := compile_of_selectText? text
  refine ⟨d, hd, by decide, by decide, fun h => ?_⟩
  have hpieces : pieces d.text = [.endWord] := by
    rw [ht]
    decide
  have hnested := h.nested
  rw [hpieces] at hnested
  cases hnested

end QueryTree
