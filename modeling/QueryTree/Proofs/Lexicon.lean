import QueryTree.Compile.Render
import QueryTree.Sample.Conditions

/-!
# The names of an expression

What an emitted text looks like depends on the names that are written into it: aliases, tables,
columns, members of shapes, and the raw items that an aggregate function may be given. A `Lexicon`
says which names and items are permitted. `Expr.Named` says that an expression holds no others, and
`AliasTable.Within` that the aliases given so far are permitted.

Aliases are made from names, by appending a number when a name is taken. So a lexicon must permit a
numbered name whenever it permits the name; that is its only law. The table of a row is written as
an alias only where the row has no name of its own, and a member of a shape only in lists of
columns, so a lexicon may permit more of them than it permits names.

An invocation is compiled as the body of its lambda with the arguments put in, and so are its names
and raw items taken: those of the inlined body count, not those of the lambda. The definitions
follow `Expr.renderTo` in this, with the same bound on nested inlinings.

## Main definitions

* `Lexicon`, `Lexicon.Alias`
* `AliasTable.Within`
* `Entity.Named`, `Param.Named`, `Expr.NamedTo`, `Expr.Named`
* `Expr.RawArgumentTo`: the raw items that an aggregate function would be given

## Main results

* `AliasTable.Within.bind`: binding a row keeps the aliases within the lexicon
* `Param.named_of_entity`: which names a row of an entity brings along
-/

namespace QueryTree

/-- The names and the raw items that a statement may hold. -/
structure Lexicon where
  /-- Columns and aliases. -/
  Name : Text → Prop
  Raw : Text → Prop
  /-- The tables of rows that have names of their own. -/
  Table : Text → Prop := Name
  /-- The members of shapes. -/
  Label : Text → Prop := Name
  /-- A name with a number after it is a name, and so is a number alone. -/
  numbered : ∀ v i, (v = [] ∨ Name v) → Name (v ++ Text.ofNat (i + 1))

namespace Lexicon

/-- What may be an alias: a name, or nothing. -/
def Alias (L : Lexicon) (v : Text) : Prop := v = [] ∨ L.Name v

theorem alias_candidate {L : Lexicon} {v : Text} (h : L.Alias v) (i : Nat) :
    L.Alias (AliasTable.candidate v i) := by
  unfold AliasTable.candidate
  split
  · exact h
  · exact .inr (L.numbered v i h)

theorem alias_firstUnused {L : Lexicon} {v : Text} (h : L.Alias v) (used : List Text) :
    L.Alias (AliasTable.firstUnused used v) := by
  unfold AliasTable.firstUnused
  cases hf : ((List.range (used.length + 1)).map (AliasTable.candidate v)).find?
      fun c => !used.contains c.toLower with
  | none => exact h
  | some c =>
    obtain ⟨i, -, rfl⟩ := List.mem_map.mp (List.mem_of_find?_eq_some hf)
    exact alias_candidate h i

end Lexicon

/-! ### Aliases -/

/-- The aliases given so far are permitted. -/
structure AliasTable.Within (L : Lexicon) (a : AliasTable) : Prop where
  pairs : ∀ x ∈ a.pairs, L.Alias x.2
  firsts : ∀ x ∈ a.firsts, L.Alias x.2
  rows : ∀ x ∈ a.rows, L.Alias x.2

namespace AliasTable

variable {L : Lexicon} {a : AliasTable}

theorem within_empty (L : Lexicon) : Within L .empty :=
  ⟨by simp [empty], by simp [empty], by simp [empty]⟩

theorem mem_of_lookup {κ β : Type} [BEq κ] [LawfulBEq κ] {k : κ} {c : β} {l : List (κ × β)}
    (h : l.lookup k = some c) : (k, c) ∈ l := by
  induction l with
  | nil => simp at h
  | cons x xs ih =>
    rw [List.lookup_cons] at h
    split at h
    · rename_i hk
      cases h
      rw [eq_of_beq hk]
      simp
    · simp [ih h]

theorem Within.unique (h : Within L a) {v : Text} (hv : L.Alias v) :
    L.Alias (a.unique v).1 ∧ Within L (a.unique v).2 :=
  ⟨L.alias_firstUnused hv _, ⟨h.pairs, h.firsts, h.rows⟩⟩

theorem Within.aliasFor (h : Within L a) {table hint : Text} (ht : hint = [] → L.Alias table)
    (hh : L.Alias hint) :
    L.Alias (a.aliasFor table hint).1 ∧ Within L (a.aliasFor table hint).2 := by
  -- the alias and the table before both are recorded
  have add : ∀ (first : Option Text) {c : Text} {b : AliasTable}, L.Alias c → Within L b →
      Within L { b with
        pairs := ((table, hint), c) :: b.pairs
        firsts := if first.isSome then a.firsts else (table, c) :: a.firsts } := by
    intro first c b hc hb
    refine ⟨?_, ?_, hb.rows⟩
    · simpa [hc] using hb.pairs
    · show ∀ x ∈ (if first.isSome then a.firsts else (table, c) :: a.firsts), L.Alias x.2
      split
      · exact h.firsts
      · simpa [hc] using h.firsts
  unfold AliasTable.aliasFor
  cases hp : a.pairs.lookup (table, hint) with
  | some c =>
    exact ⟨h.pairs _ (mem_of_lookup hp), h⟩
  | none =>
    cases hint with
    | nil =>
      cases hf : a.firsts.lookup table with
      | some c =>
        have hc := h.firsts _ (mem_of_lookup hf)
        exact ⟨hc, add (some c) hc h⟩
      | none =>
        obtain ⟨hc, hb⟩ := h.unique (ht rfl)
        exact ⟨hc, add none hc hb⟩
    | cons b bs =>
      exact ⟨(h.unique hh).1, add (a.firsts.lookup table) (h.unique hh).1 (h.unique hh).2⟩

theorem Within.bind (h : Within L a) {p : Param} {table : Text} (hp : L.Alias p.name)
    (ht : p.name = [] → L.Alias table) :
    L.Alias (a.bind p table).1 ∧ Within L (a.bind p table).2 := by
  have add : ∀ {c : Text} {b : AliasTable}, L.Alias c → Within L b →
      Within L { b with rows := (p.id, c) :: b.rows } := by
    intro c b hc hb
    exact ⟨hb.pairs, hb.firsts, by simpa [hc] using hb.rows⟩
  unfold AliasTable.bind
  cases hr : a.rows.lookup p.id with
  | some c =>
    exact ⟨h.rows _ (mem_of_lookup hr), h⟩
  | none =>
    obtain ⟨hc, hb⟩ := h.aliasFor ht hp
    simp only
    split
    · exact ⟨(hb.unique hp).1, add (hb.unique hp).1 (hb.unique hp).2⟩
    · exact ⟨hc, add hc hb⟩

end AliasTable

/-! ### Expressions -/

/-- The names of an entity are permitted. -/
def Entity.Named (L : Lexicon) (e : Entity) : Prop :=
  L.Table e.table ∧ ∀ c ∈ e.columns, L.Name c.name

/-- The names that a row parameter brings along are permitted. The table of a row without a name
gives it its alias. -/
def Param.Named (st : Settings) (L : Lexicon) (p : Param) : Prop :=
  L.Alias p.name ∧
    ∀ e, st.entityOf p.type = .ok e → (p.name = [] → L.Name e.table) ∧ e.Named L

/-- A row of a known entity brings along its own name and those of the entity. -/
theorem Param.named_of_entity {st : Settings} {L : Lexicon} {p : Param} {e : Entity}
    (he : st.entityOf p.type = .ok e) (hname : L.Alias p.name)
    (halias : p.name = [] → L.Name e.table) (h : e.Named L) : p.Named st L := by
  refine ⟨hname, fun e' he' => ?_⟩
  obtain rfl := Except.ok.inj (he.symm.trans he')
  exact ⟨halias, h⟩

namespace Sample

/-- The names of the columns of customers. -/
def customerColumns : List Text :=
  ["id", "name", "email", "active", "age", "balance", "deleted_at"]

theorem tableOf_customer : Registry.standard.tableOf customer = "customers" := by decide

theorem map_name_columnsOf_customer :
    (Mapping.columnsOf .standard customer).map (·.name) = customerColumns := by decide +kernel

theorem entityOf_customerRow {st : Settings} (hr : st.registry = .standard) :
    st.entityOf customerRow.type = .ok ⟨customer, Registry.standard.tableOf customer,
      Mapping.columnsOf .standard customer⟩ := by
  rw [Settings.entityOf, hr]
  rfl

/-- A lexicon that permits the name of the row, the table and the columns of customers permits what
the row brings along. -/
theorem customerRow_named_of {st : Settings} {L : Lexicon} (hr : st.registry = .standard)
    (hrow : L.Name "c") (htable : L.Table "customers") (hcols : ∀ v ∈ customerColumns, L.Name v) :
    customerRow.Named st L := by
  refine Param.named_of_entity (entityOf_customerRow hr) (.inr hrow) nofun ⟨?_, fun c hc => ?_⟩
  · rw [tableOf_customer]
    exact htable
  · apply hcols
    rw [← map_name_columnsOf_customer]
    exact List.mem_map_of_mem hc

end Sample

namespace Expr

/-- The raw items that the expression stands for as the argument of an aggregate function are
permitted, where `inlined` says so of inlined bodies. -/
def RawArgumentWith (L : Lexicon) (inlined : Expr → Prop) : Expr → Prop
  | const (.string t) _ => ∀ items, Raw.items t false = .ok items → ∀ i ∈ items, L.Raw i
  | unary .quote e _ => RawArgumentWith L inlined e
  | lambda body _ => RawArgumentWith L inlined body
  | invoke target args => ∀ body, inline target args = .ok body → inlined body
  | _ => True

/-- The raw items that the expression stands for as the argument of an aggregate function, with at
most `depth` nested inlinings, are permitted. -/
def RawArgumentTo (L : Lexicon) : (depth : Nat) → Expr → Prop
  | 0, _ => True
  | depth + 1, e => RawArgumentWith L (RawArgumentTo L depth) e

/-- A lexicon that permits every raw item permits every argument. -/
theorem rawArgumentTo_of_raw {L : Lexicon} (hL : ∀ t, L.Raw t) :
    (depth : Nat) → (e : Expr) → RawArgumentTo L depth e
  | 0, _ => trivial
  | depth + 1, e => by
    show RawArgumentWith L (RawArgumentTo L depth) e
    fun_induction RawArgumentWith L (RawArgumentTo L depth) e with
    | case1 t _ => exact fun _ _ i _ => hL i
    | case2 e t ih => exact ih
    | case3 body ps ih => exact ih
    | case4 target args => exact fun body _ => rawArgumentTo_of_raw hL depth body
    | case5 => trivial

mutual

/-- The names of an expression are permitted, and so are the raw arguments of its aggregate
functions; `raw` says the latter, and `inlined` says both of inlined bodies. -/
def NamedWith (st : Settings) (L : Lexicon) (raw inlined : Expr → Prop) : Expr → Prop
  | hole | const .. => True
  | param p => p.Named st L
  | member e _ _ _ => NamedWith st L raw inlined e
  | binary _ l r => NamedWith st L raw inlined l ∧ NamedWith st L raw inlined r
  | unary _ e _ => NamedWith st L raw inlined e
  | call e method args _ _ => NamedWith st L raw inlined e ∧ NamedAll st L raw inlined args ∧
      (e.isHole = true → isAggregateName method = true → ∀ a ∈ args.head?, raw a)
  | new _ bs | init _ bs => NamedBindings st L raw inlined bs
  | list _ es | array _ es => NamedAll st L raw inlined es
  | lambda body _ => NamedWith st L raw inlined body
  | invoke target args => ∀ body, inline target args = .ok body → inlined body
  | cond c a b =>
    NamedWith st L raw inlined c ∧ NamedWith st L raw inlined a ∧ NamedWith st L raw inlined b

/-- The names of every expression of a list are permitted. -/
def NamedAll (st : Settings) (L : Lexicon) (raw inlined : Expr → Prop) : List Expr → Prop
  | [] => True
  | e :: es => NamedWith st L raw inlined e ∧ NamedAll st L raw inlined es

/-- The names of bindings, and of what they bind, are permitted. -/
def NamedBindings (st : Settings) (L : Lexicon) (raw inlined : Expr → Prop) :
    List (Text × Expr) → Prop
  | [] => True
  | (name, e) :: bs => (name = [] ∨ L.Label name) ∧ NamedWith st L raw inlined e ∧
      NamedBindings st L raw inlined bs

end

/-- The names of an expression with at most `depth` nested inlinings are permitted. -/
def NamedTo (st : Settings) (L : Lexicon) : (depth : Nat) → Expr → Prop
  | 0, _ => True
  | depth + 1, e => NamedWith st L (RawArgumentTo L (depth + 1)) (NamedTo st L depth) e

/-- The names that an expression is compiled with are permitted. -/
def Named (st : Settings) (L : Lexicon) (e : Expr) : Prop := NamedTo st L inlineDepth e

end Expr

/-! ### Lexicons without restrictions -/

/-- Everything is permitted. -/
structure Lexicon.Permissive (L : Lexicon) : Prop where
  name : ∀ v, L.Name v
  raw : ∀ t, L.Raw t
  table : ∀ t, L.Table t
  label : ∀ v, L.Label v

theorem AliasTable.within_of_permissive {L : Lexicon} (hL : L.Permissive) (a : AliasTable) :
    a.Within L :=
  ⟨fun _ _ => .inr (hL.name _), fun _ _ => .inr (hL.name _), fun _ _ => .inr (hL.name _)⟩

theorem Param.named_of_permissive {st : Settings} {L : Lexicon} (hL : L.Permissive) (p : Param) :
    p.Named st L :=
  ⟨.inr (hL.name _), fun _ _ => ⟨fun _ => hL.name _, hL.table _, fun _ _ => hL.name _⟩⟩

namespace Expr

mutual

theorem namedWith_of_permissive {st : Settings} {L : Lexicon} {raw inlined : Expr → Prop}
    (hL : L.Permissive) (hraw : ∀ e, raw e) (hin : ∀ e, inlined e) :
    (e : Expr) → NamedWith st L raw inlined e
  | hole | const .. => trivial
  | param p => p.named_of_permissive hL
  | member e _ _ _ | unary _ e _ | lambda e _ => namedWith_of_permissive hL hraw hin e
  | binary _ l r =>
    ⟨namedWith_of_permissive hL hraw hin l, namedWith_of_permissive hL hraw hin r⟩
  | call e _ args _ _ => ⟨namedWith_of_permissive hL hraw hin e,
      namedAll_of_permissive hL hraw hin args, fun _ _ a _ => hraw a⟩
  | new _ bs | init _ bs => namedBindings_of_permissive hL hraw hin bs
  | list _ es | array _ es => namedAll_of_permissive hL hraw hin es
  | invoke _ _ => fun body _ => hin body
  | cond c a b => ⟨namedWith_of_permissive hL hraw hin c,
      namedWith_of_permissive hL hraw hin a, namedWith_of_permissive hL hraw hin b⟩

theorem namedAll_of_permissive {st : Settings} {L : Lexicon} {raw inlined : Expr → Prop}
    (hL : L.Permissive) (hraw : ∀ e, raw e) (hin : ∀ e, inlined e) :
    (es : List Expr) → NamedAll st L raw inlined es
  | [] => trivial
  | e :: es => ⟨namedWith_of_permissive hL hraw hin e, namedAll_of_permissive hL hraw hin es⟩

theorem namedBindings_of_permissive {st : Settings} {L : Lexicon} {raw inlined : Expr → Prop}
    (hL : L.Permissive) (hraw : ∀ e, raw e) (hin : ∀ e, inlined e) :
    (bs : List (Text × Expr)) → NamedBindings st L raw inlined bs
  | [] => trivial
  | (_, e) :: bs => ⟨.inr (hL.label _), namedWith_of_permissive hL hraw hin e,
      namedBindings_of_permissive hL hraw hin bs⟩

end

theorem namedTo_of_permissive {st : Settings} {L : Lexicon} (hL : L.Permissive) :
    (depth : Nat) → (e : Expr) → NamedTo st L depth e
  | 0, _ => trivial
  | depth + 1, e => namedWith_of_permissive hL (rawArgumentTo_of_raw hL.raw (depth + 1))
      (namedTo_of_permissive hL depth) e

theorem named_of_permissive {st : Settings} {L : Lexicon} (hL : L.Permissive) (e : Expr) :
    e.Named st L :=
  namedTo_of_permissive hL inlineDepth e

end Expr

end QueryTree
