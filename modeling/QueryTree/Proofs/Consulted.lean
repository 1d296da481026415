import QueryTree.Proofs.Written

/-!
# The tables that a policy is asked about

A policy is asked about the tables of the rows that a statement reads or changes. It finds the table
of a row by the type of the row and passes over rows of unnamed types; a statement finds it the same
way but reads a row of an unnamed type as one of the default entity. So the two agree on every row
whose type has a table of its own, and a policy is never asked about a table that only rows of
unnamed types stand for.

Whether a policy is asked about a table is stated by what follows from its answer: a refusal of the
table is the refusal of the whole statement. A table that it is not asked about can have any rule,
and the statement compiles to the same text.

## Main definitions

* `Source`: a row of a statement with the table it stands for
* `Statement.Places`: where the tables stand in the text of a statement
* `Statement.Consults`, `Statement.Disregards`: whether a policy decides about a table

## Main results

* `Statement.exists_sources`: the tables in the text of a statement are those of its rows
* `consults_iff_named`: the tables that a policy is asked about
* `exists_statement_past_policy`: a selection from a table that is denied
-/

namespace QueryTree

open Emit Sql

variable {st : Settings} {d d' : Draft}

/-! ### Places of tables -/

/-- A row of a statement with the entity it is read as and the alias it is written with. -/
structure Source (st : Settings) where
  row : Param
  entity : Entity
  name : Text
  entityOf : st.entityOf row.type = .ok entity

/-- The text of the table of a row. -/
def Source.ref (x : Source st) : Text := st.tableRef x.entity.table x.name

/-- The text of joins names the tables of their rows. -/
inductive Source.Joined : List Join → List (Source st) → Text → Prop
  | nil : Joined [] [] []
  | cons {j : Join} {js : List Join} {x : Source st} {xs : List (Source st)} {t : Text}
    (row : j.row = some x.row) (on : Text) (rest : Joined js xs t) :
    Joined (j :: js) (x :: xs) (" " ++ j.kind.keywords ++ " " ++ x.ref ++ " ON " ++ on ++ t)

/-- Where a selection names the tables of its rows: behind `FROM` and in its joins. -/
def Select.Places (s : Select) (sources : List (Source st)) (t : Text) : Prop :=
  ∃ x xs projection joins rest, sources = x :: xs ∧ Source.Joined s.joins xs joins ∧
    t = (if s.distinct then "SELECT DISTINCT " else "SELECT " : Text) ++ projection ++ " FROM " ++
      x.ref ++ joins ++ rest

/-- Where a statement other than an insertion names the tables of its rows. -/
def Statement.Places (s : Statement) (sources : List (Source st)) (t : Text) : Prop :=
  match s with
  | select s | aggregate s _ _ => s.Places sources t
  | insert _ => False
  | update _ => ∃ x rest, sources = [x] ∧
      t = "UPDATE " ++ st.ident x.entity.table ++ " SET " ++ rest
  | delete _ => ∃ x rest, sources = [x] ∧ t = "DELETE FROM " ++ st.ident x.entity.table ++ rest

/-- What a statement is compiled with. -/
def Statement.settings (st : Settings) : Statement → Settings
  | select _ | aggregate .. => st
  | insert s => s.settings st
  | update s => match s.target with
    | some p => s.settings p st
    | none => st
  | delete _ => Delete.settings st

/-! ### What is written before a list -/

namespace Draft

/-- A keyword that ends neither with a separator nor with the beginning of one is kept. -/
theorem prefix_trimSuffix_of_keyword {a keyword u : Text}
    (hlen : itemSeparator.length ≤ keyword.length) (hk : keyword.hasSuffix itemSeparator = false)
    (hlast : keyword.getLast? ≠ some (byte ',')) :
    a ++ keyword <+: Text.trimSuffix (a ++ keyword ++ u) itemSeparator := by
  match u with
  | [] =>
    have htrim := trimSuffix_append_of_not (a := a) hlen hk
    simp only [List.append_nil, htrim, List.prefix_refl]
  | [b] =>
    have hno : (keyword ++ [b]).hasSuffix itemSeparator = false := by
      rw [Bool.eq_false_iff]
      intro h
      simp only [Text.hasSuffix, List.isSuffixOf_iff_suffix] at h
      obtain ⟨u, hu⟩ := h
      have hsep : u ++ [byte ','] ++ [byte ' '] = keyword ++ [b] := by
        rw [List.append_assoc]
        exact hu
      obtain ⟨rfl, -⟩ := List.append_inj' hsep rfl
      exact hlast List.getLast?_concat
    rw [List.append_assoc, trimSuffix_append_of_not (by rw [List.length_append]; omega) hno,
      ← List.append_assoc]
    exact List.prefix_append _ _
  | b :: c :: u => exact prefix_trimSuffix (Nat.le_add_left 2 u.length)

/-- A projection stands behind its keyword. -/
theorem prefix_projection {e : Expr} {ds : List Direction} {keyword : Text}
    (hlen : itemSeparator.length ≤ keyword.length) (hk : keyword.hasSuffix itemSeparator = false)
    (hlast : keyword.getLast? ≠ some (byte ','))
    (h : (d.write keyword).clause e .select ds = .ok d') : d.text ++ keyword <+: d'.text := by
  have h := clause_eq_ok h
  unfold Draft.compile at h
  split at h
  · cases h
    exact prefix_write (d.write keyword) "*"
  · split at h
    · rename_i d₁ hrun
      obtain ⟨t, s, -, rfl⟩ := run_eq_ok hrun
      have htrim := prefix_trimSuffix_of_keyword (a := d.text) (u := t) hlen hk hlast
      cases h
      split
      · exact htrim.trans (List.prefix_append _ _)
      · exact htrim
    · rename_i hno
      exact absurd h (hno d' ·)

end Draft

/-! ### The rows of statements -/

namespace Select

open Draft

/-- Joined rows are bound to tables, and nothing is written. -/
theorem exists_of_joinRefs {js : List Join} {refs : List Text} (hd : d.settings = st)
    (h : joinRefs d js = .ok (refs, d')) : ∃ xs : List (Source st),
      xs.map (fun x => some x.row) = js.map (·.row) ∧ refs = xs.map (·.ref) ∧
      d'.settings = st ∧ d'.text = d.text := by
  induction js generalizing d refs with
  | nil =>
    cases h
    exact ⟨[], rfl, rfl, hd, rfl⟩
  | cons j js ih =>
    rw [joinRefs] at h
    obtain ⟨⟨e, name, d₁⟩, h₁, h⟩ := bind_eq_ok.mp h
    obtain ⟨⟨rest, d₂⟩, h₂, h⟩ := bind_eq_ok.mp h
    cases h
    obtain ⟨q, hq, he, -, rfl⟩ := source_eq_ok h₁
    rw [hd] at he
    obtain ⟨xs, hrows, rfl, hst, htext⟩ := ih (by exact hd) h₂
    refine ⟨⟨q, e, name, he⟩ :: xs, ?_, ?_, hst, htext⟩
    · rw [List.map_cons, List.map_cons, hq, hrows]
    · rw [List.map_cons, hst]
      rfl

/-- Joins are written with the tables of their rows. -/
theorem joined_of_writeJoins {js : List Join} {xs : List (Source st)}
    (hrows : xs.map (fun x => some x.row) = js.map (·.row))
    (h : writeJoins d (js.zip (xs.map (·.ref))) = .ok d') :
    ∃ t, Source.Joined js xs t ∧ d'.text = d.text ++ t := by
  induction js generalizing d xs with
  | nil =>
    obtain rfl := List.map_eq_nil_iff.mp hrows
    cases h
    exact ⟨[], .nil, (List.append_nil _).symm⟩
  | cons j js ih =>
    cases xs with
    | nil => cases hrows
    | cons x xs =>
      obtain ⟨hrow, hrows⟩ := List.cons_eq_cons.mp hrows
      rw [List.map_cons, List.zip_cons_cons, writeJoins] at h
      generalize hmarked :
        d.write (" " ++ j.kind.keywords ++ " " ++ x.ref ++ " ON ") = marked at h
      obtain ⟨d₁, on, hon, h⟩ : ∃ d₁ on, d₁.text = marked.text ++ on ∧
          writeJoins (if d₁.text.length = marked.text.length then d₁.write "1 = 1" else d₁)
            (js.zip (xs.map (·.ref))) = .ok d' := by
        split at h
        · exact ⟨marked, [], (List.append_nil _).symm, h⟩
        · obtain ⟨d₁, h₁, h⟩ := bind_eq_ok.mp h
          obtain ⟨t, s, rfl, -⟩ := compile_condition rfl (clause_eq_ok h₁)
          exact ⟨_, t, rfl, h⟩
      obtain ⟨t, ht, htext⟩ := ih hrows h
      -- a condition that emits nothing is written as one that always holds
      obtain ⟨on', hon'⟩ : ∃ on', d'.text = marked.text ++ on' ++ t := by
        rw [htext]
        split
        · exact ⟨on ++ "1 = 1", by simp only [Draft.write, hon, List.append_assoc]⟩
        · exact ⟨on, by rw [hon]⟩
      refine ⟨_, .cons hrow.symm on' ht, ?_⟩
      rw [hon', ← hmarked]
      simp only [Draft.write, List.append_assoc]

/-- The text of a selection names the tables of its rows. -/
theorem exists_sources {s : Select} (hd : d.settings = st) (htext : d.text = [])
    (h : s.write d = .ok d') :
    ∃ sources : List (Source st), sources.map (·.row) = s.rows ∧ s.Places sources d'.text := by
  unfold Select.write at h
  split at h
  · cases h
  · obtain ⟨⟨e, name, d₁⟩, h₁, h⟩ := bind_eq_ok.mp h
    obtain ⟨q, hq, he, -, rfl⟩ := source_eq_ok h₁
    rw [hd] at he
    obtain ⟨⟨refs, d₂⟩, h₂, h⟩ := bind_eq_ok.mp h
    obtain ⟨xs, hrows, rfl, hst, htext₂⟩ := exists_of_joinRefs (by exact hd) h₂
    obtain ⟨d₃, h₃, h⟩ := bind_eq_ok.mp h
    obtain ⟨projection, hprojection⟩ :
        (if s.distinct then "SELECT DISTINCT " else "SELECT " : Text) <+: d₃.text := by
      have hkept := prefix_projection (by split <;> decide) (by split <;> decide)
        (by split <;> decide) h₃
      rwa [htext₂, htext] at hkept
    have hst₃ : d₃.settings = st := (settings_clause h₃).trans hst
    obtain ⟨d₄, h₄, h⟩ := bind_eq_ok.mp h
    obtain ⟨joins, hjoins, htext₄⟩ := joined_of_writeJoins hrows h₄
    obtain ⟨d₅, h₅, h⟩ := bind_eq_ok.mp h
    have htail : d₅.text <+: d'.text := by
      by_cases hg : s.groups.isEmpty = true
      · rw [if_pos hg] at h
        exact prefix_writeTail h
      · rw [if_neg hg] at h
        obtain ⟨d₆, h₆, h⟩ := bind_eq_ok.mp h
        exact (prefix_clause (by decide) (.inl rfl) h₆).trans (prefix_writeTail h)
    obtain ⟨rest, hrest⟩ := (prefix_conditions rfl h₅).trans htail
    refine ⟨⟨q, e, name, he⟩ :: xs, ?_, ⟨q, e, name, he⟩, xs, projection, joins, rest, rfl, hjoins,
      ?_⟩
    · have hjoined : s.joins.filterMap (·.row) = xs.map (·.row) := by
        calc s.joins.filterMap (·.row) = (s.joins.map (·.row)).filterMap id := by
              rw [List.filterMap_map]
              rfl
          _ = (xs.map fun x => some x.row).filterMap id := by rw [hrows]
          _ = xs.map (·.row) := by
              rw [List.filterMap_map]
              exact congrFun List.filterMap_eq_map xs
      rw [Select.rows, hq, hjoined]
      rfl
    · rw [← hrest, htext₄, Draft.write, ← hprojection, hst₃]
      simp only [Source.ref, List.append_assoc]

end Select

/-- Transforms add conditions and keep the rest of a selection. -/
theorem Select.kept_transformAll {s s' : Select} {ts : List Transform}
    (h : transformAll Transform.select ts s = .ok s') :
    s'.rows = s.rows ∧ s'.distinct = s.distinct ∧ s'.joins = s.joins := by
  refine transformAll_induction
    (P := fun x => x.rows = s.rows ∧ x.distinct = s.distinct ∧ x.joins = s.joins)
    ⟨rfl, rfl, rfl⟩ ?_ h
  intro t _ s₁ s₂ hs hst
  cases t with
  | identity | softDelete =>
    cases hst
    exact hs
  | refuse => cases hst
  | policy p =>
    obtain ⟨conds, -, hst⟩ := bind_eq_ok.mp hst
    cases hst
    exact hs

/-- The same of the selection that transforms were applied to, whatever it projects. -/
theorem Select.exists_sources_of_transformAll {s s' : Select} {ts : List Transform} {e : Expr}
    (ht : transformAll Transform.select ts s = .ok s')
    (h : Select.write { s' with projection := e } (.new st) = .ok d) :
    ∃ sources : List (Source st), sources.map (·.row) = s.rows ∧ s.Places sources d.text := by
  have hst : (Draft.new st).settings = st := rfl
  obtain ⟨sources, hrows, hplaces⟩ := exists_sources hst rfl h
  obtain ⟨hrows', hdistinct, hjoins⟩ := kept_transformAll ht
  refine ⟨sources, hrows.trans hrows', ?_⟩
  simpa only [Places, hdistinct, hjoins] using hplaces

/-- **The text of a statement names the tables of its rows.** -/
theorem Statement.exists_sources {s : Statement} {ts : List Transform} (hi : s.isInsertion = false)
    (h : s.compile ts st = .ok d) : ∃ sources : List (Source (s.settings st)),
      sources.map (·.row) = s.rows ∧ s.Places sources d.text := by
  cases s with
  | select s =>
    obtain ⟨s', ht, h⟩ := bind_eq_ok.mp h
    exact Select.exists_sources_of_transformAll ht h
  | aggregate s fn target =>
    simp only [Statement.compile, Select.compileAggregate] at h
    split at h
    · cases h
    · obtain ⟨s', ht, h⟩ := bind_eq_ok.mp h
      exact Select.exists_sources_of_transformAll ht h
  | insert s => cases hi
  | update s =>
    obtain ⟨p, e, rows, assigned, more, hp, he, -, htext, -⟩ := Update.exists_written h
    have hst : (update s).settings st = s.settings p st := by simp only [settings, hp]
    rw [hst]
    refine ⟨[⟨p, e, [], he⟩], ?_, ⟨p, e, [], he⟩,
      Text.join ", " (assigned.map (assignmentText st)) ++ more, rfl, ?_⟩
    · simp only [Statement.rows, hp]
      rfl
    · rw [htext, List.append_assoc]
      rfl
  | delete s =>
    simp only [Statement.compile, Delete.compile] at h
    split at h
    · cases h
    · rename_i p hp
      obtain ⟨⟨e, name, d₁⟩, h₁, h⟩ := bind_eq_ok.mp h
      obtain ⟨q, hq, he, -, rfl⟩ := Draft.source_eq_ok h₁
      obtain rfl := Option.some.inj hq
      obtain ⟨s₁, -, h⟩ := bind_eq_ok.mp h
      obtain ⟨s₂, -, h⟩ := bind_eq_ok.mp h
      obtain ⟨rest, hrest⟩ := Draft.prefix_conditions rfl h
      refine ⟨[⟨p, e, [], he⟩], ?_, ⟨p, e, [], he⟩, rest, rfl, ?_⟩
      · simp only [Statement.rows, hp]
        rfl
      · rw [← hrest]
        rfl

/-! ### The rows that a policy sees -/

/-- A row is mapped if its type has a table of its own. -/
theorem mem_mappedRows_iff {r : Registry} {rows : List Param} {x : Param × Entity} :
    x ∈ mappedRows r rows ↔ x.1 ∈ rows ∧ r.entity x.1.type = .ok x.2 := by
  constructor
  · intro h
    refine ⟨mem_of_mem_mappedRows h, ?_⟩
    obtain ⟨p, -, hx⟩ := List.mem_filterMap.mp h
    split at hx
    · cases hx
    · split at hx
      · rename_i he
        cases hx
        exact he
      · cases hx
  · rintro ⟨hx, he⟩
    refine List.mem_filterMap.mpr ⟨x.1, hx, ?_⟩
    rw [Registry.not_isAnonymous he]
    simp only [he]
    rfl

/-- The tables that a policy sees are those of the rows whose types are not unnamed. -/
theorem Source.exists_mappedRows_iff {sources : List (Source st)} {table : Text} :
    (∃ x ∈ mappedRows st.registry (sources.map (·.row)), x.2.table = table) ↔
      ∃ x ∈ sources, x.entity.table = table ∧ st.registry.isAnonymous x.row.type = false := by
  constructor
  · rintro ⟨⟨p, e⟩, hx, rfl⟩
    obtain ⟨hp, he⟩ := mem_mappedRows_iff.mp hx
    obtain ⟨x, hsource, rfl⟩ := List.mem_map.mp hp
    have hentity : e = x.entity := by
      have h := x.entityOf
      rw [Settings.entityOf_of_entity he] at h
      exact Except.ok.inj h
    exact ⟨x, hsource, by rw [hentity], Registry.not_isAnonymous he⟩
  · rintro ⟨x, hx, rfl, hnamed⟩
    have he := x.entityOf
    rw [Settings.entityOf, hnamed] at he
    exact ⟨(x.row, x.entity), mem_mappedRows_iff.mpr ⟨List.mem_map_of_mem hx, he⟩, rfl⟩

/-- A list of steps fails if one of them does. -/
theorem exists_mapM_eq_error {ε α β : Type} {f : α → Except ε β} {xs : List α} {x : α} (hx : x ∈ xs)
    {e : ε} (he : f x = .error e) : ∃ e', xs.mapM f = .error e' := by
  induction xs with
  | nil => cases hx
  | cons y ys ih =>
    rw [List.mapM_cons]
    cases hy : f y with
    | error e' => exact ⟨e', rfl⟩
    | ok b =>
      rcases List.mem_cons.mp hx with rfl | hx
      · rw [hy] at he
        cases he
      · obtain ⟨e', h⟩ := ih hx
        rw [h]
        exact ⟨e', rfl⟩

/-- It fails as one of its steps does. -/
theorem exists_of_mapM_eq_error {ε α β : Type} {f : α → Except ε β} {xs : List α} {e : ε}
    (h : xs.mapM f = .error e) : ∃ x ∈ xs, f x = .error e := by
  induction xs with
  | nil => cases h
  | cons y ys ih =>
    rw [List.mapM_cons] at h
    cases hy : f y with
    | error e' =>
      rw [hy] at h
      cases h
      exact ⟨y, List.mem_cons_self, hy⟩
    | ok b =>
      rw [hy] at h
      cases hys : ys.mapM f with
      | error e' =>
        rw [hys] at h
        cases h
        obtain ⟨x, hx, he⟩ := ih hys
        exact ⟨x, List.mem_cons_of_mem y hx, he⟩
      | ok bs =>
        rw [hys] at h
        cases h

/-- Steps that agree on a list agree on it as a whole. -/
theorem mapM_congr_mem {ε α β : Type} {f g : α → Except ε β} {xs : List α}
    (h : ∀ x ∈ xs, f x = g x) : xs.mapM f = xs.mapM g := by
  induction xs with
  | nil => rfl
  | cons x xs ih =>
    rw [List.mapM_cons, List.mapM_cons, h x List.mem_cons_self,
      ih fun y hy => h y (List.mem_cons_of_mem x hy)]

namespace Policy

variable {p q : Policy} {rows : List Param}

/-- The refusal of a statement because of a table. -/
def refusal (table : Text) (r : Refusal) : StatementError :=
  .refused { r with message := "policy " ++ table ++ ": " ++ r.message }

/-- The policy with another rule for one table. -/
def ruling (p : Policy) (table : Text) (rule : Except Refusal (List Expr)) : Policy :=
  { p with rules := fun t => if t = table then rule else p.rules t }

theorem rules_ruling_self (p : Policy) (table : Text) (rule : Except Refusal (List Expr)) :
    (p.ruling table rule).rules table = rule := if_pos rfl

theorem rules_ruling_of_ne (p : Policy) {t table : Text} (h : t ≠ table)
    (rule : Except Refusal (List Expr)) : (p.ruling table rule).rules t = p.rules t := if_neg h

/-- The conditions that a policy adds for a row. -/
def conditionsFor (p : Policy) (x : Param × Entity) : Except StatementError (List Expr) :=
  match p.rules x.2.table with
  | .ok conds => .ok (conds.map (Policy.apply x.1))
  | .error r => .error (refusal x.2.table r)

theorem conditions_eq (p : Policy) (rows : List Param) : p.conditions rows =
    (mappedRows p.registry rows).mapM p.conditionsFor >>= fun conds => pure conds.flatten := rfl

theorem conditionsFor_of_rules_error {x : Param × Entity} {r : Refusal}
    (h : p.rules x.2.table = .error r) : p.conditionsFor x = .error (refusal x.2.table r) := by
  simp only [conditionsFor, h]

theorem exists_of_conditionsFor_eq_error {x : Param × Entity} {e : StatementError}
    (h : p.conditionsFor x = .error e) :
    ∃ r, p.rules x.2.table = .error r ∧ e = refusal x.2.table r := by
  unfold conditionsFor at h
  split at h
  · cases h
  · rename_i r hr
    cases h
    exact ⟨r, hr, rfl⟩

/-- A policy that refuses the table of a row refuses the rows. -/
theorem conditions_eq_error {x : Param × Entity} {r : Refusal} (hx : x ∈ mappedRows p.registry rows)
    (hr : p.rules x.2.table = .error r) : ∃ y ∈ mappedRows p.registry rows, ∃ r',
      p.rules y.2.table = .error r' ∧ p.conditions rows = .error (refusal y.2.table r') := by
  obtain ⟨e, hfail⟩ := exists_mapM_eq_error hx (conditionsFor_of_rules_error hr)
  obtain ⟨y, hy, he⟩ := exists_of_mapM_eq_error hfail
  obtain ⟨r', hr', rfl⟩ := exists_of_conditionsFor_eq_error he
  refine ⟨y, hy, r', hr', ?_⟩
  rw [conditions_eq, hfail]
  rfl

/-- A policy with conditions for rows allows their tables. -/
theorem allows_of_conditions {conds : List Expr} (h : p.conditions rows = .ok conds) :
    ∀ x ∈ mappedRows p.registry rows, ∃ cs, p.rules x.2.table = .ok cs := by
  intro x hx
  cases hr : p.rules x.2.table with
  | ok cs => exact ⟨cs, rfl⟩
  | error r =>
    obtain ⟨y, -, r', -, hfail⟩ := conditions_eq_error hx hr
    cases hfail.symm.trans h

/-- Only the rules for the tables of rows matter. -/
theorem conditions_congr (hreg : p.registry = q.registry)
    (h : ∀ x ∈ mappedRows q.registry rows, p.rules x.2.table = q.rules x.2.table) :
    p.conditions rows = q.conditions rows := by
  have hrows : (mappedRows q.registry rows).mapM p.conditionsFor =
      (mappedRows q.registry rows).mapM q.conditionsFor := by
    refine mapM_congr_mem fun x hx => ?_
    simp only [conditionsFor, h x hx]
  rw [conditions_eq, conditions_eq, hreg, hrows]

/-- A policy that allows rows and then refuses one of their tables refuses the rows for it. -/
theorem conditions_ruling_error {conds : List Expr} {table : Text}
    (h : p.conditions rows = .ok conds) (hx : ∃ x ∈ mappedRows p.registry rows, x.2.table = table)
    (r : Refusal) : (p.ruling table (.error r)).conditions rows = .error (refusal table r) := by
  obtain ⟨x, hx, rfl⟩ := hx
  obtain ⟨y, hy, r', hr', hfail⟩ := conditions_eq_error (p := p.ruling x.2.table (.error r)) hx
    (rules_ruling_self p _ _)
  -- the policy allows every other table, so the row that is refused has this one
  have htable : y.2.table = x.2.table := by
    by_contra hne
    obtain ⟨cs, hcs⟩ := allows_of_conditions h y hy
    rw [rules_ruling_of_ne p hne, hcs] at hr'
    cases hr'
  rw [htable, rules_ruling_self] at hr'
  cases hr'
  rw [hfail, htable]

/-- A rule for another table than those of rows does not matter for them. -/
theorem conditions_ruling_of_not_mem {table : Text}
    (h : ¬ ∃ x ∈ mappedRows p.registry rows, x.2.table = table)
    (rule : Except Refusal (List Expr)) :
    (p.ruling table rule).conditions rows = p.conditions rows := by
  refine conditions_congr rfl fun x hx => rules_ruling_of_ne p ?_ rule
  exact fun htable => h ⟨x, hx, htable⟩

end Policy

/-! ### Transforms -/

/-- Transforms of statements of a kind ask a policy about the rows of a statement, and do not change
the rows. -/
structure AskAboutRows {σ : Type} (f : σ → Transform → Except StatementError σ)
    (rows : σ → List Param) : Prop where
  kept : ∀ {t s s'}, f s t = .ok s' → rows s' = rows s
  policy : ∃ add : σ → List Expr → σ, ∀ p s, f s (.policy p) = (p.conditions (rows s)).map (add s)

theorem Select.askAboutRows : AskAboutRows Transform.select Select.rows where
  kept := by
    intro t s s' h
    cases t with
    | identity | softDelete =>
      cases h
      rfl
    | refuse => cases h
    | policy p =>
      obtain ⟨conds, -, h⟩ := bind_eq_ok.mp h
      cases h
      rfl
  policy := ⟨fun s conds => { s with wheres := s.wheres ++ conds }, fun _ _ => rfl⟩

theorem Update.askAboutRows : AskAboutRows Transform.update fun s => s.target.toList where
  kept := by
    intro t s s' h
    cases t with
    | identity | softDelete =>
      cases h
      rfl
    | refuse => cases h
    | policy p =>
      obtain ⟨conds, -, h⟩ := bind_eq_ok.mp h
      cases h
      rfl
  policy := ⟨fun s conds => { s with wheres := s.wheres ++ conds }, fun _ _ => rfl⟩

theorem Delete.askAboutRows : AskAboutRows Transform.delete fun s => s.source.toList where
  kept := by
    intro t s s' h
    cases t with
    | identity | softDelete =>
      cases h
      rfl
    | refuse => cases h
    | policy p =>
      obtain ⟨conds, -, h⟩ := bind_eq_ok.mp h
      cases h
      rfl
  policy := ⟨fun s conds => { s with wheres := s.wheres ++ conds }, fun _ _ => rfl⟩

section transformAll

variable {σ : Type} {f : σ → Transform → Except StatementError σ} {rows : σ → List Param}
  {t : Transform} {ts us : List Transform} {s s₁ s' : σ}

theorem transformAll_append (h : transformAll f ts s = .ok s₁) (us : List Transform) :
    transformAll f (ts ++ us) s = transformAll f us s₁ := by
  have hfold : ts.foldlM f s = .ok s₁ := by
    unfold transformAll at h
    split at h
    · rename_i hfold
      cases h
      exact hfold
    · cases h
  simp only [transformAll, List.foldlM_append, hfold]
  rfl

theorem exists_of_transformAll_append (h : transformAll f (ts ++ us) s = .ok s') :
    ∃ s₁, transformAll f ts s = .ok s₁ := by
  cases hfold : ts.foldlM f s with
  | ok s₁ => exact ⟨s₁, by simp only [transformAll, hfold]⟩
  | error e =>
    simp only [transformAll, List.foldlM_append, hfold] at h
    cases h

theorem transformAll_cons_ok (h : f s t = .ok s₁) (ts : List Transform) :
    transformAll f (t :: ts) s = transformAll f ts s₁ := by
  simp only [transformAll, List.foldlM_cons, h]
  rfl

theorem transformAll_cons_error {e : StatementError} (h : f s t = .error e) (ts : List Transform) :
    transformAll f (t :: ts) s = .fail e := by
  simp only [transformAll, List.foldlM_cons, h]
  rfl

end transformAll

/-- Soft deletions beside a policy do not keep it from refusing. -/
theorem AskAboutRows.refused {σ : Type} {f : σ → Transform → Except StatementError σ}
    {rows : σ → List Param} (hf : AskAboutRows f rows)
    (hsoft : ∀ s r, ∃ s', f s (.softDelete r) = .ok s') {ts : List Transform} {p : Policy} {s : σ}
    {e : StatementError} (hp : .policy p ∈ ts)
    (hts : ∀ t ∈ ts, t = .policy p ∨ ∃ r, t = .softDelete r)
    (he : p.conditions (rows s) = .error e) : transformAll f ts s = .fail e := by
  induction ts generalizing s with
  | nil => cases hp
  | cons t ts ih =>
    rcases hts t List.mem_cons_self with rfl | ⟨r, rfl⟩
    · obtain ⟨add, hadd⟩ := hf.policy
      refine transformAll_cons_error ?_ ts
      rw [hadd, he]
      rfl
    · obtain ⟨s', hs'⟩ := hsoft s r
      rw [transformAll_cons_ok hs']
      refine ih ?_ (fun t ht => hts t (List.mem_cons_of_mem _ ht)) ?_
      · exact (List.mem_cons.mp hp).resolve_left nofun
      · rwa [hf.kept hs']

/-- What is attempted with a policy depends on what the policy says about rows: it allows them, a
policy that refuses them refuses the attempt, and one that has the same conditions for them does not
change it. -/
structure Policy.Decides {α : Type} (p : Policy) (rows : List Param)
    (x : Policy → Attempt StatementError α) : Prop where
  allowed : ∃ conds, p.conditions rows = .ok conds
  refused : ∀ q e, q.conditions rows = .error e → x q = .fail e
  kept : ∀ q, q.conditions rows = p.conditions rows → x q = x p

/-- What follows on an attempt depends on the policy in the same way. -/
theorem Policy.Decides.bind {α β : Type} {p : Policy} {rows : List Param}
    {x : Policy → Attempt StatementError α} (h : p.Decides rows x)
    (k : α → Attempt StatementError β) : p.Decides rows fun q => x q >>= k where
  allowed := h.allowed
  refused q e hq := by
    rw [h.refused q e hq]
    rfl
  kept q hq := by rw [h.kept q hq]

/-- Transforms depend on a policy among them. -/
theorem AskAboutRows.decides {σ : Type} {f : σ → Transform → Except StatementError σ}
    {rows : σ → List Param} (hf : AskAboutRows f rows) {before after : List Transform} {p : Policy}
    {s s' : σ} (h : transformAll f (before ++ .policy p :: after) s = .ok s') :
    p.Decides (rows s) fun q => transformAll f (before ++ .policy q :: after) s := by
  obtain ⟨s₁, hbefore⟩ := exists_of_transformAll_append h
  have hrows : rows s₁ = rows s :=
    transformAll_induction (P := fun x => rows x = rows s) rfl
      (fun t _ _ _ hs hst => (hf.kept hst).trans hs) hbefore
  obtain ⟨add, hadd⟩ := hf.policy
  simp only [transformAll_append hbefore] at h ⊢
  constructor
  · cases hconds : p.conditions (rows s) with
    | ok conds => exact ⟨conds, rfl⟩
    | error e =>
      rw [transformAll_cons_error (e := e)] at h
      · cases h
      · rw [hadd, hrows, hconds]
        rfl
  · intro q e hq
    refine transformAll_cons_error ?_ after
    rw [hadd, hrows, hq]
    rfl
  · intro q hq
    have hsame : f s₁ (.policy q) = f s₁ (.policy p) := by rw [hadd, hadd, hrows, hq]
    simp only [transformAll, List.foldlM_cons, hsame]

/-- A row whose type has a table can be bound. -/
theorem Draft.exists_source_of_entity {p : Param} {e : Entity}
    (h : d.settings.registry.entity p.type = .ok e) :
    ∃ name d', d.source (some p) = .ok (e, name, d') := by
  simp only [Draft.source, Draft.bindRow, Slate.bindRow, Settings.entityOf_of_entity h]
  exact ⟨_, _, rfl⟩

/-- An update is transformed once its table and its key are known. -/
theorem Update.compile_eq_of_keyed {s s₁ : Update} {p : Param} {e : Entity} {name : Text}
    (hp : s.target = some p)
    (hsource : (Draft.new (s.settings p st)).source (some p) = .ok (e, name, d))
    (hk : s.keyed e p = .ok s₁) (ts : List Transform) : s.compile ts st =
      transformAll Transform.update ts s₁ >>= fun s₂ =>
        (d.write ("UPDATE " ++ st.ident e.table ++ " SET ")).clause s₂.assigned .update [] >>=
          fun d => d.conditions " WHERE " s₂.wheres .where_ := by
  unfold Update.settings at hsource
  simp only [Update.compile, hp, hsource]
  change s.keyed e p >>= _ = _
  rw [hk]
  rfl

/-- A deletion is transformed once its table and its keys are known. -/
theorem Delete.compile_eq_of_keyed {s s₁ : Delete} {p : Param} {e : Entity} {name : Text}
    (hp : s.source = some p)
    (hsource : (Draft.new (Delete.settings st)).source (some p) = .ok (e, name, d))
    (hk : s.keyed e p = .ok s₁) (ts : List Transform) : s.compile ts st =
      transformAll Transform.delete ts s₁ >>= fun s₂ =>
        (d.write ("DELETE FROM " ++ st.ident e.table)).conditions " WHERE " s₂.wheres .where_ := by
  unfold Delete.settings at hsource
  simp only [Delete.compile, hp, hsource]
  change s.keyed e p >>= _ = _
  rw [hk]
  rfl

/-! ### What a policy decides -/

namespace Statement

variable {s : Statement} {before after : List Transform} {p : Policy}

/-- A statement depends on a policy among its transforms. -/
theorem decides (hi : s.isInsertion = false)
    (h : s.compile (before ++ .policy p :: after) st = .ok d) :
    p.Decides s.rows fun q => s.compile (before ++ .policy q :: after) st := by
  cases s with
  | select s =>
    obtain ⟨s', ht, -⟩ := bind_eq_ok.mp h
    exact (Select.askAboutRows.decides ht).bind _
  | aggregate s fn target =>
    simp only [Statement.compile, Select.compileAggregate] at h ⊢
    split at h
    · cases h
    · rename_i hfn
      obtain ⟨s', ht, -⟩ := bind_eq_ok.mp h
      simp only [hfn]
      exact (Select.askAboutRows.decides ht).bind _
  | insert s => cases hi
  | update s =>
    simp only [Statement.compile] at h ⊢
    have hcompile := h
    unfold Update.compile at h
    split at h
    · cases h
    · rename_i target htarget
      obtain ⟨⟨e, name, d₁⟩, h₁, h⟩ := bind_eq_ok.mp h
      obtain ⟨s₁, hk, -⟩ := bind_eq_ok.mp h
      simp only [Update.compile_eq_of_keyed htarget h₁ hk] at hcompile ⊢
      obtain ⟨s₂, ht, -⟩ := bind_eq_ok.mp hcompile
      have hdecides := Update.askAboutRows.decides ht
      rw [(Update.wheres_keyed hk).1] at hdecides
      exact hdecides.bind _
  | delete s =>
    simp only [Statement.compile] at h ⊢
    have hcompile := h
    unfold Delete.compile at h
    split at h
    · cases h
    · rename_i source hsource
      obtain ⟨⟨e, name, d₁⟩, h₁, h⟩ := bind_eq_ok.mp h
      obtain ⟨s₁, hk, -⟩ := bind_eq_ok.mp h
      simp only [Delete.compile_eq_of_keyed hsource h₁ hk] at hcompile ⊢
      obtain ⟨s₂, ht, -⟩ := bind_eq_ok.mp hcompile
      have hdecides := Delete.askAboutRows.decides ht
      rw [(Delete.wheres_keyed hk).1] at hdecides
      exact hdecides.bind _

/-- A statement asks a policy, which stands between other transforms, about a table: the policy
allows the table, and would the policy refuse it, then the statement would be refused for it. -/
structure Consults (s : Statement) (before : List Transform) (p : Policy) (after : List Transform)
    (st : Settings) (table : Text) : Prop where
  allowed : ∃ conds, p.rules table = .ok conds
  refused : ∀ r, s.compile (before ++ .policy (p.ruling table (.error r)) :: after) st =
    .fail (Policy.refusal table r)

/-- A statement compiles to the same whatever a policy says about a table. -/
def Disregards (s : Statement) (before : List Transform) (p : Policy) (after : List Transform)
    (st : Settings) (table : Text) : Prop :=
  ∀ rule, s.compile (before ++ .policy (p.ruling table rule) :: after) st =
    s.compile (before ++ .policy p :: after) st

theorem consults_of_mappedRows (hi : s.isInsertion = false)
    (h : s.compile (before ++ .policy p :: after) st = .ok d) {table : Text}
    (hx : ∃ x ∈ mappedRows p.registry s.rows, x.2.table = table) :
    s.Consults before p after st table := by
  have hdecides := decides hi h
  obtain ⟨conds, hconds⟩ := hdecides.allowed
  refine ⟨?_, fun r => hdecides.refused _ _ (Policy.conditions_ruling_error hconds hx r)⟩
  obtain ⟨x, hx, rfl⟩ := hx
  exact Policy.allows_of_conditions hconds x hx

theorem disregards_of_mappedRows (hi : s.isInsertion = false)
    (h : s.compile (before ++ .policy p :: after) st = .ok d) {table : Text}
    (hx : ¬ ∃ x ∈ mappedRows p.registry s.rows, x.2.table = table) :
    s.Disregards before p after st table := fun rule =>
  (decides hi h).kept _ (Policy.conditions_ruling_of_not_mem hx rule)

/-- A table that a policy is asked about is not disregarded. -/
theorem Consults.not_disregards {table : Text} (hc : s.Consults before p after st table)
    (h : s.compile (before ++ .policy p :: after) st = .ok d) :
    ¬ s.Disregards before p after st table := by
  intro hd
  have hfail := hc.refused ⟨[], []⟩
  rw [hd, h] at hfail
  cases hfail

end Statement

theorem Statement.settings_registry (s : Statement) (st : Settings) :
    (s.settings st).registry = st.registry := by
  cases s with
  | update s =>
    simp only [Statement.settings]
    split <;> rfl
  | _ => rfl

/-- **The tables that a policy is asked about.** A selection, update or deletion that compiles under
a policy with the same registry names the tables of its rows, each that of the entity the row is
read as. The policy is asked about exactly those of them that are the table of a row whose type is
not unnamed; all others may have any rule. So it is asked about every table that is named if and
only if every one is the table of such a row. -/
theorem consults_iff_named {s : Statement} (before : List Transform) (p : Policy)
    (after : List Transform) (hi : s.isInsertion = false) (hp : p.registry = st.registry)
    (h : s.compile (before ++ .policy p :: after) st = .ok d) :
    ∃ sources : List (Source (s.settings st)), sources.map (·.row) = s.rows ∧
      s.Places sources d.text ∧
      (∀ table, (s.Consults before p after st table ↔ ∃ x ∈ sources, x.entity.table = table ∧
          st.registry.isAnonymous x.row.type = false) ∧
        (s.Disregards before p after st table ↔ ∀ x ∈ sources, x.entity.table = table →
          st.registry.isAnonymous x.row.type = true)) ∧
      ((∀ x ∈ sources, s.Consults before p after st x.entity.table) ↔
        ∀ x ∈ sources, ∃ y ∈ sources, y.entity.table = x.entity.table ∧
          st.registry.isAnonymous y.row.type = false) := by
  obtain ⟨sources, hrows, hplaces⟩ := Statement.exists_sources hi h
  have hseen : ∀ table, (∃ x ∈ mappedRows p.registry s.rows, x.2.table = table) ↔
      ∃ x ∈ sources, x.entity.table = table ∧ st.registry.isAnonymous x.row.type = false := by
    intro table
    rw [hp, ← hrows, ← s.settings_registry st]
    exact Source.exists_mappedRows_iff
  have hconsults : ∀ table, s.Consults before p after st table ↔ ∃ x ∈ sources,
      x.entity.table = table ∧ st.registry.isAnonymous x.row.type = false := by
    intro table
    refine ⟨fun hc => ?_, fun hx => Statement.consults_of_mappedRows hi h ((hseen table).mpr hx)⟩
    by_contra hno
    exact hc.not_disregards h
      (Statement.disregards_of_mappedRows hi h fun hx => hno ((hseen table).mp hx))
  refine ⟨sources, hrows, hplaces, fun table => ⟨hconsults table, ?_⟩,
    forall₂_congr fun x _ => hconsults x.entity.table⟩
  constructor
  · intro hd x hx htable
    by_contra hnamed
    refine ((hconsults table).mpr ⟨x, hx, htable, ?_⟩).not_disregards h hd
    exact Bool.eq_false_iff.mpr hnamed
  · intro hall
    refine Statement.disregards_of_mappedRows hi h fun hx => ?_
    obtain ⟨x, hx, htable, hnamed⟩ := (hseen table).mp hx
    rw [hall x hx htable] at hnamed
    cases hnamed

/-! ### A denied table behind an unnamed type -/

namespace Sample

/-- The policy that every table may be read and changed. -/
def allowAll : Policy := ⟨fun _ => .ok [], .standard⟩

/-- The policy that no statement touches customers. -/
def denyCustomers : Policy :=
  ⟨fun table => if table = ("customers" : Text) then .error ⟨"denied", []⟩ else .ok [], .standard⟩

/-- A row of a record type without a name. -/
def shapeRow : Param := ⟨1, "a", some (.record [plain "Age" (.int .int)])⟩

/-- Settings in which rows of unnamed types are customers. -/
def customersByDefault : Settings :=
  { Settings.standard .sqlServer world with defaultType := some customer }

end Sample

open Sample

/-- A policy is asked about the customers. -/
theorem consults_iff_named_customers : ∃ d,
    (Statement.select (customersWith [])).compile [.policy allowAll] (.standard .sqlServer world) =
      .ok d ∧
    (Statement.select (customersWith [])).Consults [] allowAll [] (.standard .sqlServer world)
      "customers" := by
  have text : statementText? (.select (customersWith [])) [.policy allowAll]
      (.standard .sqlServer world) = some ("SELECT * FROM customers AS c" : Text) := by
    decide
  obtain ⟨d, hd, -⟩ := compile_of_statementText? text
  obtain ⟨sources, hrows, -, hconsults, -⟩ := consults_iff_named [] allowAll [] rfl rfl hd
  refine ⟨d, hd, (hconsults "customers").1.mpr ?_⟩
  have hrow : customerRow ∈ sources.map (·.row) := by
    rw [hrows]
    exact List.mem_singleton_self customerRow
  obtain ⟨x, hx, hrow⟩ := List.mem_map.mp hrow
  have he := x.entityOf
  rw [hrow] at he
  refine ⟨x, hx, ?_, ?_⟩
  · rw [← Except.ok.inj he]
    decide
  · rw [hrow]
    decide

/-- **A table that is denied is read and changed as the default of unnamed types.** The policy
denies the customers, and a row of their own type is refused. -/
theorem exists_statement_past_policy :
    (∃ d, (Statement.select (.all (some shapeRow))).compile [.policy denyCustomers]
        customersByDefault = .ok d ∧ d.text = "SELECT * FROM customers AS a") ∧
    (∃ d, (Statement.delete ⟨some shapeRow, [], []⟩).compile [.policy denyCustomers]
        customersByDefault = .ok d ∧ d.text = "DELETE FROM customers") ∧
    denyCustomers.rules "customers" = .error ⟨"denied", []⟩ ∧
    denyCustomers.registry = customersByDefault.registry ∧
    (Statement.select (.all (some customerRow))).compile [.policy denyCustomers]
      customersByDefault = .fail (Policy.refusal "customers" ⟨"denied", []⟩) := by
  have select : statementText? (.select (.all (some shapeRow))) [.policy denyCustomers]
      customersByDefault = some ("SELECT * FROM customers AS a" : Text) := by
    decide
  have delete : statementText? (.delete ⟨some shapeRow, [], []⟩) [.policy denyCustomers]
      customersByDefault = some ("DELETE FROM customers" : Text) := by
    decide
  exact ⟨compile_of_statementText? select, compile_of_statementText? delete, rfl, rfl, rfl⟩

end QueryTree
