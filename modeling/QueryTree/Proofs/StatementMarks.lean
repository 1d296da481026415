import QueryTree.Proofs.Placeholder
import QueryTree.Proofs.StatementNames
import QueryTree.Sample.Conditions

/-!
# The marks of statements

A statement is written clause by clause. Each step leaves the draft tidy, so the marks of a whole
statement are those of all its bound values, each once and in order: `placeholder 1` up to
`placeholder n`. Keywords and names in between hold no marks, and a clause that emits nothing is
taken back together with its keyword.

## Main definitions

* `Statement.Plain`: the names of a statement are quoted or plain

## Main results

* `Draft.Tidy.conditions`: what writing a conjunction leaves
* `marks_eq_placeholders`: the marks of every clause and of every statement
-/

namespace QueryTree

open Sql Emit

variable {st : Settings} {d d' : Draft}

namespace Draft

/-! ### Parts of statements -/

theorem write_write (d : Draft) (a b : Text) : (d.write a).write b = d.write (a ++ b) := by
  simp [write]

/-- Writing a name between two keywords. -/
theorem Tidy.write_between {a b w : Text} (h : Tidy st d) (ha : isKeyword a = true)
    (hw : ∀ n, Sql.Tidy st.dialect n n w) (hb : isKeyword b = true) :
    Ready st (d.write (a ++ w ++ b)) := by
  rw [← write_write, ← write_write]
  exact ((h.write ha).write hw).write hb

/-- What a clause that succeeds compiles to. -/
theorem clause_eq_ok {e : Expr} {c : Clause} {ds : List Direction} (h : d.clause e c ds = .ok d') :
    d.compile e c ds = (d', .ok ()) := by
  unfold Draft.clause at h
  split at h
  · rename_i hc
    cases h
    exact hc
  · cases h
  · cases h

theorem Ready.clause {e : Expr} {c : Clause} {ds : List Direction} (hd : Ready st d)
    (he : e.Named st (.plain st.quoted)) (hw : e.WritesPlain st c)
    (h : d.clause e c ds = .ok d') : Tidy st d' :=
  hd.compile he hw (clause_eq_ok h)

/-- Binding a row gives it an alias and leaves the rest of the draft as it is. -/
theorem source_eq_ok {p : Option Param} {e : Entity} {name : Text}
    (h : d.source p = .ok (e, name, d')) : ∃ q, p = some q ∧ d.settings.entityOf q.type = .ok e ∧
      name = (d.slate.aliases.bind q e.table).1 ∧
      d' = { d with slate := { d.slate with aliases := (d.slate.aliases.bind q e.table).2 } } := by
  cases p with
  | none => cases h
  | some q =>
    simp only [source, bindRow, Slate.bindRow] at h
    cases he : d.settings.entityOf q.type with
    | error =>
      simp only [he] at h
      cases h
    | ok e' =>
      simp only [he, Except.ok.injEq, Prod.mk.injEq] at h
      obtain ⟨rfl, rfl, rfl⟩ := h
      exact ⟨q, rfl, he, rfl, rfl⟩

theorem Ready.source {p : Option Param} {e : Entity} {name : Text} (hd : Ready st d)
    (hp : ∀ q ∈ p, q.Named st (.plain st.quoted)) (h : d.source p = .ok (e, name, d')) :
    Ready st d' ∧ e.Named (.plain st.quoted) ∧ (Lexicon.plain st.quoted).Alias name := by
  obtain ⟨q, rfl, he, rfl, rfl⟩ := source_eq_ok h
  obtain ⟨hname, hentity⟩ := hp q rfl
  rw [hd.settings] at he
  obtain ⟨htable, hnamed⟩ := hentity e he
  obtain ⟨ha, hw⟩ := hd.aliases.bind hname fun h => .inr (htable h)
  exact ⟨⟨⟨hd.settings, hw, hd.text⟩, hd.trimmed⟩, hnamed, ha⟩

theorem tidy_tableRef {table name : Text} (ht : (Lexicon.plain st.quoted).Name table)
    (hn : (Lexicon.plain st.quoted).Alias name) (n : Nat) :
    Sql.Tidy st.dialect n n (st.tableRef table name) := by
  unfold Settings.tableRef
  split
  · exact tidy_ident (.inr ht)
  · refine (tidy_ident (.inr ht)).join ?_ (tidy_ident hn)
    show isBreak st.dialect.profile.aliasKeyword = true
    cases st.dialect <;> decide

/-- What compiling a condition adds to a draft. -/
theorem compile_condition {e : Expr} {c : Clause} {ds : List Direction}
    (hc : c.isCondition = true) (h : d.compile e c ds = (d', .ok ())) :
    ∃ t s, d' = { d with text := d.text ++ t, slate := s } ∧
      ((e.isHole = true ∧ t = [] ∧ s = d.slate) ∨
        Yields ((e.render d.settings).condition c) d.slate t s) := by
  unfold Draft.compile at h
  split at h
  · rename_i hhole
    refine ⟨[], d.slate, ?_, .inl ⟨hhole, rfl, rfl⟩⟩
    cases c <;> first | cases hc; done | (cases h; simp)
  · split at h
    · rename_i d₁ hrun
      obtain ⟨t, s, hy, rfl⟩ := run_eq_ok hrun
      refine ⟨t, s, ?_, .inr ?_⟩
      · cases c <;> first | cases hc; done | (cases h; rfl)
      · cases c <;> first | cases hc; done | exact hy
    · rename_i hno
      exact absurd h (hno d' ·)

/-- What a condition yields is appended to a draft. -/
theorem compile_of_yields {e : Expr} {c : Clause} {t : Text} {s : Slate}
    (hc : c.isCondition = true) (he : e.isHole = false)
    (h : Yields ((e.render d.settings).condition c) d.slate t s) :
    d.compile e c [] = ({ d with text := d.text ++ t, slate := s }, .ok ()) := by
  have hrun : d.run ((e.render d.settings).condition c) =
      ({ d with text := d.text ++ t, slate := s }, .ok ()) := by
    have hresult : StateT.run (ExceptT.run ((e.render d.settings).condition c)) d.slate =
        (.ok t, s) := h
    rw [run, hresult]
  cases c <;> first | cases hc; done | simp only [Draft.compile, he, emitted, hrun]; rfl

/-- A condition that emits nothing binds nothing. -/
theorem Ready.clause_of_length_eq {e : Expr} {c : Clause} (hd : Ready st d)
    (hc : c.isCondition = true) (he : e.Named st (.plain st.quoted))
    (h : d.clause e c [] = .ok d') (hlen : d'.text.length = d.text.length) :
    Ready st d' ∧ d'.slate.params.length = d.slate.params.length := by
  obtain ⟨t, s, rfl, ht⟩ := compile_condition hc (clause_eq_ok h)
  obtain rfl : t = [] := by simpa using hlen
  rcases ht with ⟨-, -, rfl⟩ | hy
  · exact ⟨by simpa using hd, rfl⟩
  · rw [hd.settings] at hy
    obtain ⟨hs, ht⟩ := (Expr.lawful_render he).condition c _ [] s hd.aliases hy
    have hcount : d.slate.params.length = s.params.length := (grammar _ _).counts ht
    refine ⟨⟨⟨hd.settings, hs, ?_⟩, ?_⟩, hcount.symm⟩
    · simpa only [← hcount, List.append_nil] using hd.text
    · simpa only [← hcount, List.append_nil] using hd.trimmed

/-- A conjunction leaves the draft tidy, also when it emits nothing and its keyword is taken
back. -/
theorem Tidy.conditions {keyword : Text} {conds : List Expr} {c : Clause} (hd : Tidy st d)
    (hk : isKeyword keyword = true) (hc : c.isCondition = true)
    (hn : ∀ e ∈ conds, e.Named st (.plain st.quoted))
    (h : d.conditions keyword conds c = .ok d') : Tidy st d' := by
  unfold Draft.conditions at h
  split at h
  · cases h
    exact hd
  · obtain ⟨d₁, h₁, h⟩ := bind_eq_ok.mp h
    cases h
    have hnamed : (Expr.allOf conds).Named st (.plain st.quoted) := Expr.named_joined hn
    split
    · rename_i hlen
      obtain ⟨hd₁, hcount⟩ := (hd.write hk).clause_of_length_eq hc hnamed h₁ hlen
      refine ⟨hd₁.settings, hd₁.aliases, ?_⟩
      show Sql.Tidy st.dialect 0 d₁.slate.params.length d.text
      rw [hcount]
      exact hd.text
    · refine (hd.write hk).clause hnamed ?_ h₁
      cases c <;> first | cases hc; done | trivial

end Draft

/-! ### Selections -/

namespace Select

open Draft

theorem ready_joinRefs {js : List Join} {refs : List Text} (hd : Ready st d)
    (hj : ∀ j ∈ js, j.Named st (.plain st.quoted)) (h : joinRefs d js = .ok (refs, d')) :
    Ready st d' ∧ ∀ ref ∈ refs, ∀ n, Sql.Tidy st.dialect n n ref := by
  induction js generalizing d refs with
  | nil =>
    cases h
    exact ⟨hd, nofun⟩
  | cons j js ih =>
    rw [joinRefs] at h
    obtain ⟨⟨e, name, d₁⟩, h₁, h⟩ := bind_eq_ok.mp h
    obtain ⟨⟨rest, d₂⟩, h₂, h⟩ := bind_eq_ok.mp h
    cases h
    obtain ⟨hd₁, he, hname⟩ := hd.source (hj j (by simp)).1 h₁
    obtain ⟨hd₂, hrest⟩ := ih hd₁ (fun j hj' => hj j (by simp [hj'])) h₂
    refine ⟨hd₂, fun ref href => ?_⟩
    rcases List.mem_cons.mp href with rfl | href
    · rw [hd₂.settings]
      exact tidy_tableRef he.1 hname
    · exact hrest ref href

theorem tidy_writeJoins {js : List (Join × Text)} (hd : Draft.Tidy st d)
    (hj : ∀ x ∈ js, x.1.Named st (.plain st.quoted) ∧ ∀ n, Sql.Tidy st.dialect n n x.2)
    (h : writeJoins d js = .ok d') : Draft.Tidy st d' := by
  have always : ∀ n, Sql.Tidy st.dialect n n "1 = 1" := fun n =>
    (closed_of_inert (by decide)).tidy
  induction js generalizing d with
  | nil =>
    cases h
    exact hd
  | cons x js ih =>
    obtain ⟨j, ref⟩ := x
    obtain ⟨hnamed, href⟩ := hj (j, ref) (by simp)
    have hready : Ready st (d.write (" " ++ j.kind.keywords ++ " " ++ ref ++ " ON ")) := by
      refine hd.write_between ?_ href (by decide)
      cases j.kind <;> decide
    have ih' : ∀ {d}, Draft.Tidy st d → writeJoins d js = .ok d' → Draft.Tidy st d' := fun hd h =>
      ih hd (fun x hx => hj x (by simp [hx])) h
    rw [writeJoins] at h
    split at h
    · obtain ⟨d₁, h₁, h⟩ := bind_eq_ok.mp h
      cases h₁
      beta_reduce at h
      rw [if_pos rfl] at h
      exact ih' (hready.write always) h
    · obtain ⟨d₁, h₁, h⟩ := bind_eq_ok.mp h
      refine ih' ?_ h
      split
      · rename_i hlen
        exact (hready.clause_of_length_eq rfl hnamed.2 h₁ hlen).1.write always
      · exact hready.clause (c := .join) hnamed.2 trivial h₁

theorem tidy_writeOrders {os : List (Expr × List Direction)} {first : Bool}
    (hd : if first then Ready st d else Draft.Tidy st d)
    (ho : ∀ o ∈ os, o.1.Named st (.plain st.quoted)) (h : writeOrders d first os = .ok d') :
    Draft.Tidy st d' := by
  induction os generalizing d first with
  | nil =>
    cases h
    cases first with
    | true =>
      have hready : Ready st _ := hd
      exact hready.tidy
    | false => exact hd
  | cons o os ih =>
    obtain ⟨e, ds⟩ := o
    rw [writeOrders] at h
    obtain ⟨d₁, h₁, h⟩ := bind_eq_ok.mp h
    have hready : Ready st (if first then d else d.write ", ") := by
      cases first with
      | true => exact hd
      | false => exact Draft.Tidy.write hd (by decide)
    have hd₁ := hready.clause (c := .orderBy) (ho (e, ds) (by simp)) trivial h₁
    have hnext : if false then Ready st d₁ else Draft.Tidy st d₁ := hd₁
    exact ih hnext (fun o ho' => ho o (by simp [ho'])) h

theorem inert_ofInt (i : Int) : Inert (Text.ofInt i) := by
  cases i with
  | ofNat n => exact inert_of_digits (Text.all_isDigitByte_ofNat n)
  | negSucc n =>
    intro b hb
    rcases List.mem_cons.mp hb with rfl | hb
    · decide
    · exact inert_of_digits (Text.all_isDigitByte_ofNat (n + 1)) b hb

theorem inert_page (p : Profile) (limit offset : Int) : Inert (p.page limit offset) := by
  have noLimit : Inert p.noLimit := by
    unfold Profile.noLimit
    split <;> decide
  have number : ∀ (a b : Text) (i : Int), Inert a → Inert b → Inert (a ++ Text.ofInt i ++ b) :=
    fun a b i ha hb => inert_append.mpr ⟨inert_append.mpr ⟨ha, inert_ofInt i⟩, hb⟩
  have bound : Inert (("LIMIT " : Text) ++ Text.ofInt limit) :=
    inert_append.mpr ⟨by decide, inert_ofInt _⟩
  have tail : Inert ((" OFFSET " : Text) ++ Text.ofInt offset) :=
    inert_append.mpr ⟨by decide, inert_ofInt _⟩
  unfold Profile.page
  simp only
  split
  · refine inert_append.mpr ⟨number _ _ _ (by decide) (by decide), ?_⟩
    split
    · exact number _ _ _ (by decide) (by decide)
    · nofun
  · split
    · rw [List.append_assoc]
      refine inert_append.mpr ⟨?_, tail⟩
      split
      · exact bound
      · exact noLimit
    · split
      · exact bound
      · nofun

theorem tidy_writePage {s : Select} (hd : Draft.Tidy st d) : Draft.Tidy st (s.writePage d) := by
  have page : ∀ {d : Draft}, Draft.Tidy st d →
      Draft.Tidy st (d.write (" " ++ d.settings.profile.page s.limit s.offset)) := by
    intro d hd
    refine ⟨hd.settings, hd.aliases, (hd.text.closed_append ?_).tidy⟩
    exact isBreak_iff.mpr ⟨nofun, fun b hb => by cases hb; decide,
      inert_append.mpr ⟨by decide, inert_page _ _ _⟩⟩
  unfold writePage
  split
  · simp only
    split
    · exact page (Draft.Tidy.write hd (by decide)).tidy
    · exact page hd
  · exact hd

/-- The clauses of a selection from the groups on. -/
theorem tidy_writeTail {s : Select} (hd : Draft.Tidy st d) (hs : s.Named st (.plain st.quoted))
    (h : (do
      let d ← d.conditions " HAVING " s.havings .having
      let d ← if s.orders.isEmpty then .ok d
        else writeOrders (d.write " ORDER BY ") true s.orders
      return s.writePage d) = .ok d') : Draft.Tidy st d' := by
  obtain ⟨d₁, h₁, h⟩ := bind_eq_ok.mp h
  have hd₁ := hd.conditions (by decide) rfl hs.havings h₁
  split at h
  · obtain ⟨d₂, h₂, h⟩ := bind_eq_ok.mp h
    cases h₂
    cases h
    exact tidy_writePage hd₁
  · obtain ⟨d₂, h₂, h⟩ := bind_eq_ok.mp h
    cases h
    have hready : if true then Ready st (d₁.write " ORDER BY ")
        else Draft.Tidy st (d₁.write " ORDER BY ") := hd₁.write (by decide)
    exact tidy_writePage (tidy_writeOrders hready hs.orders h₂)

theorem tidy_write {s : Select} (hd : Ready st d) (hs : s.Named st (.plain st.quoted))
    (h : s.write d = .ok d') : Draft.Tidy st d' := by
  unfold Select.write at h
  split at h
  · cases h
  · obtain ⟨⟨e, name, d₁⟩, h₁, h⟩ := bind_eq_ok.mp h
    obtain ⟨hd₁, he, hname⟩ := hd.source hs.source h₁
    obtain ⟨⟨refs, d₂⟩, h₂, h⟩ := bind_eq_ok.mp h
    obtain ⟨hd₂, hrefs⟩ := ready_joinRefs hd₁ hs.joins h₂
    obtain ⟨d₃, h₃, h⟩ := bind_eq_ok.mp h
    have hkeyword : Ready st (d₂.write (if s.distinct then "SELECT DISTINCT " else "SELECT ")) := by
      refine hd₂.tidy.write ?_
      split <;> decide
    have hd₃ := hkeyword.clause (c := .select) hs.projection trivial h₃
    obtain ⟨d₄, h₄, h⟩ := bind_eq_ok.mp h
    have hfrom : Draft.Tidy st (d₃.write (" FROM " ++ d₃.settings.tableRef e.table name)) := by
      rw [← write_write, hd₃.settings]
      exact (hd₃.write (by decide)).write (tidy_tableRef he.1 hname)
    have hd₄ := tidy_writeJoins hfrom (fun x hx => ?_) h₄
    obtain ⟨d₅, h₅, h⟩ := bind_eq_ok.mp h
    have hd₅ := hd₄.conditions (by decide) rfl hs.wheres h₅
    by_cases hg : s.groups.isEmpty = true
    · rw [if_pos hg] at h
      obtain ⟨d₆, h₆, h⟩ := bind_eq_ok.mp h
      cases h₆
      exact tidy_writeTail hd₅ hs h
    · rw [if_neg hg] at h
      obtain ⟨d₆, h₆, h⟩ := bind_eq_ok.mp h
      have hd₆ := (hd₅.write (by decide)).clause (c := .groupBy) (Expr.named_ofItems hs.groups)
        trivial h₆
      exact tidy_writeTail hd₆ hs h
    · obtain ⟨hj, hr⟩ := List.of_mem_zip hx
      exact ⟨hs.joins _ hj, hrefs _ hr⟩

end Select

/-! ### Any statement -/

/-- The names of a statement are quoted or plain, and so are the columns that it writes. -/
def Statement.Plain (st : Settings) : Statement → Prop
  | .select s => s.Named st (.plain st.quoted)
  | .aggregate s fn target =>
    Select.Named st (.plain st.quoted) { s with projection := Select.aggregateCall fn target }
  | .insert s => s.Named (s.settings st) (.plain st.quoted) ∧
      (Expr.ofItems s.values).WritesPlain (s.settings st) .insert
  | .update s => ∀ p ∈ s.target, s.Named (s.settings p st) (.plain st.quoted) ∧
      s.assigned.WritesPlain (s.settings p st) .update
  | .delete s => s.Named (Delete.settings st) (.plain st.quoted)

/-- The conditions that a transform adds to a statement have plain names. -/
def Transform.Plain (st : Settings) (s : Statement) (t : Transform) : Prop :=
  match s with
  | .select _ | .aggregate .. => t.Named st (.plain st.quoted)
  | .insert _ => True
  | .update s => ∀ p ∈ s.target, t.Named (s.settings p st) (.plain st.quoted)
  | .delete _ => t.Named (Delete.settings st) (.plain st.quoted)

open Draft

theorem Select.tidy_compile {s : Select} {ts : List Transform} (hs : s.Named st (.plain st.quoted))
    (hts : ∀ t ∈ ts, t.Named st (.plain st.quoted)) (h : s.compile ts st = .ok d) :
    Draft.Tidy st d := by
  obtain ⟨s', h', h⟩ := bind_eq_ok.mp h
  exact tidy_write (ready_new st) (hs.transformAll hts h') h

theorem Select.tidy_compileAggregate {s : Select} {fn : Clause} {target : Expr}
    {ts : List Transform}
    (hs : Select.Named st (.plain st.quoted) { s with projection := aggregateCall fn target })
    (hts : ∀ t ∈ ts, t.Named st (.plain st.quoted))
    (h : s.compileAggregate fn target ts st = .ok d) : Draft.Tidy st d := by
  unfold Select.compileAggregate at h
  split at h
  · cases h
  · obtain ⟨s', h', h⟩ := bind_eq_ok.mp h
    exact tidy_write (ready_new st) (hs.transformAll_projection hts h') h

theorem Insert.tidy_compile {s : Insert} {ts : List Transform}
    (hs : s.Named (s.settings st) (.plain st.quoted))
    (hw : (Expr.ofItems s.values).WritesPlain (s.settings st) .insert)
    (h : s.compile ts st = .ok d) : Draft.Tidy (s.settings st) d := by
  unfold Insert.compile at h
  obtain ⟨s', h', h⟩ := bind_eq_ok.mp h
  rw [Insert.transformAll_eq h'] at h
  obtain ⟨⟨e, name, d₁⟩, h₁, h⟩ := bind_eq_ok.mp h
  obtain ⟨hd₁, he, -⟩ := (ready_new (s.settings st)).source hs.target h₁
  have hname : Tidy (s.settings st)
      ((d₁.write "INSERT INTO ").write ((s.settings st).ident e.table)) :=
    (hd₁.tidy.write_break (by decide)).write fun _ => tidy_ident (.inr he.1)
  have hrows := hname.write_break (w := " ") (by decide)
  rw [write_write, write_write] at hrows
  exact hrows.compile_insert (Expr.named_ofItems hs.values) hw (clause_eq_ok h)

theorem Update.tidy_compile {s : Update} {p : Param} {ts : List Transform} (hp : s.target = some p)
    (hs : s.Named (s.settings p st) (.plain st.quoted))
    (hw : s.assigned.WritesPlain (s.settings p st) .update)
    (hts : ∀ t ∈ ts, t.Named (s.settings p st) (.plain st.quoted)) (h : s.compile ts st = .ok d) :
    Draft.Tidy (s.settings p st) d := by
  unfold Update.compile at h
  rw [hp] at h
  obtain ⟨⟨e, name, d₁⟩, h₁, h⟩ := bind_eq_ok.mp h
  have hpn : ∀ q ∈ some p, q.Named (s.settings p st) (.plain st.quoted) := by
    rw [← hp]
    exact hs.target
  obtain ⟨hd₁, he, -⟩ := (ready_new (s.settings p st)).source hpn h₁
  obtain ⟨s₁, hk, h⟩ := bind_eq_ok.mp h
  obtain ⟨hs₁, ha₁⟩ := hs.keyed (hpn p rfl) hk
  obtain ⟨s₂, ht, h⟩ := bind_eq_ok.mp h
  obtain ⟨hs₂, ha₂⟩ := hs₁.transformAll hts ht
  obtain ⟨d₂, h₂, h⟩ := bind_eq_ok.mp h
  have hready : Ready (s.settings p st)
      (d₁.write ("UPDATE " ++ (s.settings p st).ident e.table ++ " SET ")) :=
    hd₁.tidy.write_between (by decide) (fun _ => tidy_ident (.inr he.1)) (by decide)
  rw [ha₂, ha₁] at h₂
  exact (hready.clause hs.assigned hw h₂).conditions (by decide) rfl hs₂.wheres h

theorem Delete.tidy_compile {s : Delete} {ts : List Transform}
    (hs : s.Named (Delete.settings st) (.plain st.quoted))
    (hts : ∀ t ∈ ts, t.Named (Delete.settings st) (.plain st.quoted))
    (h : s.compile ts st = .ok d) : Draft.Tidy (Delete.settings st) d := by
  unfold Delete.compile at h
  split at h
  · cases h
  · rename_i p hp
    obtain ⟨⟨e, name, d₁⟩, h₁, h⟩ := bind_eq_ok.mp h
    have hpn : ∀ q ∈ some p, q.Named (Delete.settings st) (.plain st.quoted) := by
      rw [← hp]
      exact hs.source
    obtain ⟨hd₁, he, -⟩ := (ready_new (Delete.settings st)).source hpn h₁
    obtain ⟨s₁, hk, h⟩ := bind_eq_ok.mp h
    obtain ⟨s₂, ht, h⟩ := bind_eq_ok.mp h
    have hs₂ := (hs.keyed (hpn p rfl) hk).transformAll hts ht
    have hfrom : Draft.Tidy (Delete.settings st)
        (d₁.write ("DELETE FROM " ++ (Delete.settings st).ident e.table)) := by
      rw [← write_write]
      exact (hd₁.tidy.write (by decide)).write fun _ => tidy_ident (.inr he.1)
    exact hfrom.conditions (by decide) rfl hs₂.wheres h

theorem Statement.tidy_compile {s : Statement} {ts : List Transform} (hs : s.Plain st)
    (hts : ∀ t ∈ ts, t.Plain st s) (h : s.compile ts st = .ok d) :
    Sql.Tidy st.dialect 0 d.slate.params.length d.text := by
  cases s with
  | select s => exact (s.tidy_compile hs hts h).text
  | aggregate s fn target => exact (s.tidy_compileAggregate hs hts h).text
  | insert s => exact (s.tidy_compile hs.1 hs.2 h).text
  | update s =>
    cases hp : s.target with
    | none =>
      simp only [Statement.compile, Update.compile, hp] at h
      cases h
    | some p =>
      obtain ⟨hn, hw⟩ := hs p hp
      exact (s.tidy_compile hp hn hw (fun t ht => hts t ht p hp) h).text
  | delete s => exact (s.tidy_compile hs hts h).text

/-! ### Quoted names -/

theorem permissive_plain {quoted : Bool} (h : quoted = true) :
    (Lexicon.plain quoted).Permissive :=
  ⟨fun _ => .inl h, fun _ => trivial, fun _ => .inl h, fun _ => .inl h⟩

theorem Expr.writesPlain_of_quoted {s : Settings} (hq : s.quoted = true) (e : Expr) (c : Clause) :
    e.WritesPlain s c := by
  cases c with
  | insert | update => exact fun _ _ _ _ _ _ => .inl hq
  | _ => trivial

theorem Select.named_of_permissive {L : Lexicon} (hL : L.Permissive) (s : Select) : s.Named st L :=
  ⟨fun p _ => p.named_of_permissive hL,
    fun j _ => ⟨fun p _ => p.named_of_permissive hL, j.condition.named_of_permissive hL⟩,
    s.projection.named_of_permissive hL, fun e _ => e.named_of_permissive hL,
    fun e _ => e.named_of_permissive hL, fun e _ => e.named_of_permissive hL,
    fun o _ => o.1.named_of_permissive hL⟩

theorem Transform.named_of_permissive {L : Lexicon} (hL : L.Permissive) (t : Transform) :
    t.Named st L := by
  cases t with
  | policy pol => exact fun p _ _ _ _ c _ => (Policy.apply p c).named_of_permissive hL
  | identity | refuse | softDelete => trivial

/-- With quotes every name of a statement is plain. -/
theorem Statement.plain_of_quoted (hq : st.quoted = true) (s : Statement) : s.Plain st := by
  have hL := permissive_plain hq
  cases s with
  | select s => exact s.named_of_permissive hL
  | aggregate s fn target => exact Select.named_of_permissive hL _
  | insert s =>
    exact ⟨⟨fun p _ => p.named_of_permissive hL, fun e _ => e.named_of_permissive hL⟩,
      Expr.writesPlain_of_quoted (s := s.settings st) hq _ _⟩
  | update s =>
    exact fun p _ => ⟨⟨fun p _ => p.named_of_permissive hL, s.assigned.named_of_permissive hL,
      fun e _ => e.named_of_permissive hL⟩,
      Expr.writesPlain_of_quoted (s := s.settings p st) hq _ _⟩
  | delete s =>
    exact ⟨fun p _ => p.named_of_permissive hL, fun e _ => e.named_of_permissive hL⟩

theorem Transform.plain_of_quoted (hq : st.quoted = true) (s : Statement) (t : Transform) :
    t.Plain st s := by
  have hL := permissive_plain hq
  cases s with
  | select | aggregate | delete => exact t.named_of_permissive hL
  | insert => trivial
  | update => exact fun _ _ => t.named_of_permissive hL

/-! ### Bound values and their marks -/

/-- **Every clause and every statement marks each of its bound values once and in order.** -/
theorem marks_eq_placeholders (st : Settings) :
    (∀ (e : Expr) (c : Clause) (ds : List Direction) (d : Draft),
      (st.quoted = true ∨ e.Named st (.plain st.quoted) ∧ e.WritesPlain st c) →
      (Draft.new st).compile e c ds = (d, .ok ()) →
      Sql.marks st.profile d.text =
        (List.range d.slate.params.length).map fun i : Nat => st.profile.placeholder (i + 1)) ∧
    (∀ (s : Statement) (ts : List Transform) (d : Draft),
      (st.quoted = true ∨ s.Plain st ∧ ∀ t ∈ ts, t.Plain st s) → s.compile ts st = .ok d →
      Sql.marks st.profile d.text =
        (List.range d.slate.params.length).map fun i : Nat => st.profile.placeholder (i + 1)) := by
  have range : ∀ {n : Nat} {t : Text}, Sql.Tidy st.dialect 0 n t → Sql.marks st.profile t =
      (List.range n).map fun i : Nat => st.profile.placeholder (i + 1) := fun h => by
    rw [List.range_eq_range']
    exact h.marks_eq
  refine ⟨fun e c ds d hn h => ?_, fun s ts d hn h => ?_⟩
  · cases hq : st.quoted with
    | true =>
      have he : e.Named st (.plain st.quoted) := e.named_of_permissive (permissive_plain hq)
      exact range ((ready_new st).compile he (e.writesPlain_of_quoted hq c) h).text
    | false =>
      obtain ⟨he, hw⟩ := hn.resolve_left (by simp [hq])
      exact range ((ready_new st).compile he hw h).text
  · cases hq : st.quoted with
    | true =>
      exact range (Statement.tidy_compile (s.plain_of_quoted hq)
        (fun t _ => t.plain_of_quoted hq s) h)
    | false =>
      obtain ⟨hs, hts⟩ := hn.resolve_left (by simp [hq])
      exact range (Statement.tidy_compile hs hts h)

open Sample

/-- The names of customers need no quotes. -/
theorem Sample.customerRow_named (d : Dialect) :
    customerRow.Named (.standard d world) (.plain false) := by
  have columns : ∀ v ∈ customerColumns, v.all Sql.isNameByte = true := by decide
  exact customerRow_named_of rfl (.inr (by decide)) (.inr (by decide))
    fun v hv => .inr (columns v hv)

theorem marks_eq_placeholders_customers :
    (∃ d, (Draft.new (.standard .sqlServer world)).compile
        (.binary .and (hasName "x") (.notOf (hasAge 3))) .where_ [] = (d, .ok ()) ∧
      Sql.marks Dialect.sqlServer.profile d.text = (["@p1", "@p2"] : List Text)) ∧
    ∃ d, (Statement.select (customersWith [hasName "x"])).compile []
        { Settings.standard .postgres world with quoted := true } = .ok d ∧
      Sql.marks Dialect.postgres.profile d.text = (["$1"] : List Text) := by
  have hrow := Sample.customerRow_named .sqlServer
  have hnamed : Expr.Named (.standard .sqlServer world) (.plain false)
      (.binary .and (hasName "x") (.notOf (hasAge 3))) := ⟨⟨hrow, trivial⟩, hrow, trivial⟩
  refine ⟨⟨_, rfl, ?_⟩, ⟨_, rfl, ?_⟩⟩
  · exact (marks_eq_placeholders (.standard .sqlServer world)).1 _ .where_ [] _
      (.inr ⟨hnamed, trivial⟩) rfl
  · exact (marks_eq_placeholders { Settings.standard .postgres world with quoted := true }).2
      (.select (customersWith [hasName "x"])) [] _ (.inl rfl) rfl

end QueryTree
