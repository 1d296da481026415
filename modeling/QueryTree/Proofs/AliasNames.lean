import Mathlib.Data.Bool.AllAny
import QueryTree.Proofs.Scanned
import QueryTree.Proofs.Sessions

/-!
# Names that are aliases

A name becomes an alias if it begins with a letter or an underscore and has no point in it. Nothing
else is asked of it, here or later: the alias of the first row is written behind `FROM` as it is,
and a reference to one of its members is a single token only if no byte of the alias ends a word.
A name of letters, digits and underscores is safe in both places, and whoever gives other names has
to look after them.

## Main results

* `Token.scan_eq_singleton_iff`: texts that are one word
* `Session.Moves.aliased`: every move keeps what is asked of aliases
* `Session.aliases_of_run`: the aliases of every session
-/

namespace QueryTree

/-! ### Single words -/

namespace Shell.Token

attribute [local grind =] scanFrom ended isSeparator

/-- A byte that ends a word ends what has been read of it. -/
theorem scanFrom_separator {word : Text} (hne : word ≠ []) {b : UInt8}
    (hb : isSeparator b = true) (t : Text) : ∃ ts, scanFrom false word (b :: t) = word :: ts := by
  have hended := ended_of_ne_nil hne
  cases t with
  | nil => grind -ring -linarith
  | cons c t => grind -ring -linarith

/-- Any other byte is part of the word, or it begins an operator whose second byte ends words. -/
theorem scanFrom_other {word : Text} (hne : word ≠ []) {b : UInt8} (hb : isSeparator b = false)
    (t : Text) : scanFrom false word (b :: t) = scanFrom false (word ++ [b]) t ∨
      (∃ c ∈ t, isSeparator c = true) ∧ ∃ ts, scanFrom false word (b :: t) = word :: ts := by
  by_cases hpair : ∃ c ∈ t.head?, pairs.contains (b, c) = true
  · obtain ⟨c, hc, hpair⟩ := hpair
    obtain ⟨t, rfl⟩ := List.head?_eq_some_iff.mp hc
    refine .inr ⟨⟨c, List.mem_cons_self, isSeparator_of_pair hpair⟩, [b, c] :: scan t, ?_⟩
    rw [scanFrom, if_neg (pair_facts hpair).1.1, if_pos hpair, ended_of_ne_nil hne]
    rfl
  · refine .inl (scanFrom_of_not_separator hb (fun c hc => ?_) word)
    exact Bool.eq_false_iff.mpr fun hc' => hpair ⟨c, hc, hc'⟩

/-- What is read after a part of a word belongs to the word if none of its bytes ends it. -/
theorem scanFrom_eq_singleton_iff {word t : Text} (hne : word ≠ []) :
    scanFrom false word t = [word ++ t] ↔ ∀ b ∈ t, isSeparator b = false := by
  induction t generalizing word with
  | nil => simp [scanFrom, ended, hne]
  | cons b t ih =>
    have hcut : ∀ ts, word :: ts ≠ [word ++ b :: t] := by
      intro ts h
      have hword := (List.cons.inj h).1
      rw [List.self_eq_append_right] at hword
      cases hword
    rw [List.forall_mem_cons]
    cases hb : isSeparator b with
    | true =>
      obtain ⟨ts, hts⟩ := scanFrom_separator hne hb t
      rw [hts]
      exact ⟨fun h => absurd h (hcut ts), fun h => (nomatch h.1)⟩
    | false =>
      rcases scanFrom_other hne hb t with hstep | ⟨⟨c, hc, hsep⟩, ts, hts⟩
      · have hnext := ih (List.append_ne_nil_of_right_ne_nil word (List.cons_ne_nil b []))
        rw [List.append_assoc, List.singleton_append] at hnext
        rw [hstep, hnext, and_iff_right rfl]
      · rw [hts]
        refine ⟨fun h => absurd h (hcut ts), fun h => ?_⟩
        rw [h.2 c hc] at hsep
        cases hsep

/-- A text that does not begin with the end of a word is one token if no byte ends a word. -/
theorem scan_eq_singleton_iff {b : UInt8} (hb : isWordByte b = true) (t : Text) :
    scan (b :: t) = [b :: t] ↔ ∀ c ∈ t, isSeparator c = false := by
  rw [scan, scanFrom_wordByte hb, List.nil_append,
    ← scanFrom_eq_singleton_iff (List.cons_ne_nil b []), List.singleton_append]

end Shell.Token

/-! ### The first row of a selection -/

/-- The first alias of a statement is the name of its row. -/
theorem AliasTable.bind_empty {p : Param} (h : p.name ≠ []) (table : Text) :
    (empty.bind p table).1 = p.name := by
  obtain ⟨id, name, type⟩ := p
  cases name with
  | nil => exact absurd rfl h
  | cons b name => rfl

/-- Behind `FROM` stands the table of the first row with the name of the row. -/
theorem Select.exists_from {st : Settings} {s : Select} {p : Param} {d : Draft}
    (hp : s.source = some p) (hname : p.name ≠ []) (h : s.write (.new st) = .ok d) :
    ∃ e before behind, st.entityOf p.type = .ok e ∧
      d.text = before ++ " FROM " ++ st.tableRef e.table p.name ++ behind := by
  unfold Select.write at h
  rw [hp, if_neg (by simp)] at h
  obtain ⟨⟨e, name, d₁⟩, h₁, h⟩ := bind_eq_ok.mp h
  obtain ⟨q, hq, he, rfl, rfl⟩ := Draft.source_eq_ok h₁
  cases hq
  obtain ⟨⟨refs, d₂⟩, h₂, h⟩ := bind_eq_ok.mp h
  obtain ⟨xs, hrows, rfl, hst, -⟩ := exists_of_joinRefs rfl h₂
  obtain ⟨d₃, h₃, h⟩ := bind_eq_ok.mp h
  obtain ⟨d₄, h₄, h⟩ := bind_eq_ok.mp h
  obtain ⟨joins, -, htext⟩ := joined_of_writeJoins hrows h₄
  obtain ⟨d₅, h₅, h⟩ := bind_eq_ok.mp h
  have hgroups : d₅.text <+: d.text := by
    by_cases hg : s.groups.isEmpty = true
    · rw [if_pos hg] at h
      exact prefix_writeTail h
    · rw [if_neg hg] at h
      obtain ⟨d₆, h₆, h⟩ := bind_eq_ok.mp h
      exact (Draft.prefix_clause (by decide) (.inl rfl) h₆).trans (prefix_writeTail h)
  obtain ⟨rest, hrest⟩ := (Draft.prefix_conditions rfl h₅).trans hgroups
  have hsettings : d₃.settings = st := (Draft.settings_clause h₃).trans hst
  have hfirst := AliasTable.bind_empty hname e.table
  refine ⟨e, d₃.text, joins ++ rest, he, ?_⟩
  rw [← hrest, htext, Draft.write, hsettings, ← hfirst]
  simp only [List.append_assoc]
  rfl

/-! ### Aliases of sessions -/

namespace Shell

namespace Session

variable {s s' : Session} {e : Declared} {name : Text}

theorem isAlias_of_bind {p : Param} (h : s.bind e name = .ok (p, s')) : isAlias name = true := by
  unfold bind at h
  split at h
  · cases h
  · split at h
    · cases h
    · rename_i hname
      simpa using hname

/-- **Every move keeps what is asked of aliases.** -/
theorem Moves.isAlias (h : s.Moves s') (hs : ∀ a ∈ s.aliases, isAlias a.1 = true) :
    ∀ a ∈ s'.aliases, Session.isAlias a.1 = true := by
  have hbound : ∀ {s s₁ : Session} {e : Declared} {name : Text} {p : Param},
      s.bind e name = .ok (p, s₁) → (∀ a ∈ s.aliases, Session.isAlias a.1 = true) →
      ∀ a ∈ s₁.aliases, Session.isAlias a.1 = true := by
    intro s s₁ e name p hbind hs
    have hname := isAlias_of_bind hbind
    obtain ⟨-, -, rfl⟩ := bind_eq hbind
    exact List.forall_mem_append.mpr ⟨hs, List.forall_mem_singleton.mpr hname⟩
  induction h with
  | settles _ _ h =>
    rw [h.aliases]
    exact hs
  | clears => exact nofun
  | defines | inserts | alters => exact hs
  | starts _ _ hbind => exact fun a ha => hbound hbind hs a ha
  | joins _ _ hbind => exact fun a ha => hbound hbind hs a ha
  | trans _ _ ih ih' => exact ih' (ih hs)

theorem isAlias_of_run {d₀ : Dialect} {xs : List Step} (h : Run (.new d₀) xs s) :
    ∀ a ∈ s.aliases, isAlias a.1 = true := by
  refine h.induction (P := fun s => ∀ a ∈ s.aliases, isAlias a.1 = true) (fun x _ hx => ?_) nofun
  rcases moves_or_sameScene x.carried with hmoves | hsame
  · exact hmoves.isAlias hx
  · rw [hsame.aliases]
    exact hx

/-- A name that can be an alias begins with a byte of words. -/
theorem exists_cons_of_isAlias (h : isAlias name = true) :
    ∃ b u, name = b :: u ∧ Token.isWordByte b = true := by
  cases name with
  | nil => cases h
  | cons b u =>
    have hb : (Text.isLetterByte b || b == byte '_') = true := (Bool.and_eq_true_iff.mp h).1
    exact ⟨b, u, rfl, Token.isWordByte_iff.mpr (Text.not_mem_of_test
      (f := fun b => Text.isLetterByte b || b == byte '_') (by decide) hb)⟩

/-- A selection that a line starts with a name has the name for its alias, if it can be one. -/
theorem run_from {line args entityName : Text} {o : Outcome}
    (hread : Command.read line = .ok (some ⟨.source, args⟩))
    (hwords : args.fields = [entityName, name]) (he : s.entity entityName = .ok e)
    (ho : (s.runLine line).CanEnd o) : (o.stop = none ↔ isAlias name = true) ∧
      (isAlias name = true → ∃ p, o.session.aliases = [(name, p, e)]) := by
  have hfree : (s.cleared.aliases.lookup name).isSome = false := rfl
  have hfound : s.entityAndAlias args.fields = .ok (e, name) := by
    rw [hwords, entityAndAlias, he]
    rfl
  rw [runLine, hread] at ho
  cases ho
  simp only [from_, hfound, bind, hfree]
  cases hname : isAlias name with
  | true => exact ⟨⟨fun _ => rfl, fun _ => rfl⟩, fun _ => ⟨_, rfl⟩⟩
  | false =>
    exact ⟨⟨fun h => absurd h (Option.some_ne_none _), fun h => absurd h Bool.false_ne_true⟩,
      fun h => absurd h Bool.false_ne_true⟩

/-- The text of a selection has the alias of its first row behind `FROM`. -/
theorem Staged.exists_from (hs : s.Staged) {q : Select} {a : Text × Param × Declared}
    {rest : List (Text × Param × Declared)} (hq : s.pending = some (.select q))
    (ha : s.aliases = a :: rest) (hname : a.1 ≠ []) {d : Dialect} {draft : Draft}
    (h : s.compile d = .ok draft) : ∃ before behind, draft.text =
      before ++ " FROM " ++ (s.settings d).tableRef a.2.2.table a.1 ++ behind := by
  obtain ⟨hp, htype, he⟩ := hs.aliased.bound a (by rw [ha]; exact List.mem_cons_self)
  have hrows := hs.rows _ hq
  rw [ha] at hrows
  have hsource : q.source = some a.2.1 := (List.cons.inj hrows).1
  obtain ⟨entity, hentity, htable⟩ := Registry.table_eq_ok (hs.catalogued.tables _ he)
  rw [compile, hq] at h
  obtain ⟨q', ht, hwrite⟩ := bind_eq_ok.mp (Attempt.eq_ok_of_mapError h)
  have hsource' : q'.source = some a.2.1 := by
    obtain ⟨hrows', -, hjoins⟩ := Select.kept_transformAll ht
    rw [Select.rows, Select.rows, hjoins, List.append_cancel_right_eq, hsource] at hrows'
    cases hq' : q'.source with
    | none =>
      rw [hq'] at hrows'
      cases hrows'
    | some p =>
      rw [hq'] at hrows'
      exact congrArg some (List.cons.inj hrows').1
  obtain ⟨e', before, behind, hof, htext⟩ := Select.exists_from hsource' (by rwa [hp]) hwrite
  have hsame : (s.settings d).entityOf a.2.1.type = .ok entity := by
    rw [htype]
    exact Settings.entityOf_of_entity hentity
  rw [hsame] at hof
  cases hof
  exact ⟨before, behind, by rw [htext, htable, hp]⟩

/-- **The aliases of every session.** An alias begins with a letter or an underscore and has no
point in it. A reference to a member of its row is one token exactly if none of their bytes ends a
word, and the alias of the first row of a selection stands behind `FROM` as it is, with the
identifiers quoted or not. A line that starts a selection succeeds for every word of this kind, and
the word is the alias then. -/
theorem aliases_of_run {d₀ : Dialect} {xs : List Step} (h : Run (.new d₀) xs s) :
    (∀ a ∈ s.aliases, isAlias a.1 = true ∧
      ∀ member : Text, Token.scan (a.1 ++ byte '.' :: member) = [a.1 ++ byte '.' :: member] ↔
        ∀ b ∈ a.1 ++ member, Token.isSeparator b = false) ∧
    (∀ q a rest d draft, s.pending = some (.select q) → s.aliases = a :: rest →
      s.compile d = .ok draft → ∃ before behind, draft.text =
        before ++ " FROM " ++ (s.settings d).tableRef a.2.2.table a.1 ++ behind) ∧
    (∀ line args entityName name e o, Command.read line = .ok (some ⟨.source, args⟩) →
      args.fields = [entityName, name] → s.entity entityName = .ok e →
      (s.runLine line).CanEnd o → (o.stop = none ↔ isAlias name = true) ∧
        (isAlias name = true → ∃ p, o.session.aliases = [(name, p, e)])) := by
  have hnamed := isAlias_of_run h
  refine ⟨fun a ha => ⟨hnamed a ha, fun member => ?_⟩, fun q a rest d draft hq ha hd => ?_,
    fun _ _ _ _ _ _ hread hwords he ho => run_from hread hwords he ho⟩
  · obtain ⟨b, u, hname, hb⟩ := exists_cons_of_isAlias (hnamed a ha)
    have hfirst : Token.isSeparator b = false := by
      simp only [Token.isWordByte, Bool.not_eq_true', Bool.or_eq_false_iff] at hb
      simp only [Token.isSeparator, Bool.or_eq_false_iff]
      exact hb.1
    have hpoint : Token.isSeparator (byte '.') = false := by decide
    rw [hname, List.cons_append, Token.scan_eq_singleton_iff hb]
    simp only [List.forall_mem_append, List.forall_mem_cons, List.cons_append, hfirst, hpoint,
      true_and]
  · obtain ⟨b, u, hname, -⟩ := exists_cons_of_isAlias (hnamed a (by rw [ha]; exact .head _))
    exact ((staged_new d₀).run h).exists_from hq ha (by rw [hname]; nofun) hd

end Session

end Shell

/-! ### Customers under other names -/

open Sample Shell

namespace Sample

/-- The shop with a selection of customers under a name. -/
def customersAs (name : Text) : List Text := shop ++ ["from customer " ++ name]

/-- The session in which customers are selected under a name. -/
def picking (name : Text) : Session := (after (.new .sqlServer) ⟨[], [], []⟩ (customersAs name)).1

theorem run_picking (name : Text) : Run (.new .sqlServer)
    (stepsIn ⟨[], [], []⟩ (.new .sqlServer) (customersAs name)) (picking name) :=
  run_stepsIn ⟨[], [], []⟩ (.new .sqlServer) (customersAs name)

end Sample

/-- Customers under a name with an underscore and a digit, and then orders. -/
theorem aliases_of_run_customers :
    Run (.new .sqlServer) (stepsIn ⟨[], [], []⟩ (.new .sqlServer) (customersAs "c_1"))
      (picking "c_1") ∧
    (picking "c_1").aliases.map (·.1) = (["c_1"] : List Text) ∧
    Token.scan "c_1.name" = ["c_1.name"] ∧
    (∃ before behind, (picking "c_1").sqlText =
      .ok (before ++ " FROM " ++ "customers AS c_1" ++ behind)) ∧
    ∃ o, ((picking "c_1").runLine "from order o").CanEnd o ∧ o.stop = none := by
  have hrun := run_picking "c_1"
  obtain ⟨haliases, hfrom, hline⟩ := Session.aliases_of_run hrun
  -- the session is the same in all of these, and is evaluated for all of them at once
  have facts : (picking "c_1").aliases.map (·.1) = (["c_1"] : List Text) ∧
      (picking "c_1").aliases.map (·.2.2.table) = (["customers"] : List Text) ∧
      (picking "c_1").selection.toOption.isSome = true ∧
      (picking "c_1").dialect = .sqlServer ∧
      ((picking "c_1").compile .sqlServer).toOption.isSome = true ∧
      ((picking "c_1").settings .sqlServer).tableRef "customers" "c_1" =
        ("customers AS c_1" : Text) ∧
      ((picking "c_1").entity "order").toOption.isSome = true := by
    decide +kernel
  obtain ⟨hnames, htables, hselects, hdialect, hcompiles, href, hdefined⟩ := facts
  obtain ⟨a, rest, ha⟩ : ∃ a rest, (picking "c_1").aliases = a :: rest := by
    cases h : (picking "c_1").aliases with
    | nil =>
      rw [h] at hnames
      cases hnames
    | cons a rest => exact ⟨a, rest, rfl⟩
  have hname : a.1 = ("c_1" : Text) := by
    rw [ha] at hnames
    exact (List.cons.inj hnames).1
  have htable : a.2.2.table = ("customers" : Text) := by
    rw [ha] at htables
    exact (List.cons.inj htables).1
  obtain ⟨draft, hdraft⟩ : ∃ draft, (picking "c_1").compile .sqlServer = .ok draft :=
    (Option.isSome_iff_exists.mp hcompiles).imp fun _ => eq_ok_of_toOption
  obtain ⟨q, hq⟩ : ∃ q, (picking "c_1").selection = .ok q :=
    (Option.isSome_iff_exists.mp hselects).imp fun _ => eq_ok_of_toOption
  obtain ⟨e, he⟩ : ∃ e, (picking "c_1").entity "order" = .ok e :=
    (Option.isSome_iff_exists.mp hdefined).imp fun _ => eq_ok_of_toOption
  refine ⟨hrun, hnames, ?_, ?_, ?_⟩
  · have hword := ((haliases a (by rw [ha]; exact List.mem_cons_self)).2 "name").mpr
    rw [hname] at hword
    exact hword (List.all_iff_forall_prop.mp (by decide +kernel))
  · obtain ⟨before, behind, htext⟩ :=
      hfrom q a rest .sqlServer draft (Session.pending_of_selection hq) ha hdraft
    rw [hname, htable, href] at htext
    rw [Session.sqlText, hdialect, hdraft]
    exact ⟨before, behind, congrArg Except.ok htext⟩
  · have hcarried := World.canEnd_carryOut ⟨[], [], []⟩ ((picking "c_1").runLine "from order o")
    exact ⟨_, hcarried, (hline _ "order o" "order" "o" e _ (by decide) (by decide) he
      hcarried).1.mpr (by decide +kernel)⟩

/-- **A name with a semicolon becomes an alias**, and stands in the text of the statement as it
is. -/
theorem exists_alias_with_semicolon : ∃ xs s, Run (.new .sqlServer) xs s ∧
    s.aliases.map (·.1) = (["c;x"] : List Text) ∧ Raw.isIdentifier "c;x" = false ∧
    s.sqlText = .ok "SELECT * FROM customers AS c;x" := by
  have facts : (picking "c;x").aliases.map (·.1) = (["c;x"] : List Text) ∧
      (picking "c;x").sqlText = .ok "SELECT * FROM customers AS c;x" := by
    decide +kernel
  exact ⟨_, picking "c;x", run_picking "c;x", facts.1, by decide, facts.2⟩

end QueryTree
