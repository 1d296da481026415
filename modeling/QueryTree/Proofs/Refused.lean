import QueryTree.Proofs.Denied

/-!
# Commands that are refused

A command that is refused should leave the session as it was. Commands that start a statement give
the old one up first, and commands about a connection close it first; all others are to change
everything or nothing. Two of them work through a list and keep what they have done before the item
that is refused: an ordering keeps the items before it, and a schema document the entities before
it. All others, those that work through a list included, read their arguments to the end before
they change anything, or go back to the session they began with.

So a line that is refused changes nothing exactly if it is not one of these two with a first item
that is accepted.

## Main definitions

* `startsOrConnects`: the lines that give up a statement or a connection first
* `Session.Begins`: a command has changed the session before it is refused

## Main results

* `Session.eq_iff_of_run`: when a command that is refused changes nothing
* `session_eq_iff_of_refused`: the same for lines
-/

namespace QueryTree.Shell

/-- Whether a command starts a new statement or manages a connection. -/
def Verb.startsOrConnects : Verb → Bool
  | .source | .insert | .update | .delete | .connect | .disconnect | .execute => true
  | _ => false

/-- Whether a line starts a new statement or manages a connection. -/
def startsOrConnects (line : Text) : Bool :=
  match Command.read line with
  | .ok (some c) => c.verb.startsOrConnects
  | _ => false

/-- A command changes the session before anything in it is refused: the first item of an ordering is
an expression, or the first entity of a schema document can be defined. -/
inductive Session.Begins (s : Session) (o : Outcome) : Command → Prop
  | order {args : Text} {q : Select} {part : List Token} {parts : List (List Token)}
    {x : Expr} (selection : s.selection = .ok q)
    (items : Token.splitCommas (Token.scan args) = part :: parts)
    (first : s.parse (splitDirection part).1 = .ok x) : Begins s o ⟨.order, args⟩
  | load {path document : Text} {d : EntityDef} {ds : List EntityDef}
    {defined : Session × Text} (definitions : Schema.read document = .ok (d :: ds))
    (outcome : o = s.defineAll (d :: ds)) (first : s.define d = .ok defined) :
    Begins s o ⟨.load, path⟩

variable {s s' : Session} {t args : Text} {o : Outcome} {e : ShellError}

/-! ### Changes that are made at once -/

namespace Outcome

theorem session_ofExcept_of_stop {x : Except ShellError (Session × Text)}
    (h : (ofExcept s x).stop = some (.error e)) : (ofExcept s x).session = s := by
  rcases x with err | ⟨s', t⟩
  · rfl
  · cases h

theorem session_ofAttempt_of_stop {x : Attempt ShellError (Session × Text)}
    (h : (ofAttempt s x).stop = some (.error e)) : (ofAttempt s x).session = s := by
  rcases x with stop | ⟨s', t⟩
  · rfl
  · cases h

theorem session_ofReport (s : Session) (x : Attempt ShellError Text) :
    (ofReport s x).session = s := by
  cases x <;> rfl

end Outcome

namespace Session

theorem session_showDialects (s : Session) (ds : List Dialect) :
    (s.showDialects ds).session = s := by
  induction ds with
  | nil => rfl
  | cons d ds ih =>
    rw [showDialects]
    split
    · exact ih
    · rfl
    · rfl

theorem session_dot (h : (s.dot args).CanEnd o) : o.session = s := by
  unfold dot at h
  split at h
  · cases h
    rfl
  · split at h
    · cases h
      rfl
    · cases h
      dsimp only
      split
      · rfl
      · rfl

/-! ### Orderings -/

theorem withSelection_of_selection {q : Select} (h : s.selection = .ok q) :
    s.withSelection q = s := by
  unfold selection at h
  split at h
  · rename_i hpending
    cases h
    rw [withSelection, ← hpending]
  · cases h

/-- Items are only ever added. -/
theorem length_orders_le_addOrders (s : Session) (q : Select) (parts : List (List Token)) :
    q.orders.length ≤ (s.addOrders q parts).1.orders.length := by
  induction parts generalizing q with
  | nil => exact Nat.le_refl _
  | cons part parts ih =>
    cases hpart : s.parse (splitDirection part).1 with
    | error err =>
      simp only [addOrders, hpart]
      exact Nat.le_refl _
    | ok x =>
      simp only [addOrders, hpart]
      refine Nat.le_trans ?_ (ih _)
      rw [List.length_append]
      exact Nat.le_add_right _ _

/-- An ordering that is refused changes nothing if its first item is refused, and only then. -/
theorem order_eq_iff (hstop : (s.order args).stop = some (.error e)) :
    (s.order args).session = s ↔ ¬ s.Begins (s.order args) ⟨.order, args⟩ := by
  cases hq : s.selection with
  | error err =>
    have hnot : ¬ s.Begins (s.order args) ⟨.order, args⟩ := by
      rintro (⟨hselection, -, -⟩ | _)
      rw [hq] at hselection
      cases hselection
    simp only [hnot, not_false_eq_true, iff_true]
    simp only [order, hq]
    rfl
  | ok q =>
    have hsession : (s.order args).session = s.withSelection
        (s.addOrders q (Token.splitCommas (Token.scan args))).1 := by
      simp only [order, hq]
      split <;> simp_all [Outcome.refusal, Outcome.success]
    rw [hsession]
    cases hparts : Token.splitCommas (Token.scan args) with
    | nil =>
      simp only [order, hq, hparts, addOrders] at hstop
      cases hstop
    | cons part parts =>
      cases hfirst : s.parse (splitDirection part).1 with
      | error err =>
        -- the first item is refused, so nothing is added
        have hnot : ¬ s.Begins (s.order args) ⟨.order, args⟩ := by
          rintro (⟨-, hitems, hok⟩ | _)
          rw [hparts] at hitems
          cases hitems
          rw [hfirst] at hok
          cases hok
        simp only [hnot, not_false_eq_true, iff_true, addOrders, hfirst]
        exact withSelection_of_selection hq
      | ok x =>
        have hbegins : s.Begins (s.order args) ⟨.order, args⟩ := .order hq hparts hfirst
        simp only [hbegins, not_true_eq_false, iff_false, addOrders, hfirst]
        intro hsame
        have hle := s.length_orders_le_addOrders
          { q with orders := q.orders ++ [(x, [(splitDirection part).2])] } parts
        have hselection := congrArg selection hsame
        rw [hq] at hselection
        have heq := Except.ok.inj hselection
        rw [heq, List.length_append] at hle
        exact Nat.not_succ_le_self _ hle

/-! ### Schema documents -/

theorem entities_of_define {d : EntityDef} (h : s.define d = .ok (s', t)) :
    s'.entities.length = s.entities.length + 1 := by
  unfold define at h
  split at h
  · cases h
  · obtain ⟨declared, -, h⟩ := bind_eq_ok.mp h
    cases h
    exact List.length_append

/-- Entities are only ever added. -/
theorem length_entities_le_defineAll (s : Session) (ds : List EntityDef) :
    s.entities.length ≤ (s.defineAll ds).session.entities.length := by
  induction ds generalizing s with
  | nil => exact Nat.le_refl _
  | cons d ds ih =>
    rw [defineAll]
    split
    · exact Nat.le_refl _
    · rename_i s₁ output hdefine
      have hadded := entities_of_define hdefine
      have hrest := ih s₁
      dsimp only
      omega

theorem defineAll_ne {d : EntityDef} {ds : List EntityDef} {defined : Session × Text}
    (h : s.define d = .ok defined) : (s.defineAll (d :: ds)).session ≠ s := by
  obtain ⟨s₁, output⟩ := defined
  intro hsame
  have hadded := entities_of_define h
  have hrest := s₁.length_entities_le_defineAll ds
  have heq : (s.defineAll (d :: ds)).session = (s₁.defineAll ds).session := by
    simp only [defineAll, h]
  rw [← heq, hsame] at hrest
  omega

/-- A schema document that is refused changes nothing if its first entity is refused or the document
is not read, and only then. -/
theorem load_eq_iff (h : (s.load args).CanEnd o) (hstop : o.stop = some (.error e)) :
    o.session = s ↔ ¬ s.Begins o ⟨.load, args⟩ := by
  have hchanged : s.Begins o ⟨.load, args⟩ → o.session ≠ s := by
    rintro (_ | ⟨-, houtcome, hfirst⟩)
    rw [houtcome]
    exact defineAll_ne hfirst
  refine ⟨fun hsame hbegins => hchanged hbegins hsame, fun hnot => ?_⟩
  unfold load at h
  split at h
  · cases h
    rfl
  · cases h with
    | read _ _ answer =>
      dsimp only at hstop hnot ⊢
      cases answer with
      | error m => rfl
      | ok document =>
        cases hread : Schema.read document with
        | error m =>
          simp only [Except.bind, hread]
          rfl
        | ok ds =>
          simp only [Except.bind, hread] at hstop hnot ⊢
          cases ds with
          | nil => cases hstop
          | cons d ds =>
            cases hdefine : s.define d with
            | error stop => simp only [defineAll, hdefine]
            | ok defined => exact absurd (.load hread rfl hdefine) hnot

/-! ### All commands -/

/-- When a command that is refused changes nothing. -/
theorem eq_iff_of_run {c : Command} (h : (s.run c).CanEnd o)
    (hverb : c.verb.startsOrConnects = false) (hstop : o.stop = some (.error e)) :
    o.session = s ↔ ¬ s.Begins o c := by
  obtain ⟨verb, args⟩ := c
  have unchanged (hsame : o.session = s) (horder : verb ≠ .order) (hload : verb ≠ .load) :
      o.session = s ↔ ¬ s.Begins o ⟨verb, args⟩ := by
    refine iff_of_true hsame ?_
    rintro (_ | _)
    · exact horder rfl
    · exact hload rfl
  cases verb with
  | source | insert | update | delete | connect | disconnect | execute => cases hverb
  | order =>
    cases h
    exact order_eq_iff hstop
  | load => exact load_eq_iff h hstop
  | dot => exact unchanged (session_dot h) nofun nofun
  | help | entities | plugins | reset =>
    cases h
    cases hstop
  | sql | inline =>
    cases h
    exact unchanged (Outcome.session_ofReport s _) nofun nofun
  | all =>
    cases h
    exact unchanged (session_showDialects s Dialect.all) nofun nofun
  | select | distinct | filter | group | having | limit | offset | join | dialect | quoted |
      policy =>
    cases h
    exact unchanged (Outcome.session_ofExcept_of_stop hstop) nofun nofun
  | entity | values | softDelete =>
    cases h
    exact unchanged (Outcome.session_ofAttempt_of_stop hstop) nofun nofun

end Session

/-- **What a refused line changes.** A line that neither starts a statement nor manages a connection
and that is refused leaves the session exactly as it was, whatever files and databases answer,
unless it is an ordering whose first item is an expression or a schema document whose first entity
can be defined. These two change the session. -/
theorem session_eq_iff_of_refused {line : Text} (h : (s.runLine line).CanEnd o)
    (hline : startsOrConnects line = false) (hstop : o.stop = some (.error e)) :
    o.session = s ↔ ∀ c, Command.read line = .ok (some c) → ¬ s.Begins o c := by
  unfold Session.runLine at h
  split at h
  · rename_i hread
    cases h
    refine iff_of_true rfl fun c hc => ?_
    rw [hread] at hc
    cases hc
  · cases h
    cases hstop
  · rename_i c hread
    have hverb : c.verb.startsOrConnects = false := by
      simpa only [startsOrConnects, hread] using hline
    rw [Session.eq_iff_of_run h hverb hstop, hread]
    constructor
    · intro hnot c' hc
      cases hc
      exact hnot
    · intro hnot
      exact hnot c rfl

end QueryTree.Shell

namespace QueryTree

open Sample Shell

namespace Sample

/-- The lines that select customers. -/
def browse : List Text := defineCustomer ++ [("from customer c" : Text)]

/-- The session in which customers are selected. -/
def browsing : Session := (after (.new .sqlServer) ⟨[], [], []⟩ browse).1

end Sample

/-- A list of groups whose second one is refused changes nothing. -/
theorem session_eq_iff_of_refused_group : ∃ e,
    (stepIn ⟨[], [], []⟩ browsing "group c.name, c.nope").outcome.stop = some (.error e) ∧
    (stepIn ⟨[], [], []⟩ browsing "group c.name, c.nope").outcome.session = browsing := by
  have hstop : (stepIn ⟨[], [], []⟩ browsing "group c.name, c.nope").outcome.stop =
      some (.error (.inside "group" (.parse (.noField "customer" "nope")))) := by
    decide +kernel
  have hread : Command.read "group c.name, c.nope" = .ok (some ⟨.group, "c.name, c.nope"⟩) := by
    decide +kernel
  refine ⟨_, hstop, (session_eq_iff_of_refused
    (stepIn ⟨[], [], []⟩ browsing "group c.name, c.nope").carried (by decide +kernel)
    hstop).mpr fun c hc => ?_⟩
  cases hread.symm.trans hc
  nofun

/-- An ordering whose second item is refused is half applied: the statement is then ordered by the
first one. -/
theorem exists_refused_order_half_applied : ∃ xs s line o e, Run (.new .sqlServer) xs s ∧
    (s.runLine line).CanEnd o ∧ startsOrConnects line = false ∧ o.stop = some (.error e) ∧
    s.sqlText = .ok "SELECT * FROM customers AS c" ∧
    o.session.sqlText = .ok "SELECT * FROM customers AS c ORDER BY c.name ASC" ∧
    o.session ≠ s := by
  have facts : browsing.sqlText = .ok "SELECT * FROM customers AS c" ∧
      (stepIn ⟨[], [], []⟩ browsing "order c.name, c.nope").outcome.session.sqlText =
        .ok "SELECT * FROM customers AS c ORDER BY c.name ASC" ∧
      (stepIn ⟨[], [], []⟩ browsing "order c.name, c.nope").outcome.stop =
        some (.error (.inside "order" (.parse (.noField "customer" "nope")))) := by
    decide +kernel
  obtain ⟨before, after, stop⟩ := facts
  refine ⟨_, browsing, "order c.name, c.nope", _,
    .inside "order" (.parse (.noField "customer" "nope")),
    run_stepsIn ⟨[], [], []⟩ (.new .sqlServer) browse,
    (stepIn ⟨[], [], []⟩ browsing "order c.name, c.nope").carried,
    by decide, stop, before, after, fun h => ?_⟩
  rw [h, before] at after
  exact absurd after (by decide)

end QueryTree
