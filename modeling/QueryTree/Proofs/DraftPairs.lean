import QueryTree.Compile.Draft
import QueryTree.Proofs.SideBySide

/-!
# Drafts side by side

Two drafts agree when their settings are those of the two compilations and their states agree;
nothing is asked of their texts. After an expression has been emitted a draft looks at its text
in three ways, and each of them is answered alike. A condition has a text or has none. A list loses
its last separator, and then it is empty or not; this needs that the text before the list does not
end with a separator of its own. Everything else that is emitted is only kept.

## Main definitions

* `Draft.outcome`: the draft that a compilation leaves, or why it stopped
* `Pairing.Drafts`: drafts that agree
* `Pairing.Emissions`: what a clause asks of the texts it has emitted

## Main results

* `Pairing.Drafts.compile_condition`: compiling a condition
* `Pairing.Drafts.compile`: compiling an expression for any clause
-/

namespace QueryTree

open Emit

namespace Draft

/-- The draft that a compilation leaves, or why it stopped. -/
def outcome {ε : Type} (x : Draft × Except ε Unit) : Except ε Draft := x.2.map fun _ => x.1

/-- The text does not end with a separator of lists. -/
def IsTrimmed (d : Draft) : Prop := d.text.trimSuffix itemSeparator = d.text

theorem outcome_run (d : Draft) (m : Emit Text) : outcome (d.run m) = match result m d.slate with
    | (.ok t, s) => .ok { d with text := d.text ++ t, slate := s }
    | (.error h, _) => .error h.cause := by
  unfold run
  show outcome (match result m d.slate with | (.ok t, s) => _ | (.error h, s) => _) = _
  rcases result m d.slate with ⟨_ | _, _⟩ <;> rfl

theorem outcome_compile (d : Draft) {e : Expr} (he : e.isHole = false) (c : Clause)
    (ds : List Direction) : outcome (d.compile e c ds) =
      outcome (d.run (emitted d.settings e c ds)) >>= fun d' =>
        outcome (d'.finish c d.text.length) := by
  unfold compile
  rw [he]
  rcases d.run (emitted d.settings e c ds) with ⟨d', _ | _⟩ <;> rfl

theorem outcome_compile_hole (d : Draft) {e : Expr} (he : e.isHole = true) (c : Clause)
    (ds : List Direction) : outcome (d.compile e c ds) = outcome (d.compileHole c) := by
  unfold compile
  rw [he]
  rfl

/-! ### Conditions -/

theorem compileHole_condition (d : Draft) {c : Clause} (hc : c.isCondition = true) :
    d.compileHole c = (d, .ok ()) := by
  cases c with
  | where_ => rfl
  | join => rfl
  | having => rfl
  | _ => cases hc

theorem emitted_condition (st : Settings) (e : Expr) {c : Clause} (hc : c.isCondition = true) :
    emitted st e c [] = (e.render st).condition c := by
  cases c with
  | where_ => rfl
  | join => rfl
  | having => rfl
  | _ => cases hc

theorem finish_condition (d : Draft) (n : Nat) {c : Clause} (hc : c.isCondition = true) :
    d.finish c n = (d, .ok ()) := by
  cases c with
  | where_ => rfl
  | join => rfl
  | having => rfl
  | _ => cases hc

end Draft

namespace Pairing

variable {P : Pairing} {st : Settings}

/-! ### Rows that are written -/

theorem agree_emit (c : Column) {x y : Content} (h : P.Contents x y) :
    P.Agree P.Values (x.emit (P.first st) c) (y.emit (P.second st) c) := by
  cases h with
  | value v => exact agree_placeholder (.same v) c.dataType
  | computed h =>
    refine (agree_setPending _).bind fun _ _ _ => ?_
    refine (h.tryCatch ?_).bind fun _ _ ht => (agree_setPending []).bind fun _ _ _ => agree_pure ht
    rintro ⟨cause, t⟩ ⟨_, t'⟩ rfl s s'
    cases cause with
    | error e => exact .stopped rfl
    | fault => exact .stopped rfl

/-- The separators may differ: they are the dialect's way of writing rows. -/
theorem agree_separated {sep sep' : Text} {ms ms' : List (Emit Text)}
    (h : List.Forall₂ (P.Agree fun _ _ => True) ms ms') :
    P.Agree (fun _ _ => True) (separated sep ms) (separated sep' ms') := by
  induction h with
  | nil => exact agree_pure trivial
  | cons hm hms ih =>
    cases hms with
    | nil => exact hm
    | cons hm' hms =>
      exact hm.bind fun _ _ _ => (ih.after _ _).bind fun _ _ _ => agree_pure trivial

theorem Rows.content? {r r' : Row} (h : P.Rows r r') (c : Column) :
    Option.Rel P.Contents (r.content? c) (r'.content? c) := by
  have find : ∀ {l l' : List Cell}, List.Forall₂ P.Cells l l' →
      Option.Rel P.Contents ((l.find? fun cell => cell.column = c).map (·.content))
        ((l'.find? fun cell => cell.column = c).map (·.content)) := by
    intro l l' hl
    induction hl with
    | nil => exact .none
    | @cons cell cell' _ _ hc _ ih =>
      rw [List.find?_cons, List.find?_cons, ← hc.column]
      by_cases heq : cell.column = c
      · simpa [heq] using hc.content
      · simpa [heq] using ih
  exact find h.cells

theorem agree_rowContents (cols : List Column) {r r' : Row} (h : P.Rows r r') :
    P.Agree (fun _ _ => True) (rowContents (P.first st) cols r)
      (rowContents (P.second st) cols r') := by
  refine agree_separated ?_
  rw [List.forall₂_map_left_iff, List.forall₂_map_right_iff]
  refine List.forall₂_same.mpr fun c _ => ?_
  have hc := h.content? c
  generalize r.content? c = x, r'.content? c = y at hc
  cases hc with
  | none => exact agree_pure trivial
  | some hc => exact (agree_emit c hc).mono fun _ _ _ => trivial

theorem columnsOfRows_eq {rows rows' : List Row} (h : List.Forall₂ P.Rows rows rows') :
    columnsOfRows rows = columnsOfRows rows' := by
  have cells : ∀ {l l' : List Cell}, List.Forall₂ P.Cells l l' →
      l.map (·.column) = l'.map (·.column) := by
    intro l l' hl
    induction hl with
    | nil => rfl
    | cons hc _ ih => rw [List.map_cons, List.map_cons, hc.column, ih]
  have columns : (rows.flatMap fun r => r.cells.map (·.column)) =
      rows'.flatMap fun r => r.cells.map (·.column) := by
    induction h with
    | nil => rfl
    | cons hr _ ih => rw [List.flatMap_cons, List.flatMap_cons, cells hr.cells, ih]
  rw [columnsOfRows, columnsOfRows, columns]

theorem find?_entity {t : Ty} {rows rows' : List Row} (h : List.Forall₂ P.Rows rows rows') :
    Option.Rel P.Rows (rows.find? fun r => r.entity.type ≠ t)
      (rows'.find? fun r => r.entity.type ≠ t) := by
  induction h with
  | nil => exact .none
  | @cons r r' _ _ hr _ ih =>
    rw [List.find?_cons, List.find?_cons, ← hr.entity]
    by_cases heq : r.entity.type = t
    · simpa [heq] using ih
    · simpa [heq] using hr

theorem agree_insertRows {rows rows' : List Row} (h : List.Forall₂ P.Rows rows rows') :
    P.Agree (fun _ _ => True) (insertRows (P.first st) rows) (insertRows (P.second st) rows') := by
  cases h with
  | nil => exact agree_fail _
  | @cons r r' rest rest' hr hrest =>
    have hall : List.Forall₂ P.Rows (r :: rest) (r' :: rest') := .cons hr hrest
    have hfind := find?_entity (t := r.entity.type) hall
    -- each dialect has its own style, but all bind the cells of the rows in order
    have rows : ∀ {sep sep' a a' b b' : Text} (cols : List Column), P.Agree (fun _ _ => True)
        (separated sep ((r :: rest).map fun x => enclose a (rowContents (P.first st) cols x) b))
        (separated sep'
          ((r' :: rest').map fun x => enclose a' (rowContents (P.second st) cols x) b')) := by
      intro _ _ _ _ _ _ cols
      refine agree_separated ?_
      rw [List.forall₂_map_left_iff, List.forall₂_map_right_iff]
      exact hall.imp fun _ _ h =>
        ((agree_rowContents cols h).after _ _).bind fun _ _ _ => agree_pure trivial
    unfold insertRows
    dsimp only
    rw [← columnsOfRows_eq hall, ← hr.entity]
    generalize (r :: rest).find? (fun x => x.entity.type ≠ r.entity.type) = x,
      (r' :: rest').find? (fun x => x.entity.type ≠ r.entity.type) = y at hfind
    cases hfind with
    | some hxy =>
      dsimp only
      rw [← hxy.entity]
      exact agree_fail _
    | none =>
      dsimp only
      split
      · exact agree_fail _
      · cases (P.first st).profile.insert with
        | values =>
          cases (P.second st).profile.insert with
          | values => exact (rows _).bind fun _ _ _ => agree_pure trivial
          | selectDual => exact (rows _).bind fun _ _ _ => agree_pure trivial
        | selectDual =>
          cases (P.second st).profile.insert with
          | values => exact (rows _).bind fun _ _ _ => agree_pure trivial
          | selectDual => exact (rows _).bind fun _ _ _ => agree_pure trivial

theorem agree_assignments {rows rows' : List Row} (h : List.Forall₂ P.Rows rows rows') :
    P.Agree Lists (assignments (P.first st) rows) (assignments (P.second st) rows') := by
  have assigned_ne : ∀ name t : Text, name ++ (" = " : Text) ++ t ≠ [] := by
    intro name t
    have heq : (" = " : Text) ≠ [] := by decide
    simp [heq]
  rcases h with _ | ⟨hr, _ | ⟨_, hrest⟩⟩
  · exact agree_fail _
  · refine agree_concatLists ?_
    rw [List.forall₂_map_left_iff, List.forall₂_map_right_iff]
    refine hr.cells.imp fun cell cell' hc => ?_
    rw [← hc.column]
    exact ((agree_emit cell.column hc.content).after _ _).bind fun _ _ _ =>
      agree_pure (.items (iff_of_false (assigned_ne _ _) (assigned_ne _ _)))
  · rw [assignments, assignments, List.length_cons, List.length_cons, List.length_cons,
      List.length_cons, hrest.length_eq]
    · exact agree_fail _
    · exact nofun
    · exact nofun

/-! ### What a clause emits -/

/-- What a clause asks of the texts it has emitted: lists agree without their last separator,
conditions have a text or have none, and no other clause looks back. -/
def Emissions (P : Pairing) : Clause → Text → Text → Prop
  | .select | .update => Lists
  | .where_ | .join | .having => P.Conditions
  | _ => fun _ _ => True

variable {e e' : Expr}

theorem agree_emitted (hex : P.IsExact)
    (h : P.Counterpart ((e.render (P.first st)).expr.isHole = false) (e.render (P.first st))
      (e'.render (P.second st))) (c : Clause) (ds : List Direction) :
    P.Agree (P.Emissions c) (Draft.emitted (P.first st) e c ds)
      (Draft.emitted (P.second st) e' c ds) := by
  have aggregate : ∀ c, P.Agree (fun _ _ => True) (Rendering.aggregate c (e.render (P.first st)))
      (Rendering.aggregate c (e'.render (P.second st))) := fun c =>
    (agree_aggregate c h).mono fun _ _ _ => trivial
  have listing : ∀ c, P.Agree (fun _ _ => True)
      (do return (← (e.render (P.first st)).listing c ds).1)
      (do return (← (e'.render (P.second st)).listing c ds).1) := fun c =>
    (h.listing hex c ds).bind fun _ _ _ => agree_pure trivial
  cases c with
  | select => exact h.projection hex
  | insert => exact (agree_ofAttempt (h.rows hex _ _)).bind fun _ _ hrows => agree_insertRows hrows
  | update => exact (agree_ofAttempt (h.rows hex _ _)).bind fun _ _ hrows => agree_assignments hrows
  | where_ => exact h.condition .where_
  | join => exact h.condition .join
  | having => exact h.condition .having
  | in_ => exact h.members.mono fun _ _ _ => trivial
  | groupBy => exact listing .groupBy
  | orderBy => exact listing .orderBy
  | max => exact aggregate .max
  | min => exact aggregate .min
  | avg => exact aggregate .avg
  | sum => exact aggregate .sum
  | count => exact aggregate .count
  | unknown n => exact agree_fail _

/-! ### Drafts that agree -/

/-- Drafts that agree: they have the settings of the two compilations and agreeing states. -/
structure Drafts (P : Pairing) (st : Settings) (d d' : Draft) : Prop where
  first : d.settings = P.first st
  second : d'.settings = P.second st
  slates : P.Slates d.slate d'.slate

/-- Drafts that agree, with related texts appended to earlier ones. -/
structure Extended (P : Pairing) (st : Settings) (R : Text → Text → Prop) (d d' x x' : Draft) :
    Prop extends P.Drafts st x x' where
  texts : ∃ t t', x.text = d.text ++ t ∧ x'.text = d'.text ++ t' ∧ R t t'

variable {d d' : Draft}

theorem drafts_new (st : Settings) : P.Drafts st (.new (P.first st)) (.new (P.second st)) :=
  ⟨rfl, rfl, slates_empty⟩

theorem Drafts.write (h : P.Drafts st d d') (t t' : Text) : P.Drafts st (d.write t) (d'.write t') :=
  ⟨h.first, h.second, h.slates⟩

theorem Drafts.trimSuffix (h : P.Drafts st d d') (t : Text) :
    P.Drafts st (d.trimSuffix t) (d'.trimSuffix t) :=
  ⟨h.first, h.second, h.slates⟩

theorem Drafts.selectAll (h : P.Drafts st d d') : P.Drafts st d.selectAll d'.selectAll :=
  ⟨h.first, h.second,
    { h.slates with fields := by simp [Draft.selectAll, Draft.write, h.slates.fields] }⟩

theorem Drafts.run {R : Text → Text → Prop} {m m' : Emit Text} (hd : P.Drafts st d d')
    (h : P.Agree R m m') :
    Outcomes (P.Extended st R d d') (Draft.outcome (d.run m)) (Draft.outcome (d'.run m')) := by
  have hm := h _ _ hd.slates
  rw [Draft.outcome_run, Draft.outcome_run]
  generalize result m d.slate = x, result m' d'.slate = y at hm
  cases hm with
  | stopped hc =>
    dsimp only
    rw [hc]
    exact .failed _
  | returned ht hs => exact .returned ⟨⟨hd.first, hd.second, hs⟩, _, _, rfl, rfl, ht⟩

/-- Without their last separator, both lists are empty or none is. -/
theorem Lists.length_trimSuffix_iff {a a' t t' : Text} (h : Lists t t')
    (ha : a.trimSuffix itemSeparator = a) (ha' : a'.trimSuffix itemSeparator = a') :
    ((a ++ t).trimSuffix itemSeparator).length = a.length ↔
      ((a' ++ t').trimSuffix itemSeparator).length = a'.length := by
  cases h with
  | nil => simp [ha, ha']
  | items h =>
    rw [← List.append_assoc, ← List.append_assoc, Text.trimSuffix_append, Text.trimSuffix_append]
    simpa using h

theorem Extended.length_trimSuffix_iff {x x' : Draft} (h : P.Extended st Lists d d' x x')
    (hd : d.IsTrimmed) (hd' : d'.IsTrimmed) :
    (x.trimSuffix itemSeparator).text.length = d.text.length ↔
      (x'.trimSuffix itemSeparator).text.length = d'.text.length := by
  obtain ⟨t, t', ht, ht', hR⟩ := h.texts
  show (x.text.trimSuffix itemSeparator).length = _ ↔ (x'.text.trimSuffix itemSeparator).length = _
  rw [ht, ht']
  exact hR.length_trimSuffix_iff hd hd'

theorem Drafts.finish {c : Clause} {x x' : Draft} (h : P.Extended st (P.Emissions c) d d' x x')
    (hd : c = .select ∨ c = .update → d.IsTrimmed ∧ d'.IsTrimmed) :
    Outcomes (P.Drafts st) (Draft.outcome (x.finish c d.text.length))
      (Draft.outcome (x'.finish c d'.text.length)) := by
  have htrim := h.toDrafts.trimSuffix itemSeparator
  cases c with
  | select =>
    obtain ⟨hd, hd'⟩ := hd (.inl rfl)
    have hlen := h.length_trimSuffix_iff hd hd'
    refine .returned ?_
    show P.Drafts st
      (if (x.trimSuffix itemSeparator).text.length = d.text.length then _ else _)
      (if (x'.trimSuffix itemSeparator).text.length = d'.text.length then _ else _)
    by_cases hx : (x.trimSuffix itemSeparator).text.length = d.text.length
    · rw [if_pos hx, if_pos (hlen.mp hx)]
      exact htrim.selectAll
    · rw [if_neg hx, if_neg (mt hlen.mpr hx)]
      exact htrim
  | update =>
    obtain ⟨hd, hd'⟩ := hd (.inr rfl)
    have hlen := h.length_trimSuffix_iff hd hd'
    rw [Draft.finish, Draft.finish, Draft.outcome, Draft.outcome]
    dsimp only
    by_cases hx : (x.trimSuffix itemSeparator).text.length = d.text.length
    · rw [if_pos hx, if_pos (hlen.mp hx)]
      exact .failed _
    · rw [if_neg hx, if_neg (mt hlen.mpr hx)]
      exact .returned htrim
  | groupBy => exact .returned htrim
  | orderBy => exact .returned htrim
  | _ => exact .returned h.toDrafts

/-- An expression that is not given has no text of its own. -/
theorem Drafts.compileHole (hd : P.Drafts st d d') (c : Clause) :
    Outcomes (P.Drafts st) (Draft.outcome (d.compileHole c))
      (Draft.outcome (d'.compileHole c)) := by
  have aggregate : ∀ c, Outcomes (P.Drafts st)
      (Draft.outcome (d.run (Rendering.aggregate c (.unsupported d.settings .hole))))
      (Draft.outcome (d'.run (Rendering.aggregate c (.unsupported d'.settings .hole)))) := by
    intro c
    rw [hd.first, hd.second]
    exact (hd.run (agree_aggregate c (counterpart_unsupported .hole))).mono fun _ _ h => h.toDrafts
  cases c with
  | select => exact .returned hd.selectAll
  | insert => exact .failed _
  | update => exact .failed _
  | max => exact aggregate .max
  | min => exact aggregate .min
  | avg => exact aggregate .avg
  | sum => exact aggregate .sum
  | count => exact aggregate .count
  | _ => exact .returned hd

/-- **Compiling an expression for a clause** stops for the same cause, or leaves drafts that agree.
-/
theorem Drafts.compile (hd : P.Drafts st d d') (hex : P.IsExact) (e : Expr) (c : Clause)
    (ds : List Direction) (ht : c = .select ∨ c = .update → d.IsTrimmed ∧ d'.IsTrimmed) :
    Outcomes (P.Drafts st) (Draft.outcome (d.compile e c ds))
      (Draft.outcome (d'.compile e c ds)) := by
  cases he : e.isHole with
  | true =>
    rw [Draft.outcome_compile_hole d he, Draft.outcome_compile_hole d' he]
    exact hd.compileHole c
  | false =>
    rw [Draft.outcome_compile d he, Draft.outcome_compile d' he, hd.first, hd.second]
    have hcounter : P.Counterpart (Expr.FixedTo Expr.inlineDepth e e) (e.render (P.first st))
        (e.render (P.second st)) := Expr.counterpart_render (.refl _ e) (Expr.binds_refl e)
    refine (hd.run (agree_emitted hex (hcounter.mono fun _ => Expr.fixedTo_refl _ e) c ds)).bind ?_
    intro x x' hx
    exact Drafts.finish hx ht

/-- Compiling a condition: it has a text in both or in neither. -/
theorem Drafts.compile_condition (hd : P.Drafts st d d') {c : Clause} (hc : c.isCondition = true)
    (hv : e.Varies P.strings e') (hb : Expr.Binds e e') :
    Outcomes (P.Extended st P.Conditions d d') (Draft.outcome (d.compile e c []))
      (Draft.outcome (d'.compile e' c [])) := by
  cases he : e.isHole with
  | true =>
    rw [Draft.outcome_compile_hole d he, Draft.outcome_compile_hole d' (hv.isHole ▸ he),
      Draft.compileHole_condition d hc, Draft.compileHole_condition d' hc]
    exact .returned ⟨hd, [], [], by simp, by simp, .same _⟩
  | false =>
    rw [Draft.outcome_compile d he, Draft.outcome_compile d' (hv.isHole ▸ he), hd.first, hd.second,
      Draft.emitted_condition _ _ hc, Draft.emitted_condition _ _ hc]
    refine (hd.run ((Expr.counterpart_render hv hb).condition c)).bind fun x x' hx => ?_
    rw [Draft.finish_condition _ _ hc, Draft.finish_condition _ _ hc]
    exact .returned hx

end Pairing

end QueryTree
