import QueryTree.Proofs.Conjunction

/-!
# Outlines of conditions

A condition that always holds emits nothing, and an operand that emits nothing takes its operator
with it. For `AND` that is right: what is left says the same. For `OR` it is not, because the
disjunction with a condition that always holds always holds, and the text of the other operand does
not. The second thing that may go wrong is an operand of `AND` with a bare `OR`.

An outline is the skeleton of a condition: its constants, its tests with the texts that they have
where they stand, and how these are joined. Both its text and its truth are computed from it, and
the two agree exactly when every `OR` joins operands that both emit something, or both nothing, and
no bare `OR` stands beside an `AND`.

## Main definitions

* `Outline`, `Outline.text`, `Outline.truth`
* `Outline.isSound`: no operand is lost or torn apart

## Main results

* `Outline.holds_text`: the text of a sound outline says what the outline says
* `Outline.isSound_of_agrees`: without constants that never hold and with every atom standing once,
  only a sound outline has such a text
-/

namespace QueryTree

open Sql Emit

namespace Sql

variable {v : Text → Bool} {a b : Text} {p q : Bool}

/-! ### Two conditions joined by `OR` -/

/-- Two texts joined by `OR`, or the one that is not empty. -/
def joinedByOr (a b : Text) : Text := if a.isEmpty || b.isEmpty then a ++ b else a ++ " OR " ++ b

/-- What two conditions joined by `OR` say: the disjunction, unless one of them is lost. -/
structure Disjoins (a b t : Text) : Prop where
  legible : IsLegible t
  atoms_eq : atoms t = atoms a ++ atoms b
  holds : a.isEmpty = b.isEmpty → ∀ v, Sql.holds v t = (Sql.holds v a || Sql.holds v b)

theorem disjoins (ha : IsLegible a) (hb : IsLegible b) :
    Disjoins a b (joinedByOr (parenthesised p a) (parenthesised q b)) := by
  obtain ⟨hpa, hatomsa, hholdsa⟩ := ha.parenthesised p
  obtain ⟨hpb, hatomsb, hholdsb⟩ := hb.parenthesised q
  rcases ha with rfl | ⟨f, hf, rfl⟩
  · rw [parenthesised_nil, joinedByOr, List.isEmpty_nil, Bool.true_or, if_pos rfl, List.nil_append]
    refine ⟨hpb, by simpa [atoms] using hatomsb, fun hne v => ?_⟩
    obtain rfl : b = [] := by simpa using hne
    rw [hholdsb]
    rfl
  rcases hb with rfl | ⟨g, hg, rfl⟩
  · rw [parenthesised_nil, joinedByOr, List.isEmpty_nil, Bool.or_true, if_pos rfl, List.append_nil]
    refine ⟨hpa, by simpa [atoms] using hatomsa, fun hne v => ?_⟩
    exact absurd (by simpa using hne) (Formula.text_ne_nil hf.atomic)
  have hlegible := (hf.grouped p).disj (hg.grouped q)
  have hfe : (f.grouped p).text ≠ [] := Formula.text_ne_nil (hf.grouped p).atomic
  have hge : (g.grouped q).text ≠ [] := Formula.text_ne_nil (hg.grouped q).atomic
  have htext : joinedByOr (f.grouped p).text (g.grouped q).text =
      (Formula.disj (f.grouped p) (g.grouped q)).text := by
    simp [joinedByOr, hfe, hge, Formula.text_disj]
  rw [← hf.text_grouped, ← hg.text_grouped, htext]
  refine ⟨.inr ⟨_, hlegible, rfl⟩, ?_, fun _ v => ?_⟩
  · rw [atoms_text hlegible, atoms_text hf, atoms_text hg, Formula.atoms_disj,
      Formula.atoms_grouped, Formula.atoms_grouped]
  · rw [holds_text hlegible, holds_text hf, holds_text hg, Formula.holds_disj,
      Formula.holds_grouped, Formula.holds_grouped]

/-! ### What each operand of `AND` decides -/

namespace Formula

variable {f g : Formula}

theorem holds_prepend_of_forall (h : ∀ a ∈ g.atoms, v a = false) :
    (prepend f g).holds v = false := by
  unfold prepend
  split
  · rename_i g g'
    have hg : g.holds v = false := holds_eq_of_forall fun a ha => h a (by simp [atoms, ha])
    have hg' : g'.holds v = false := holds_eq_of_forall fun a ha => h a (by simp [atoms, ha])
    rw [holds, holds_append, hg, hg', Bool.and_false, Bool.or_false]
  · rw [holds_append, holds_eq_of_forall h, Bool.and_false]

/-- There are truth values for the first of two formulas joined by `AND` with which the other one
decides: the last disjunct of the first formula holds and no other one does. -/
theorem exists_decided_by_right (hn : f.atoms.Nodup) : ∃ v, f.holds v = true ∧
    ∀ g u, (∀ a ∈ f.atoms, u a = v a) → (∀ a ∈ g.atoms, u a = false) →
      (conj f g).holds u = false := by
  induction f with
  | or f f' _ ih =>
    obtain ⟨-, hn', hdisjoint⟩ := List.nodup_append.mp hn
    obtain ⟨v', hv', h⟩ := ih hn'
    obtain ⟨v, hvf, hvf'⟩ := exists_agree hdisjoint (fun _ => false) v'
    refine ⟨v, by rw [holds, holds_congr hvf', hv', Bool.or_true], fun g u hu hg => ?_⟩
    simp only [atoms, List.mem_append] at hu
    have hleft : f.holds u = false :=
      holds_eq_of_forall fun a ha => (hu a (.inl ha)).trans (hvf a ha)
    have hright := h g u (fun a ha => (hu a (.inr ha)).trans (hvf' a ha)) hg
    rw [conj, holds, hleft, hright, Bool.or_false]
  | atom | group | and =>
    exact ⟨fun _ => true, holds_eq_of_forall fun _ _ => rfl,
      fun g u _ hg => holds_prepend_of_forall hg⟩

/-- There are truth values for the second of two formulas joined by `AND` with which the other one
decides: the first disjunct of the second formula holds and no other one does. -/
theorem exists_decided_by_left (hn : g.atoms.Nodup) : ∃ v, g.holds v = true ∧
    ∀ f u, (∀ a ∈ g.atoms, u a = v a) → (∀ a ∈ f.atoms, u a = false) →
      (conj f g).holds u = false := by
  have descend : ∀ v : Text → Bool, (∀ f u, (∀ a ∈ g.atoms, u a = v a) →
      (∀ a ∈ f.atoms, u a = false) → (prepend f g).holds u = false) →
      ∀ f u, (∀ a ∈ g.atoms, u a = v a) → (∀ a ∈ f.atoms, u a = false) →
        (conj f g).holds u = false := by
    intro v hprepend f u hu hf
    fun_induction conj f g with
    | case1 f f' g ih =>
      simp only [atoms, List.mem_append] at hf
      have hleft : f.holds u = false := holds_eq_of_forall fun a ha => hf a (.inl ha)
      rw [holds, hleft, ih hn hprepend hu fun a ha => hf a (.inr ha), Bool.or_false]
    | case2 f g => exact hprepend f u hu hf
  cases g with
  | or g g' =>
    obtain ⟨-, -, hdisjoint⟩ := List.nodup_append.mp hn
    obtain ⟨v, hvg, hvg'⟩ := exists_agree hdisjoint (fun _ => true) fun _ => false
    have hg : g.holds v = true := holds_eq_of_forall hvg
    refine ⟨v, by rw [holds, hg, Bool.true_or], descend v fun f u hu hf => ?_⟩
    simp only [atoms, List.mem_append] at hu
    have hg' : g'.holds u = false :=
      holds_eq_of_forall fun a ha => (hu a (.inr ha)).trans (hvg' a ha)
    rw [prepend, holds, holds_append, holds_eq_of_forall hf, hg', Bool.false_and, Bool.or_false]
  | atom | group | and =>
    refine ⟨fun _ => true, holds_eq_of_forall fun _ _ => rfl, descend _ fun f u _ hf => ?_⟩
    rw [prepend, holds_append, holds_eq_of_forall hf, Bool.false_and]
    intro _ _ h
    cases h

end Formula

namespace Joins

variable {t : Text}

/-- The formulas that are joined where a bare `OR` stands beside the `AND`. -/
theorem exists_both (h : Joins p q a b t) (hapart : isApart p q a b = false)
    (hnever : never ∉ atoms t) : ∃ f g : Formula, (f.Legible ∧ f.text = a) ∧
      (g.Legible ∧ g.text = b) ∧ t = (Formula.conj (f.grouped p) (g.grouped q)).text := by
  cases h with
  | left hl parens => simp [isApart] at hapart
  | right hl parens => simp [isApart] at hapart
  | refuted b =>
    rw [atoms_never] at hnever
    exact absurd (List.mem_singleton_self _) hnever
  | @both f g hf hg => exact ⟨f, g, ⟨hf, rfl⟩, ⟨hg, rfl⟩, rfl⟩

theorem exists_decided_by_right (h : Joins p q a b t) (hapart : isApart p q a b = false)
    (hnever : never ∉ atoms t) (hn : (atoms a).Nodup) : ∃ v, Sql.holds v a = true ∧
      ∀ u, (∀ x ∈ atoms a, u x = v x) → (∀ x ∈ atoms b, u x = false) → Sql.holds u t = false := by
  obtain ⟨f, g, ⟨hf, rfl⟩, ⟨hg, rfl⟩, rfl⟩ := h.exists_both hapart hnever
  rw [atoms_text hf, ← f.atoms_grouped p] at hn ⊢
  rw [atoms_text hg, ← g.atoms_grouped q]
  obtain ⟨v, hv, hdecided⟩ := Formula.exists_decided_by_right hn
  refine ⟨v, by rw [holds_text hf, ← hv, Formula.holds_grouped], fun u hu hb => ?_⟩
  rw [holds_text (legible_conj hf hg), hdecided _ u hu hb]

theorem exists_decided_by_left (h : Joins p q a b t) (hapart : isApart p q a b = false)
    (hnever : never ∉ atoms t) (hn : (atoms b).Nodup) : ∃ v, Sql.holds v b = true ∧
      ∀ u, (∀ x ∈ atoms b, u x = v x) → (∀ x ∈ atoms a, u x = false) → Sql.holds u t = false := by
  obtain ⟨f, g, ⟨hf, rfl⟩, ⟨hg, rfl⟩, rfl⟩ := h.exists_both hapart hnever
  rw [atoms_text hg, ← g.atoms_grouped q] at hn ⊢
  rw [atoms_text hf, ← f.atoms_grouped p]
  obtain ⟨v, hv, hdecided⟩ := Formula.exists_decided_by_left hn
  refine ⟨v, by rw [holds_text hg, ← hv, Formula.holds_grouped], fun u hu ha => ?_⟩
  rw [holds_text (legible_conj hf hg), hdecided _ u hu ha]

end Joins

/-- Truth values for two lists without a common atom, where `never` does not hold. -/
theorem exists_assignment {l l' : List Text} (hdisjoint : ∀ a ∈ l, ∀ b ∈ l', a ≠ b)
    (hl : never ∉ l) (hl' : never ∉ l') (v w : Text → Bool) :
    ∃ u : Text → Bool, u never = false ∧ (∀ a ∈ l, u a = v a) ∧ ∀ a ∈ l', u a = w a := by
  obtain ⟨u, hu, hu'⟩ := Formula.exists_agree hdisjoint v w
  refine ⟨fun a => if a = never then false else u a, if_pos rfl, fun a ha => ?_, fun a ha => ?_⟩
  · exact (if_neg (ne_of_mem_of_not_mem ha hl)).trans (hu a ha)
  · exact (if_neg (ne_of_mem_of_not_mem ha hl')).trans (hu' a ha)

theorem atoms_ne_nil {t : Text} (h : t ≠ []) : atoms t ≠ [] := by
  have hne : t.isEmpty = false := by simpa using h
  rw [atoms, hne]
  exact (read t).atoms_ne_nil

end Sql

/-! ### Outlines -/

/-- The skeleton of a condition: constants, tests with the texts that they have where they stand,
and operators with whether they are `OR` and whether their operands are put in parentheses. -/
inductive Outline where
  | constant (b : Bool)
  | test (e : Expr) (t : Text)
  | joined (isOr p q : Bool) (k k' : Outline)

namespace Outline

/-- The text of an outline. -/
def text : Outline → Text
  | constant b => if b then [] else never
  | test _ t => t
  | joined isOr p q k k' =>
    (if isOr then joinedByOr else joinedByAnd) (parenthesised p k.text) (parenthesised q k'.text)

/-- The tests of an outline from left to right. -/
def tests : Outline → List (Expr × Text)
  | constant _ => []
  | test e t => [(e, t)]
  | joined _ _ _ k k' => k.tests ++ k'.tests

/-- Whether an outline holds where `w` says which tests do. -/
def truth (w : Expr → Text → Bool) : Outline → Bool
  | constant b => b
  | test e t => w e t
  | joined isOr _ _ k k' => if isOr then k.truth w || k'.truth w else k.truth w && k'.truth w

/-- Whether each `OR` joins two conditions that both emit something or both nothing, and no bare
`OR` stands beside an `AND`. -/
def isSound : Outline → Bool
  | constant _ | test _ _ => true
  | joined isOr p q k k' => k.isSound && k'.isSound &&
    if isOr then k.text.isEmpty == k'.text.isEmpty else isApart p q k.text k'.text

/-- Every test has a legible text. -/
def Legible (k : Outline) : Prop := ∀ x ∈ k.tests, IsLegible x.2

variable {k k' : Outline} {v : Text → Bool} {p q isOr : Bool}

theorem truth_congr {w w' : Expr → Text → Bool} (h : ∀ x ∈ k.tests, w x.1 x.2 = w' x.1 x.2) :
    k.truth w = k.truth w' := by
  induction k with
  | constant b => rfl
  | test e t => exact h (e, t) (List.mem_singleton_self _)
  | joined isOr p q k k' ih ih' =>
    simp only [tests, List.mem_append] at h
    rw [truth, truth, ih fun x hx => h x (.inl hx), ih' fun x hx => h x (.inr hx)]

theorem Legible.operands (h : (joined isOr p q k k').Legible) : k.Legible ∧ k'.Legible :=
  ⟨fun x hx => h x (List.mem_append_left _ hx), fun x hx => h x (List.mem_append_right _ hx)⟩

theorem isLegible_text (h : k.Legible) : IsLegible k.text := by
  induction k with
  | constant b =>
    cases b with
    | true => exact .inl rfl
    | false => exact .inr ⟨_, legible_never, rfl⟩
  | test e t => exact h (e, t) (List.mem_singleton_self _)
  | joined isOr p q k k' ih ih' =>
    have hk := ih h.operands.1
    have hk' := ih' h.operands.2
    cases isOr with
    | true => exact (disjoins hk hk').legible
    | false => exact (Joins.joined hk hk').legible

/-- What a disjunction says in terms of its operands. -/
theorem Legible.disjoins (h : (joined true p q k k').Legible) :
    Disjoins k.text k'.text (joined true p q k k').text :=
  Sql.disjoins (isLegible_text h.operands.1) (isLegible_text h.operands.2)

/-- What a conjunction says in terms of its operands. -/
theorem Legible.joins (h : (joined false p q k k').Legible) :
    Joins p q k.text k'.text (joined false p q k k').text :=
  .joined (isLegible_text h.operands.1) (isLegible_text h.operands.2)

/-- **The text of a sound outline says what the outline says.** -/
theorem holds_text (h : k.Legible) (hk : k.isSound = true) (hv : v never = false) :
    holds v k.text = k.truth fun _ => holds v := by
  induction k with
  | constant b =>
    cases b with
    | true => rfl
    | false => exact holds_never.trans hv
  | test e t => rfl
  | joined isOr p q k k' ih ih' =>
    simp only [isSound, Bool.and_eq_true] at hk
    obtain ⟨⟨hsound, hsound'⟩, hmeet⟩ := hk
    rw [truth, ← ih h.operands.1 hsound, ← ih' h.operands.2 hsound']
    cases isOr with
    | true => exact h.disjoins.holds (by simpa using hmeet) v
    | false =>
      rw [Bool.eq_iff_iff]
      show _ ↔ (holds v k.text && holds v k'.text) = true
      rw [Bool.and_eq_true]
      exact ⟨h.joins.holds_of_isApart hmeet hv, fun ⟨hl, hr⟩ => h.joins.holds hl hr⟩

/-! ### Outlines that say what their texts say -/

/-- The atoms of an outline are those of its operands, unless it has one that never holds. -/
theorem Legible.atoms_eq (h : (joined isOr p q k k').Legible)
    (hnever : never ∉ atoms (joined isOr p q k k').text) :
    atoms (joined isOr p q k k').text = atoms k.text ++ atoms k'.text := by
  cases isOr with
  | true => exact h.disjoins.atoms_eq
  | false => exact h.joins.atoms_eq.resolve_left hnever

/-- Every atom stands once in the text of an outline, and no constant of it never holds. -/
structure Distinct (k : Outline) : Prop where
  nodup : (atoms k.text).Nodup
  never_notMem : never ∉ atoms k.text

/-- What distinct atoms allow: truth values for the operands can be chosen apart. -/
structure Independent (k k' : Outline) : Prop where
  left : k.Distinct
  right : k'.Distinct
  exists_assignment : ∀ v w : Text → Bool, ∃ u : Text → Bool, u never = false ∧
    (∀ a ∈ atoms k.text, u a = v a) ∧ ∀ a ∈ atoms k'.text, u a = w a

theorem Distinct.independent (hd : (joined isOr p q k k').Distinct)
    (h : (joined isOr p q k k').Legible) : Independent k k' := by
  obtain ⟨hn, hnever⟩ := hd
  rw [h.atoms_eq hnever] at hn
  rw [h.atoms_eq hnever, List.mem_append, not_or] at hnever
  obtain ⟨hnk, hnk', hdisjoint⟩ := List.nodup_append.mp hn
  exact ⟨⟨hnk, hnever.1⟩, ⟨hnk', hnever.2⟩,
    exists_assignment hdisjoint hnever.1 hnever.2⟩

/-- Only the truth values of the atoms of its text decide whether an outline holds. -/
theorem Distinct.truth_congr {w : Text → Bool} (hd : k.Distinct) (h : k.Legible)
    (hatoms : ∀ a ∈ atoms k.text, v a = w a) :
    (k.truth fun _ => holds v) = k.truth fun _ => holds w := by
  induction k with
  | constant b => rfl
  | test e t => exact holds_congr hatoms
  | joined isOr p q k k' ih ih' =>
    obtain ⟨hdk, hdk', -⟩ := hd.independent h
    rw [h.atoms_eq hd.never_notMem, List.forall_mem_append] at hatoms
    rw [truth, truth, ih hdk h.operands.1 hatoms.1, ih' hdk' h.operands.2 hatoms.2]

/-- An outline holds where all atoms of its text do. -/
theorem truth_of_forall (h : k.Legible) (hnever : never ∉ atoms k.text)
    (hatoms : ∀ a ∈ atoms k.text, v a = true) : (k.truth fun _ => holds v) = true := by
  induction k with
  | constant b =>
    cases b with
    | true => rfl
    | false =>
      have hmem : never ∈ atoms never := by simp [atoms_never]
      exact absurd hmem hnever
  | test e t => exact holds_of_forall hatoms
  | joined isOr p q k k' ih ih' =>
    rw [h.atoms_eq hnever, List.forall_mem_append] at hatoms
    rw [h.atoms_eq hnever, List.mem_append, not_or] at hnever
    rw [truth, ih h.operands.1 hnever.1 hatoms.1, ih' h.operands.2 hnever.2 hatoms.2]
    cases isOr <;> rfl

/-- An outline and its text say the same. -/
def Agrees (k : Outline) : Prop :=
  ∀ v, v never = false → holds v k.text = k.truth fun _ => holds v

/-- A condition that emits nothing always holds. -/
theorem truth_of_text_eq_nil (h : k.Legible) (ht : k.text = []) :
    (k.truth fun _ => holds v) = true :=
  truth_of_forall h (by simp [ht, atoms]) (by simp [ht, atoms])

theorem agrees_of_text_eq_nil (h : k.Legible) (ht : k.text = []) : k.Agrees := by
  intro v _
  rw [truth_of_text_eq_nil h ht, ht]
  rfl

/-- A disjunction whose text says what it says does not hold where no atom does. -/
theorem Agrees.not_truth (hk : (joined true p q k k').Agrees) (h : (joined true p q k k').Legible)
    (hne : k.text ≠ [] ∨ k'.text ≠ []) : (k.truth fun _ => holds fun _ => false) = false ∧
      (k'.truth fun _ => holds fun _ => false) = false := by
  have htext : (joined true p q k k').text ≠ [] := by
    intro ht
    have hnil : atoms k.text ++ atoms k'.text = [] := by
      rw [← h.disjoins.atoms_eq, ht]
      rfl
    obtain ⟨hl, hr⟩ := List.append_eq_nil_iff.mp hnil
    rcases hne with hne | hne
    · exact atoms_ne_nil hne hl
    · exact atoms_ne_nil hne hr
  have hfalse := hk (fun _ => false) rfl
  rw [not_holds_of_forall htext fun _ _ => rfl] at hfalse
  exact Bool.or_eq_false_iff.mp hfalse.symm

/-- A disjunction whose text says what it says has lost no operand. -/
theorem Agrees.isEmpty_eq (hk : (joined true p q k k').Agrees)
    (h : (joined true p q k k').Legible) : k.text.isEmpty = k'.text.isEmpty := by
  by_cases ht : k.text = []
  · by_cases ht' : k'.text = []
    · rw [ht, ht']
    · have hl := (hk.not_truth h (.inr ht')).1
      rw [truth_of_text_eq_nil h.operands.1 ht] at hl
      cases hl
  · by_cases ht' : k'.text = []
    · have hr := (hk.not_truth h (.inl ht)).2
      rw [truth_of_text_eq_nil h.operands.2 ht'] at hr
      cases hr
    · rw [List.isEmpty_eq_false_iff.mpr ht, List.isEmpty_eq_false_iff.mpr ht']

/-- If the text of a disjunction says what it says, so do those of its operands. -/
theorem Agrees.of_or (hk : (joined true p q k k').Agrees) (h : (joined true p q k k').Legible)
    (hd : (joined true p q k k').Distinct) : k.Agrees ∧ k'.Agrees := by
  obtain ⟨hdk, hdk', hassign⟩ := hd.independent h
  have hmeet := hk.isEmpty_eq h
  by_cases ht : k.text = []
  · have ht' : k'.text = [] := by simpa [ht] using hmeet
    exact ⟨agrees_of_text_eq_nil h.operands.1 ht, agrees_of_text_eq_nil h.operands.2 ht'⟩
  have ht' : k'.text ≠ [] := by
    rwa [List.isEmpty_eq_false_iff.mpr ht, eq_comm, List.isEmpty_eq_false_iff] at hmeet
  obtain ⟨hl, hr⟩ := hk.not_truth h (.inl ht)
  have hholds : ∀ u, u never = false → (holds u k.text || holds u k'.text) =
      ((k.truth fun _ => holds u) || k'.truth fun _ => holds u) := by
    intro u hu
    rw [← h.disjoins.holds hmeet]
    exact hk u hu
  constructor
  · intro v _
    obtain ⟨u, hnever, hu, hu'⟩ := hassign v fun _ => false
    have hagree := hholds u hnever
    rw [not_holds_of_forall ht' hu', hdk'.truth_congr h.operands.2 hu', hr, Bool.or_false,
      Bool.or_false] at hagree
    rw [← holds_congr hu, hagree, hdk.truth_congr h.operands.1 hu]
  · intro v _
    obtain ⟨u, hnever, hu, hu'⟩ := hassign (fun _ => false) v
    have hagree := hholds u hnever
    rw [not_holds_of_forall ht hu, hdk.truth_congr h.operands.1 hu, hl, Bool.false_or,
      Bool.false_or] at hagree
    rw [← holds_congr hu', hagree, hdk'.truth_congr h.operands.2 hu']

/-- A conjunction whose text says what it says has no bare `OR` beside it. -/
theorem Agrees.isApart (hk : (joined false p q k k').Agrees) (h : (joined false p q k k').Legible)
    (hd : (joined false p q k k').Distinct) : isApart p q k.text k'.text = true := by
  by_contra hnot
  have hapart : Sql.isApart p q k.text k'.text = false := by simpa using hnot
  obtain ⟨hdk, hdk', hassign⟩ := hd.independent h
  have hagree : ∀ u, u never = false → holds u (joined false p q k k').text =
      ((k.truth fun _ => holds u) && k'.truth fun _ => holds u) := hk
  rcases h.joins.holds_of_not_isApart hapart hd.never_notMem with hall | hall
  · -- the second operand always holds, and yet it decides
    have htrue : ∀ w, (k'.truth fun _ => holds w) = true := by
      intro w
      obtain ⟨u, hnever, hu, hu'⟩ := hassign (fun _ => true) w
      have hone := hagree u hnever
      rw [hall u hu, eq_comm, Bool.and_eq_true] at hone
      rw [← hone.2, hdk'.truth_congr h.operands.2 hu']
    obtain ⟨v, hv, hdecided⟩ := h.joins.exists_decided_by_right hapart hd.never_notMem hdk.nodup
    obtain ⟨u, hnever, hu, hu'⟩ := hassign v fun _ => true
    obtain ⟨z, hnever', hz, hz'⟩ := hassign v fun _ => false
    have hone := hagree u hnever
    rw [h.joins.holds (by rw [holds_congr hu, hv]) (holds_of_forall hu'), eq_comm, Bool.and_eq_true,
      hdk.truth_congr h.operands.1 hu] at hone
    have hzero := hagree z hnever'
    rw [hdecided z hz hz', hdk.truth_congr h.operands.1 hz, hone.1, htrue] at hzero
    cases hzero
  · -- the first operand always holds, and yet it decides
    have htrue : ∀ w, (k.truth fun _ => holds w) = true := by
      intro w
      obtain ⟨u, hnever, hu, hu'⟩ := hassign w fun _ => true
      have hone := hagree u hnever
      rw [hall u hu', eq_comm, Bool.and_eq_true] at hone
      rw [← hone.1, hdk.truth_congr h.operands.1 hu]
    obtain ⟨v, hv, hdecided⟩ := h.joins.exists_decided_by_left hapart hd.never_notMem hdk'.nodup
    obtain ⟨u, hnever, hu, hu'⟩ := hassign (fun _ => true) v
    obtain ⟨z, hnever', hz, hz'⟩ := hassign (fun _ => false) v
    have hone := hagree u hnever
    rw [h.joins.holds (holds_of_forall hu) (by rw [holds_congr hu', hv]), eq_comm, Bool.and_eq_true,
      hdk'.truth_congr h.operands.2 hu'] at hone
    have hzero := hagree z hnever'
    rw [hdecided z hz' hz, hdk'.truth_congr h.operands.2 hz', hone.2, htrue] at hzero
    cases hzero

/-- If the text of a conjunction says what it says, so do those of its operands. -/
theorem Agrees.of_and (hk : (joined false p q k k').Agrees) (h : (joined false p q k k').Legible)
    (hd : (joined false p q k k').Distinct) : k.Agrees ∧ k'.Agrees := by
  obtain ⟨hdk, hdk', hassign⟩ := hd.independent h
  have hholds : ∀ u, u never = false →
      (holds u k.text && holds u k'.text) =
        ((k.truth fun _ => holds u) && k'.truth fun _ => holds u) := by
    intro u hu
    rw [Bool.eq_iff_iff, Bool.and_eq_true]
    have hagree := hk u hu
    rw [Bool.eq_iff_iff] at hagree
    refine Iff.trans ⟨fun ⟨hl, hr⟩ => h.joins.holds hl hr, ?_⟩ hagree
    exact h.joins.holds_of_isApart (hk.isApart h hd) hu
  constructor
  · intro v _
    obtain ⟨u, hnever, hu, hu'⟩ := hassign v fun _ => true
    have hagree := hholds u hnever
    rw [holds_of_forall hu', truth_of_forall h.operands.2 hdk'.never_notMem hu', Bool.and_true,
      Bool.and_true] at hagree
    rw [← holds_congr hu, hagree, hdk.truth_congr h.operands.1 hu]
  · intro v _
    obtain ⟨u, hnever, hu, hu'⟩ := hassign (fun _ => true) v
    have hagree := hholds u hnever
    rw [holds_of_forall hu, truth_of_forall h.operands.1 hdk.never_notMem hu, Bool.true_and,
      Bool.true_and] at hagree
    rw [← holds_congr hu', hagree, hdk'.truth_congr h.operands.2 hu']

/-- **Only the text of a sound outline says what the outline says.** -/
theorem isSound_of_agrees (h : k.Legible) (hd : k.Distinct) (hk : k.Agrees) : k.isSound = true := by
  induction k with
  | constant b => rfl
  | test e t => rfl
  | joined isOr p q k k' ih ih' =>
    obtain ⟨hdk, hdk', -⟩ := hd.independent h
    cases isOr with
    | true =>
      obtain ⟨hl, hr⟩ := hk.of_or h hd
      rw [isSound, ih h.operands.1 hdk hl, ih' h.operands.2 hdk' hr]
      simpa using hk.isEmpty_eq h
    | false =>
      obtain ⟨hl, hr⟩ := hk.of_and h hd
      rw [isSound, ih h.operands.1 hdk hl, ih' h.operands.2 hdk' hr]
      exact hk.isApart h hd

end Outline

end QueryTree
