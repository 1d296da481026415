import QueryTree.Text.Basic

/-!
# Formulas

What a condition says: comparisons joined by `AND` and `OR`, some of them in parentheses. `AND`
binds tighter than `OR`, so a formula without parentheses is a disjunction of conjunctions, and
joining two formulas by `AND` without parentheses merges the last disjunct of the first with the
first disjunct of the second: `a OR b` and `c OR d` give `a OR b AND c OR d`. That is what
`Formula.conj` computes, and it is not the conjunction of the two.

The same happens when every operator of a formula is swapped for its complement. `Formula.dual` does
it, and it is the complement exactly when no level of parentheses mixes both operators: otherwise
there are truth values for the atoms that make the formula and its dual true.

## Main definitions

* `Formula`, `Formula.text`, `Formula.holds`
* `Formula.conj`, `Formula.disj`: joining formulas without parentheses
* `Formula.Canonical`: the formulas that texts are read as
* `Formula.dual`, `Formula.Unmixed`

## Main results

* `Formula.holds_dual`: without mixed levels the dual is the complement
* `Formula.exists_holds_dual`: with a mixed level it is not
* `Formula.holds_conj_of_holds`: a conjunction implies the formulas joined by `AND`
-/

namespace QueryTree.Sql

/-- What a condition says. -/
inductive Formula where
  | atom (t : Text)
  | group (f : Formula)
  | and (f g : Formula)
  | or (f g : Formula)
  deriving DecidableEq

namespace Formula

/-- The text of a formula. -/
def text : Formula → Text
  | atom t => t
  | group f => "(" ++ f.text ++ ")"
  | and f g => f.text ++ " AND " ++ g.text
  | or f g => f.text ++ " OR " ++ g.text

/-- Whether a formula holds where `v` says which atoms do. -/
def holds (v : Text → Bool) : Formula → Bool
  | atom t => v t
  | group f => f.holds v
  | and f g => f.holds v && g.holds v
  | or f g => f.holds v || g.holds v

/-- The atoms of a formula from left to right. -/
def atoms : Formula → List Text
  | atom t => [t]
  | group f => f.atoms
  | and f g => f.atoms ++ g.atoms
  | or f g => f.atoms ++ g.atoms

/-- The formula with its atoms replaced. -/
def map (h : Text → Text) : Formula → Formula
  | atom t => atom (h t)
  | group f => group (f.map h)
  | and f g => and (f.map h) (g.map h)
  | or f g => or (f.map h) (g.map h)

def isOr : Formula → Bool
  | or _ _ => true
  | _ => false

def isAnd : Formula → Bool
  | and _ _ => true
  | _ => false

variable {v w : Text → Bool} {f g : Formula}

-- The equations of what is computed from a formula, by which all proofs below go.
attribute [local grind =] text holds atoms map isOr isAnd

theorem atoms_ne_nil (f : Formula) : f.atoms ≠ [] := by
  induction f with
  | atom t => simp [atoms]
  | group f ih => exact ih
  | and f g ihf ihg => simp [atoms, ihf]
  | or f g ihf ihg => simp [atoms, ihf]

/-- Only the truth values of its atoms decide whether a formula holds. -/
theorem holds_congr (h : ∀ a ∈ f.atoms, v a = w a) : f.holds v = f.holds w := by
  induction f with
  | atom t => exact h t (by simp [atoms])
  | group f ih => exact ih h
  | and f g ihf ihg | or f g ihf ihg =>
    simp only [atoms, List.mem_append] at h
    rw [holds, holds, ihf fun a ha => h a (.inl ha), ihg fun a ha => h a (.inr ha)]

theorem holds_eq_of_forall {b : Bool} (h : ∀ a ∈ f.atoms, v a = b) : f.holds v = b := by
  induction f with
  | atom t => exact h t (by simp [atoms])
  | group f ih => exact ih h
  | and f g ihf ihg | or f g ihf ihg =>
    simp only [atoms, List.mem_append] at h
    rw [holds, ihf fun a ha => h a (.inl ha), ihg fun a ha => h a (.inr ha)]
    cases b <;> rfl

theorem holds_map (h : Text → Text) : (f.map h).holds v = f.holds (v ∘ h) := by
  induction f with
  | atom t => rfl
  | group f ih => exact ih
  | and f g ihf ihg | or f g ihf ihg => simp only [map, holds, ihf, ihg]

theorem atoms_map (h : Text → Text) : (f.map h).atoms = f.atoms.map h := by
  induction f with
  | atom t => rfl
  | group f ih => exact ih
  | and f g ihf ihg | or f g ihf ihg => simp only [map, atoms, ihf, ihg, List.map_append]

@[simp]
theorem isOr_map (h : Text → Text) : (f.map h).isOr = f.isOr := by
  cases f <;> rfl

@[simp]
theorem isAnd_map (h : Text → Text) : (f.map h).isAnd = f.isAnd := by
  cases f <;> rfl

/-! ### Joining without parentheses -/

/-- Two conjunctions joined by `AND`. -/
def append : Formula → Formula → Formula
  | and f f', g => and f (append f' g)
  | f, g => and f g

/-- A conjunction joined by `AND` with a formula whose first disjunct it takes along. -/
def prepend (f : Formula) : Formula → Formula
  | or g g' => or (append f g) g'
  | g => append f g

/-- Two formulas joined by `AND`. -/
def conj : Formula → Formula → Formula
  | or f f', g => or f (conj f' g)
  | f, g => prepend f g

/-- Two formulas joined by `OR`. -/
def disj : Formula → Formula → Formula
  | or f f', g => or f (disj f' g)
  | f, g => or f g

attribute [local grind =] append prepend conj disj

theorem text_append (f g : Formula) : (append f g).text = f.text ++ " AND " ++ g.text := by
  fun_induction append f g with
  | case1 f f' g ih => simp [text, ih]
  | case2 f g => rfl

theorem text_prepend (f g : Formula) : (prepend f g).text = f.text ++ " AND " ++ g.text := by
  unfold prepend
  split
  · simp [text, text_append]
  · exact text_append f _

theorem text_conj (f g : Formula) : (conj f g).text = f.text ++ " AND " ++ g.text := by
  fun_induction conj f g with
  | case1 f f' g ih => simp [text, ih]
  | case2 f g => exact text_prepend f g

theorem text_disj (f g : Formula) : (disj f g).text = f.text ++ " OR " ++ g.text := by
  fun_induction disj f g with
  | case1 f f' g ih => simp [text, ih]
  | case2 f g => rfl

theorem atoms_append (f g : Formula) : (append f g).atoms = f.atoms ++ g.atoms := by
  fun_induction append f g with
  | case1 f f' g ih => simp [atoms, ih]
  | case2 f g => rfl

theorem atoms_prepend (f g : Formula) : (prepend f g).atoms = f.atoms ++ g.atoms := by
  unfold prepend
  split
  · simp [atoms, atoms_append]
  · exact atoms_append f _

theorem atoms_conj (f g : Formula) : (conj f g).atoms = f.atoms ++ g.atoms := by
  fun_induction conj f g with
  | case1 f f' g ih => simp [atoms, ih]
  | case2 f g => exact atoms_prepend f g

theorem atoms_disj (f g : Formula) : (disj f g).atoms = f.atoms ++ g.atoms := by
  fun_induction disj f g with
  | case1 f f' g ih => simp [atoms, ih]
  | case2 f g => rfl

theorem map_append (h : Text → Text) (f g : Formula) :
    (append f g).map h = append (f.map h) (g.map h) := by
  fun_induction append f g with
  | case1 f f' g ih => simp [map, append, ih]
  | case2 f g hf =>
    cases f with
    | and f f' => exact absurd rfl (hf f f')
    | atom | group | or => rfl

theorem map_conj (h : Text → Text) (f g : Formula) :
    (conj f g).map h = conj (f.map h) (g.map h) := by
  have hprepend : ∀ f, (prepend f g).map h = prepend (f.map h) (g.map h) := by
    intro f
    cases g <;> simp [prepend, map, map_append]
  fun_induction conj f g with
  | case1 f f' g ih => simp [map, conj, ih hprepend]
  | case2 f g hf =>
    rw [hprepend]
    cases f with
    | or f f' => exact absurd rfl (hf f f')
    | atom | group | and => rfl

theorem map_disj (h : Text → Text) (f g : Formula) :
    (disj f g).map h = disj (f.map h) (g.map h) := by
  fun_induction disj f g with
  | case1 f f' g ih => simp [map, disj, ih]
  | case2 f g hf =>
    cases f with
    | or f f' => exact absurd rfl (hf f f')
    | atom | group | and => rfl

/-! ### What joined formulas say -/

theorem holds_append (f g : Formula) : (append f g).holds v = (f.holds v && g.holds v) := by
  fun_induction append f g with
  | case1 f f' g ih => simp [holds, ih, Bool.and_assoc]
  | case2 f g => rfl

theorem holds_disj (f g : Formula) : (disj f g).holds v = (f.holds v || g.holds v) := by
  fun_induction disj f g with
  | case1 f f' g ih => simp [holds, ih, Bool.or_assoc]
  | case2 f g => rfl

theorem conj_of_not_isOr (hf : f.isOr = false) (hg : g.isOr = false) : conj f g = append f g := by
  fun_cases conj f g with
  | case1 f f' => cases hf
  | case2 =>
    fun_cases prepend f g with
    | case1 g g' => cases hg
    | case2 => rfl

/-- Formulas without a bare `OR` may be joined by `AND`. -/
theorem holds_conj (hf : f.isOr = false) (hg : g.isOr = false) :
    (conj f g).holds v = (f.holds v && g.holds v) := by
  rw [conj_of_not_isOr hf hg, holds_append]

/-- **A formula joined by `AND` holds where both formulas hold.** -/
theorem holds_conj_of_holds (hf : f.holds v = true) (hg : g.holds v = true) :
    (conj f g).holds v = true := by
  fun_induction conj f g with
  | case1 f f' g ih =>
    simp only [holds, Bool.or_eq_true] at hf ⊢
    rcases hf with hf | hf
    · exact .inl hf
    · exact .inr (ih hf hg)
  | case2 f g =>
    unfold prepend
    split
    · simp only [holds, Bool.or_eq_true] at hg ⊢
      rcases hg with hg | hg
      · exact .inl (by rw [holds_append, hf, hg]; rfl)
      · exact .inr hg
    · rw [holds_append, hf, hg]
      rfl

/-- A bare `OR` before `AND` leaves what stands before it out of the conjunction. -/
theorem holds_conj_of_isOr_left (hf : f.isOr = true) (h : ∀ a ∈ f.atoms, v a = true) :
    (conj f g).holds v = true := by
  cases f with
  | or f f' =>
    have hleft : f.holds v = true := holds_eq_of_forall fun a ha => h a (by simp [atoms, ha])
    simp [conj, holds, hleft]
  | atom | group | and => cases hf

/-- A bare `OR` after `AND` leaves what stands behind it out of the conjunction. -/
theorem holds_conj_of_isOr_right (hg : g.isOr = true) (h : ∀ a ∈ g.atoms, v a = true) :
    (conj f g).holds v = true := by
  cases g with
  | or g g' =>
    have hright : g'.holds v = true := holds_eq_of_forall fun a ha => h a (by simp [atoms, ha])
    generalize hor : or g g' = x
    fun_induction conj f x with
    | case1 f f' x ih => simp [holds, ih hor]
    | case2 f x =>
      subst hor
      simp [prepend, holds, hright]
  | atom | group | and => cases hg

/-! ### Canonical formulas -/

/-- The formulas that texts are read as: the first disjunct is no disjunction, the first conjunct is
in parentheses or an atom, and a disjunction in a conjunction is in parentheses. -/
def Canonical : Formula → Prop
  | atom _ => True
  | group f => f.Canonical
  | and f g => (f.isAnd = false ∧ f.isOr = false ∧ g.isOr = false) ∧ f.Canonical ∧ g.Canonical
  | or f g => f.isOr = false ∧ f.Canonical ∧ g.Canonical

theorem Canonical.append (hf : f.Canonical) (hg : g.Canonical) (hfo : f.isOr = false)
    (hgo : g.isOr = false) : (append f g).Canonical ∧ (append f g).isOr = false := by
  fun_induction Formula.append f g with
  | case1 f f' g ih =>
    obtain ⟨⟨hfa, hfo, hfo'⟩, hf, hf'⟩ := hf
    obtain ⟨hc, ho⟩ := ih hf' hg hfo' hgo
    exact ⟨⟨⟨hfa, hfo, ho⟩, hf, hc⟩, rfl⟩
  | case2 f g hand =>
    have hfa : f.isAnd = false := by
      cases f with
      | and f f' => exact absurd rfl (hand f f')
      | atom | group | or => rfl
    exact ⟨⟨⟨hfa, hfo, hgo⟩, hf, hg⟩, rfl⟩

theorem Canonical.conj (hf : f.Canonical) (hg : g.Canonical) : (conj f g).Canonical := by
  fun_induction Formula.conj f g with
  | case1 f f' g ih =>
    obtain ⟨hfo, hf, hf'⟩ := hf
    exact ⟨hfo, hf, ih hf' hg⟩
  | case2 f g hor =>
    have hfo : f.isOr = false := by
      cases f with
      | or f f' => exact absurd rfl (hor f f')
      | atom | group | and => rfl
    cases g with
    | or g g' =>
      obtain ⟨hgo, hg, hg'⟩ := hg
      obtain ⟨hc, ho⟩ := hf.append hg hfo hgo
      exact ⟨ho, hc, hg'⟩
    | atom | group | and => exact (hf.append hg hfo rfl).1

theorem Canonical.disj (hf : f.Canonical) (hg : g.Canonical) : (disj f g).Canonical := by
  fun_induction Formula.disj f g with
  | case1 f f' g ih =>
    obtain ⟨hfo, hf, hf'⟩ := hf
    exact ⟨hfo, hf, ih hf' hg⟩
  | case2 f g hor =>
    have hfo : f.isOr = false := by
      cases f with
      | or f f' => exact absurd rfl (hor f f')
      | atom | group | and => rfl
    exact ⟨hfo, hf, hg⟩

theorem Canonical.map (h : Text → Text) (hf : f.Canonical) : (f.map h).Canonical := by
  induction f with
  | atom t => trivial
  | group f ih => exact ih hf
  | and f g ihf ihg =>
    obtain ⟨ho, hf, hg⟩ := hf
    exact ⟨by simpa using ho, ihf hf, ihg hg⟩
  | or f g ihf ihg =>
    obtain ⟨ho, hf, hg⟩ := hf
    exact ⟨by simpa using ho, ihf hf, ihg hg⟩

/-! ### Duals -/

/-- The formula with every `AND` and `OR` swapped. -/
def dual : Formula → Formula
  | atom t => atom t
  | group f => group f.dual
  | and f g => disj f.dual g.dual
  | or f g => conj f.dual g.dual

/-- No level of the formula joins by both `AND` and `OR`. -/
def Unmixed : Formula → Prop
  | atom _ => True
  | group f => f.Unmixed
  | and f g => (f.isOr = false ∧ g.isOr = false) ∧ f.Unmixed ∧ g.Unmixed
  | or f g => (f.isAnd = false ∧ g.isAnd = false) ∧ f.Unmixed ∧ g.Unmixed

instance decidableUnmixed : (f : Formula) → Decidable f.Unmixed
  | atom _ => .isTrue trivial
  | group f => decidableUnmixed f
  | and f g =>
    have := decidableUnmixed f
    have := decidableUnmixed g
    inferInstanceAs (Decidable ((f.isOr = false ∧ g.isOr = false) ∧ f.Unmixed ∧ g.Unmixed))
  | or f g =>
    have := decidableUnmixed f
    have := decidableUnmixed g
    inferInstanceAs (Decidable ((f.isAnd = false ∧ g.isAnd = false) ∧ f.Unmixed ∧ g.Unmixed))

theorem atoms_dual (f : Formula) : f.dual.atoms = f.atoms := by
  induction f with
  | atom t => rfl
  | group f ih => exact ih
  | and f g ihf ihg => simp only [dual, atoms_disj, atoms, ihf, ihg]
  | or f g ihf ihg => simp only [dual, atoms_conj, atoms, ihf, ihg]

theorem Canonical.dual (hf : f.Canonical) : f.dual.Canonical := by
  induction f with
  | atom t => trivial
  | group f ih => exact ih hf
  | and f g ihf ihg => exact (ihf hf.2.1).disj (ihg hf.2.2)
  | or f g ihf ihg => exact (ihf hf.2.1).conj (ihg hf.2.2)

theorem isOr_dual_and (f g : Formula) : (and f g).dual.isOr = true := by
  show (disj f.dual g.dual).isOr = true
  fun_cases disj f.dual g.dual <;> rfl

theorem isOr_append (f g : Formula) : (append f g).isOr = false := by
  fun_cases append f g <;> rfl

/-- Only the dual of a conjunction has a bare `OR`. -/
theorem Unmixed.isOr_dual (h : f.Unmixed) (hf : f.isAnd = false) : f.dual.isOr = false := by
  induction f with
  | atom t => rfl
  | group f => rfl
  | and f g => cases hf
  | or f g ihf ihg =>
    obtain ⟨⟨hfa, hga⟩, hf, hg⟩ := h
    show (Formula.conj f.dual g.dual).isOr = false
    rw [conj_of_not_isOr (ihf hf hfa) (ihg hg hga)]
    exact isOr_append f.dual g.dual

/-- **Without mixed levels the dual of complements is the complement.** -/
theorem holds_dual (h : f.Unmixed) : f.dual.holds (fun a => !v a) = !f.holds v := by
  induction f with
  | atom t => rfl
  | group f ih => exact ih h
  | and f g ihf ihg =>
    obtain ⟨-, hf, hg⟩ := h
    simp only [dual, holds_disj, holds, ihf hf, ihg hg, Bool.not_and]
  | or f g ihf ihg =>
    obtain ⟨⟨hfa, hga⟩, hf, hg⟩ := h
    simp only [dual, holds_conj (hf.isOr_dual hfa) (hg.isOr_dual hga), holds, ihf hf, ihg hg,
      Bool.not_or]

/-- Truth values for two lists without a common atom. -/
theorem exists_agree {l l' : List Text} (h : ∀ a ∈ l, ∀ b ∈ l', a ≠ b) (v w : Text → Bool) :
    ∃ u : Text → Bool, (∀ a ∈ l, u a = v a) ∧ ∀ a ∈ l', u a = w a := by
  refine ⟨fun a => if a ∈ l then v a else w a, fun a ha => if_pos ha, fun a ha => if_neg ?_⟩
  exact fun hl => h a hl a ha rfl

theorem holds_dual_congr (h : ∀ a ∈ f.atoms, v a = w a) :
    f.dual.holds (fun a => !v a) = f.dual.holds fun a => !w a := by
  refine holds_congr fun a ha => ?_
  rw [atoms_dual] at ha
  rw [h a ha]

theorem forall_atoms_dual {b : Bool} (h : ∀ a ∈ f.atoms, v a = b) :
    ∀ a ∈ f.dual.atoms, (!v a) = !b := by
  intro a ha
  rw [atoms_dual] at ha
  rw [h a ha]

/-- **With a mixed level the dual of complements is not the complement**: where no atom stands
twice, some truth values make both true. -/
theorem exists_holds_dual (hf : f.Canonical) (hn : f.atoms.Nodup) (h : ¬ f.Unmixed) :
    ∃ v : Text → Bool, f.holds v = true ∧ f.dual.holds (fun a => !v a) = true := by
  induction f with
  | atom t => exact absurd trivial h
  | group f ih => exact ih hf hn h
  | and f g ihf ihg =>
    obtain ⟨⟨-, hfo, hgo⟩, hf, hg⟩ := hf
    obtain ⟨hnf, hng, hfg⟩ := List.nodup_append.mp hn
    -- the mixed level is inside of one conjunct; the other one is made true
    by_cases hfu : f.Unmixed
    · have hgu : ¬ g.Unmixed := fun hgu => h ⟨⟨hfo, hgo⟩, hfu, hgu⟩
      obtain ⟨v, hv, hd⟩ := ihg hg hng hgu
      obtain ⟨u, huf, hug⟩ := exists_agree hfg (fun _ => true) v
      refine ⟨u, ?_, ?_⟩
      · rw [holds, holds_eq_of_forall huf, holds_congr hug, hv]
        rfl
      · rw [dual, holds_disj, Bool.or_eq_true]
        refine .inr ?_
        rwa [holds_dual_congr hug]
    · obtain ⟨v, hv, hd⟩ := ihf hf hnf hfu
      obtain ⟨u, huf, hug⟩ := exists_agree hfg v (fun _ => true)
      refine ⟨u, ?_, ?_⟩
      · rw [holds, holds_eq_of_forall hug, holds_congr huf, hv]
        rfl
      · rw [dual, holds_disj, Bool.or_eq_true]
        refine .inl ?_
        rwa [holds_dual_congr huf]
  | or f g ihf ihg =>
    obtain ⟨hfo, hf, hg⟩ := hf
    obtain ⟨hnf, hng, hfg⟩ := List.nodup_append.mp hn
    by_cases hfa : f.isAnd = true
    · -- the dual of the first disjunct gets a bare `OR`, before which the rest is left out
      obtain ⟨u, huf, hug⟩ := exists_agree hfg (fun _ => false) (fun _ => true)
      refine ⟨u, ?_, ?_⟩
      · rw [holds, holds_eq_of_forall hug, Bool.or_true]
      · refine holds_conj_of_isOr_left ?_ (forall_atoms_dual huf)
        cases f with
        | and f f' => exact isOr_dual_and f f'
        | atom | group | or => cases hfa
    by_cases hga : g.isAnd = true
    · obtain ⟨u, huf, hug⟩ := exists_agree hfg (fun _ => true) (fun _ => false)
      refine ⟨u, ?_, ?_⟩
      · rw [holds, holds_eq_of_forall huf, Bool.true_or]
      · refine holds_conj_of_isOr_right ?_ (forall_atoms_dual hug)
        cases g with
        | and g g' => exact isOr_dual_and g g'
        | atom | group | or => cases hga
    simp only [Bool.not_eq_true] at hfa hga
    by_cases hfu : f.Unmixed
    · have hgu : ¬ g.Unmixed := fun hgu => h ⟨⟨hfa, hga⟩, hfu, hgu⟩
      obtain ⟨v, hv, hd⟩ := ihg hg hng hgu
      obtain ⟨u, huf, hug⟩ := exists_agree hfg (fun _ => false) v
      refine ⟨u, ?_, ?_⟩
      · rw [holds, holds_congr hug, hv, Bool.or_true]
      · refine holds_conj_of_holds (holds_eq_of_forall (forall_atoms_dual huf)) ?_
        rwa [holds_dual_congr hug]
    · obtain ⟨v, hv, hd⟩ := ihf hf hnf hfu
      obtain ⟨u, huf, hug⟩ := exists_agree hfg v (fun _ => false)
      refine ⟨u, ?_, ?_⟩
      · rw [holds, holds_congr huf, hv, Bool.true_or]
      · refine holds_conj_of_holds ?_ (holds_eq_of_forall (forall_atoms_dual hug))
        rwa [holds_dual_congr huf]

end Formula

end QueryTree.Sql
