import Mathlib.Data.Finset.Card
import Mathlib.Data.Nat.Find
import Mathlib.Order.Bounds.Basic
import QueryTree.Compile.Alias
import QueryTree.Proofs.Numerals

/-!
# The search for an unused alias

A name becomes an alias by a loop: the name is tried, then the name with a 2 behind it, then with a
3, and so on, until a candidate is not in use. Nothing in the loop bounds it. `AliasTable.unique`
looks at one candidate more than there are aliases in use and so has to say what it gives if all of
them are; this module shows that the case does not arise, and that the loop, stated here without a
bound, ends with the same candidate.

## Why it ends

The candidates are compared with the used aliases in lower case, so it is not enough that they are
different. A numeral stays as it is in lower case wherever it stands behind a name, even behind one
that ends in the middle of a character; so the candidates in lower case are the name in lower case
with different numerals behind it. As long as the loop goes on it has met a different used alias in
each pass, and there are finitely many.

## Main definitions

* `AliasTable.Search`: where the loop stands
* `AliasTable.Search.Ends`: the loop ends, after so many passes, with this candidate

## Main results

* `AliasTable.Search.ends_start_iff`: the loop ends at the first candidate that is not in use
* `AliasTable.exists_isLeast_unused`: there is one, and the used aliases bound its place
* `AliasTable.unique_ends`: `unique` gives the candidate with which the loop ends
-/

namespace QueryTree.AliasTable

/-! ### Candidates -/

theorem candidate_toLower_injective (name : Text) {i j : Nat}
    (h : (candidate name i).toLower = (candidate name j).toLower) : i = j := by
  -- the numerals behind the name in lower case; the name alone has none
  have lower : ∀ i, (candidate name i).toLower =
      name.toLower ++ if i = 0 then [] else Text.ofNat (i + 1) := by
    intro i
    unfold candidate
    split
    · rw [List.append_nil]
    · exact Text.toLower_append_digits (Text.all_isDigitByte_ofNat (i + 1)) name
  rw [lower, lower, List.append_right_inj] at h
  split at h <;> split at h
  · omega
  · exact absurd h.symm (Text.ofNat_ne_nil _)
  · exact absurd h (Text.ofNat_ne_nil _)
  · exact Nat.succ.inj (Text.ofNat_injective h)

/-- The places of the candidates that are not in use. -/
def unused (used : List Text) (name : Text) : Set Nat :=
  {i | (candidate name i).toLower ∉ used}

theorem not_mem_unused {used : List Text} {name : Text} {i : Nat} :
    i ∉ unused used name ↔ (candidate name i).toLower ∈ used :=
  not_not

/-- One more candidate than there are used aliases: one of them is not in use. -/
theorem exists_mem_unused (used : List Text) (name : Text) :
    ∃ i ≤ used.toFinset.card, i ∈ unused used name := by
  by_contra hno
  have hsub : (Finset.range (used.toFinset.card + 1)).image
      (fun i => (candidate name i).toLower) ⊆ used.toFinset := by
    intro c hc
    obtain ⟨i, hi, rfl⟩ := Finset.mem_image.mp hc
    have hle : i ≤ used.toFinset.card := Nat.le_of_lt_succ (Finset.mem_range.mp hi)
    exact List.mem_toFinset.mpr (not_mem_unused.mp fun hmem => hno ⟨i, hle, hmem⟩)
  have hcard := Finset.card_le_card hsub
  rw [Finset.card_image_of_injective _ fun i j h => candidate_toLower_injective name h,
    Finset.card_range] at hcard
  omega

/-- **There is a first candidate that is not in use**, and there are at least as many used aliases
as candidates before it. -/
theorem exists_isLeast_unused (used : List Text) (name : Text) :
    ∃ k ≤ used.toFinset.card, IsLeast (unused used name) k := by
  obtain ⟨i, hi, hmem⟩ := exists_mem_unused used name
  have hex : ∃ i, (candidate name i).toLower ∉ used := ⟨i, hmem⟩
  exact ⟨Nat.find hex, (Nat.find_min' hex hmem).trans hi, Nat.find_spec hex,
    fun j hj => Nat.find_min' hex hj⟩

/-- The first unused candidate is found. -/
theorem firstUnused_eq {used : List Text} {name : Text} {k : Nat}
    (hk : IsLeast (unused used name) k) : firstUnused used name = candidate name k := by
  obtain ⟨i, hi, hmem⟩ := exists_mem_unused used name
  have hlength : k < used.length + 1 :=
    Nat.lt_succ_of_le ((hk.2 hmem).trans (hi.trans (List.toFinset_card_le used)))
  have hfound : (List.range (used.length + 1)).find?
      (fun i => !used.contains (candidate name i).toLower) = some k := by
    rw [List.find?_range_eq_some]
    have hfree : (candidate name k).toLower ∉ used := hk.1
    refine ⟨by simpa using hfree, List.mem_range.mpr hlength, fun j hj => ?_⟩
    have hused := not_mem_unused.mp fun hmem => Nat.not_le.mpr hj (hk.2 hmem)
    simpa using hused
  rw [firstUnused, List.find?_map]
  exact congrArg (fun found => (Option.map (candidate name) found).getD name) hfound

theorem firstUnused_not_mem (used : List Text) (name : Text) :
    (firstUnused used name).toLower ∉ used := by
  obtain ⟨k, -, hk⟩ := exists_isLeast_unused used name
  rw [firstUnused_eq hk]
  exact hk.1

/-! ### The loop -/

/-- Where the loop stands: the candidate at hand, and the number of the next one. -/
structure Search where
  candidate : Text
  next : Nat

namespace Search

/-- The loop begins with the name itself; the next candidate has the number two. -/
def start (name : Text) : Search := ⟨name, 2⟩

/-- One pass: the name with the next number takes the place of the candidate. -/
def pass (name : Text) (s : Search) : Search := ⟨name ++ Text.ofNat s.next, s.next + 1⟩

/-- The loop ends after `n` passes with the candidate `c`. It goes on as long as the candidate in
lower case is in use, however long that is. -/
inductive Ends (used : List Text) (name : Text) : Search → Nat → Text → Prop
  | stop {s : Search} (h : s.candidate.toLower ∉ used) : Ends used name s 0 s.candidate
  | pass {s : Search} {n : Nat} {c : Text} (h : s.candidate.toLower ∈ used)
    (hrest : Ends used name (s.pass name) n c) : Ends used name s (n + 1) c

variable {used : List Text} {name c : Text} {s : Search} {n : Nat}

theorem ends_zero_iff : Ends used name s 0 c ↔ s.candidate.toLower ∉ used ∧ c = s.candidate := by
  constructor
  · intro h
    cases h with
    | stop h => exact ⟨h, rfl⟩
  · rintro ⟨h, rfl⟩
    exact .stop h

theorem ends_succ_iff : Ends used name s (n + 1) c ↔
    s.candidate.toLower ∈ used ∧ Ends used name (s.pass name) n c := by
  constructor
  · intro h
    cases h with
    | pass h hrest => exact ⟨h, hrest⟩
  · rintro ⟨h, hrest⟩
    exact .pass h hrest

/-- Where the loop stands after `i` passes. -/
def after (name : Text) (i : Nat) : Search := ⟨AliasTable.candidate name i, i + 2⟩

/-- One pass leads from each candidate to the one behind it. -/
theorem pass_after (name : Text) (i : Nat) : (after name i).pass name = after name (i + 1) := rfl

/-- A run of the loop, from where it stands after `i` passes: all candidates but the last are in
use. -/
theorem ends_after_iff (i : Nat) : Ends used name (after name i) n c ↔
    (∀ j < n, i + j ∉ unused used name) ∧ i + n ∈ unused used name ∧
      c = AliasTable.candidate name (i + n) := by
  induction n generalizing i with
  | zero =>
    rw [ends_zero_iff]
    exact ⟨fun h => ⟨fun j hj => absurd hj (Nat.not_lt_zero j), h⟩, fun h => h.2⟩
  | succ n ih =>
    rw [ends_succ_iff, pass_after, ih]
    have hnext : ∀ j, i + 1 + j = i + (j + 1) := fun j => by omega
    simp only [hnext]
    constructor
    · rintro ⟨hused, hbefore, hlast⟩
      refine ⟨fun j hj => ?_, hlast⟩
      rcases j with _ | j
      · exact fun hmem => hmem hused
      · exact hbefore j (Nat.lt_of_succ_lt_succ hj)
    · rintro ⟨hbefore, hlast⟩
      exact ⟨not_mem_unused.mp (hbefore 0 n.succ_pos),
        fun j hj => hbefore (j + 1) (Nat.succ_lt_succ hj), hlast⟩

/-- **The loop ends at the first candidate that is not in use**, and with nothing else. -/
theorem ends_start_iff : Ends used name (start name) n c ↔
    IsLeast (unused used name) n ∧ c = AliasTable.candidate name n := by
  rw [show start name = after name 0 from rfl, ends_after_iff]
  simp only [Nat.zero_add]
  constructor
  · rintro ⟨hbefore, hmem, hc⟩
    refine ⟨⟨hmem, fun j hj => ?_⟩, hc⟩
    by_contra hlt
    exact hbefore j (Nat.not_le.mp hlt) hj
  · rintro ⟨hleast, hc⟩
    exact ⟨fun j hj hmem => Nat.not_le.mpr hj (hleast.2 hmem), hleast.1, hc⟩

end Search

/-- **The search for an unused alias ends.** It ends after at most as many passes as there are used
aliases, so it looks at one candidate more at most. -/
theorem unique_ends (a : AliasTable) (name : Text) : ∃ k ≤ a.used.toFinset.card,
    (∀ n c, Search.Ends a.used name (.start name) n c ↔ n = k ∧ c = (a.unique name).1) ∧
      (a.unique name).1 = candidate name k ∧
      IsLeast {i | (candidate name i).toLower ∉ a.used} k ∧
      (a.unique name).2 = { a with used := (candidate name k).toLower :: a.used } := by
  obtain ⟨k, hle, hk⟩ := exists_isLeast_unused a.used name
  have hname : (a.unique name).1 = candidate name k := firstUnused_eq hk
  refine ⟨k, hle, fun n c => ?_, hname, hk, ?_⟩
  · rw [Search.ends_start_iff, hname]
    constructor
    · rintro ⟨hn, rfl⟩
      rw [hn.unique hk]
      exact ⟨rfl, rfl⟩
    · rintro ⟨rfl, rfl⟩
      exact ⟨hk, rfl⟩
  · rw [← hname]
    rfl

/-- The candidate with the 2 is taken in another case, that with the 3 only in part. -/
example : (unique ⟨[], [], ["order", "order2", "order33", "x"], []⟩ "Order").1 = "Order3" ∧
    (unique ⟨[], [], ["order", "order2", "order33", "x"], []⟩ "Order").2.used =
      ["order3", "order", "order2", "order33", "x"] := by
  decide

end QueryTree.AliasTable
