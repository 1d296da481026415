import Mathlib.Data.Bool.AllAny
import QueryTree.Proofs.Quoted
import QueryTree.Sql.Negation

/-!
# What negation does to a text

Negation copies quoted segments, `CASE` expressions and single bytes, and it replaces tokens by
their complements. A `CASE` expression is copied whole, but it is made of quoted segments and single
bytes too. So a relation that is kept where a byte or a quoted segment is copied and where a token
is replaced holds between every text and its negation, and nothing else has to be known of negation.

## Main definitions

* `Sql.Rewriting`: the relations that are kept

## Main results

* `Sql.Rewriting.negate`: they hold between a text and its negation
-/

namespace QueryTree.Sql

/-- The relation is kept where a byte that opens no quotes or a quoted segment is copied, and where
a token, in any case, is replaced by its complement. -/
structure Rewriting (R : Text → Text → Prop) : Prop where
  nil : R [] []
  copy : ∀ {b : UInt8} {t t' : Text}, closer? b = none → R t t' → R (b :: t) (b :: t')
  quoted : ∀ {q t t' : Text}, q ≠ [] → quotedLength (q ++ t) = q.length → R t t' →
    R (q ++ t) (q ++ t')
  token : ∀ {x : Text × Text} {w t t' : Text}, x ∈ negations →
    w.map Text.lowerByte = x.1.map Text.lowerByte → R t t' → R (w ++ t) (x.2 ++ t')

/-! ### Copying

What negation copies it copies whole, so the next thing it reads starts where a scanner that steps
over quoted segments would look next. -/

/-- The first `n` bytes can be copied in front of a text that is related to the rest. -/
def Copies (R : Text → Text → Prop) (n : Nat) (t : Text) : Prop :=
  ∀ t', R (t.drop n) t' → R t (t.take n ++ t')

variable {R : Text → Text → Prop}

theorem Copies.add {n m : Nat} {t : Text} (hn : Copies R n t) (hm : Copies R m (t.drop n)) :
    Copies R (n + m) t := by
  intro t' h
  rw [List.take_add, List.append_assoc]
  exact hn _ (hm _ (by rwa [List.drop_drop]))

theorem copies_zero (t : Text) : Copies R 0 t := fun _ h => h

/-- Bytes that open no quotes are copied one by one. -/
theorem Rewriting.copies_plain (hR : Rewriting R) {n : Nat} {t : Text} (hn : n ≤ t.length)
    (h : ∀ b ∈ t.take n, closer? b = none) : Copies R n t := by
  induction n generalizing t with
  | zero => exact copies_zero t
  | succ n ih =>
    cases t with
    | nil => simp at hn
    | cons b t =>
      rw [List.take_succ_cons] at h
      intro t' hs
      exact hR.copy (h b (by simp))
        (ih (by simpa using hn) (fun c hc => h c (by simp [hc])) t' (by simpa using hs))

theorem lengthToCloser_le (closer : UInt8) (t : Text) : lengthToCloser closer t ≤ t.length := by
  fun_induction lengthToCloser closer t <;> simp_all

theorem quotedLength_le (t : Text) : quotedLength t ≤ t.length := by
  unfold quotedLength
  split
  · exact Nat.le_refl 0
  · split
    · simpa using lengthToCloser_le _ _
    · exact Nat.zero_le _

theorem Rewriting.copies_quoted (hR : Rewriting R) {n : Nat} {t : Text}
    (h : quotedLength t = n + 1) : Copies R (n + 1) t := by
  intro t' hs
  have hle := quotedLength_le t
  have hlen : (t.take (n + 1)).length = n + 1 := by
    rw [List.length_take]
    omega
  have hs' := hR.quoted (q := t.take (n + 1)) (t := t.drop (n + 1))
    (by rw [← List.length_pos_iff, hlen]; omega) (by rw [List.take_append_drop, h, hlen]) hs
  rwa [List.take_append_drop] at hs'

/-- The bytes of a word found in a text are those of the word, up to case. -/
theorem map_lowerByte_of_startsWithWord {word t : Text} (h : startsWithWord word t = true) :
    word.length ≤ t.length ∧
      (t.take word.length).map Text.lowerByte = word.map Text.lowerByte := by
  simpa only [startsWithWord, Bool.and_eq_true, decide_eq_true_eq, Text.equalIgnoringCase,
    beq_iff_eq] using h

theorem startsWithWord_bytes {word t : Text} (h : startsWithWord word t = true) :
    word.length ≤ t.length ∧
      ∀ b ∈ t.take word.length, ∃ c ∈ word, Text.lowerByte b = Text.lowerByte c := by
  obtain ⟨hle, hmap⟩ := map_lowerByte_of_startsWithWord h
  refine ⟨hle, fun b hb => ?_⟩
  have hmem : Text.lowerByte b ∈ word.map Text.lowerByte := by
    rw [← hmap]
    exact List.mem_map_of_mem hb
  obtain ⟨c, hc, heq⟩ := List.mem_map.mp hmem
  exact ⟨c, hc, heq.symm⟩

theorem closer?_lowerByte (b : UInt8) : closer? (Text.lowerByte b) = closer? b := by
  grind [closer?, Text.lowerByte]

theorem Rewriting.copies_word (hR : Rewriting R) {word t : Text}
    (h : startsWithWord word t = true) (hw : ∀ c ∈ word, closer? c = none) :
    Copies R word.length t := by
  obtain ⟨hle, hbytes⟩ := startsWithWord_bytes h
  refine hR.copies_plain hle fun b hb => ?_
  obtain ⟨c, hc, heq⟩ := hbytes b hb
  rw [← closer?_lowerByte, heq, closer?_lowerByte, hw c hc]

theorem lengthToEnd_skip (depth : Nat) {k : Nat} {t : Text} (hk : k ≤ t.length)
    (before : Option UInt8) : ∃ before', lengthToEnd depth k before t =
      k + lengthToEnd depth 0 before' (t.drop k) := by
  induction t generalizing k before with
  | nil =>
    obtain rfl : k = 0 := by simpa using hk
    exact ⟨before, by simp⟩
  | cons b t ih =>
    cases k with
    | zero => exact ⟨before, by simp⟩
    | succ k =>
      obtain ⟨before', h⟩ := ih (by simpa using hk) (some b)
      exact ⟨before', by rw [lengthToEnd, h, List.drop_succ_cons]; omega⟩

theorem keywordAt_startsWithWord {word t : Text} {before : Option UInt8}
    (h : keywordAt word before t = true) : startsWithWord word t = true := by
  simp only [keywordAt, Bool.and_eq_true] at h
  exact h.1.1

theorem closer?_of_quotedLength {b : UInt8} {t : Text} (h : quotedLength (b :: t) = 0) :
    closer? b = none := by
  simp only [quotedLength] at h
  split at h
  · omega
  · assumption

/-- A `CASE` expression is copied whole. -/
theorem Rewriting.copies_lengthToEnd (hR : Rewriting R) (depth : Nat) (before : Option UInt8)
    (t : Text) : Copies R (lengthToEnd depth 0 before t) t := by
  induction hn : t.length using Nat.strongRecOn generalizing depth before t with
  | ind n ih =>
    cases t with
    | nil => exact copies_zero []
    | cons b rest =>
      -- what follows the first `k + 1` bytes is shorter
      have step : ∀ (k depth : Nat), k ≤ rest.length → Copies R (k + 1) (b :: rest) →
          Copies R (lengthToEnd depth k (some b) rest + 1) (b :: rest) := by
        intro k depth hk hcopy
        obtain ⟨before', h⟩ := lengthToEnd_skip depth hk (some b)
        rw [h, show k + lengthToEnd depth 0 before' (rest.drop k) + 1 =
          k + 1 + lengthToEnd depth 0 before' (rest.drop k) by omega]
        refine hcopy.add ?_
        rw [List.drop_succ_cons]
        exact ih _ (by rw [← hn, List.length_drop, List.length_cons]; omega) depth before' _ rfl
      rw [lengthToEnd]
      split
      · rename_i k hk
        have hle := quotedLength_le (b :: rest)
        simp only [hk, List.length_cons] at hle
        exact step k depth (by omega) (hR.copies_quoted hk)
      · rename_i hq
        have hb := closer?_of_quotedLength hq
        split
        · rename_i hcase
          have hw := keywordAt_startsWithWord hcase
          have hle := (startsWithWord_bytes hw).1
          have hlen : (Text.ofString "CASE").length = 4 := by decide
          simp only [hlen, List.length_cons] at hle
          exact step 3 (depth + 1) (by omega)
            (hR.copies_word hw (List.all_iff_forall_prop.mp (by decide)))
        · split
          · rename_i hend
            have hw := keywordAt_startsWithWord hend
            have hle := (startsWithWord_bytes hw).1
            have hlen : (Text.ofString "END").length = 3 := by decide
            simp only [hlen, List.length_cons] at hle
            have hcopy : Copies R 3 (b :: rest) :=
              hR.copies_word hw (List.all_iff_forall_prop.mp (by decide))
            split
            · exact hcopy
            · exact step 2 (depth - 1) (by omega) hcopy
          · exact step 0 depth (by omega) (hR.copies_plain (by simp) (by simpa using hb))

theorem Rewriting.copies_caseLength (hR : Rewriting R) (before : Option UInt8) (t : Text) :
    Copies R (caseLength before t) t := by
  unfold caseLength
  split
  · rename_i hcase
    have hw := keywordAt_startsWithWord hcase
    obtain ⟨hle, -⟩ := startsWithWord_bytes hw
    obtain ⟨before', h⟩ := lengthToEnd_skip 1 hle before
    have hcopy : Copies R 4 t := hR.copies_word hw (List.all_iff_forall_prop.mp (by decide))
    have h' : lengthToEnd 1 4 before t = 4 + lengthToEnd 1 0 before' (t.drop 4) := h
    rw [h']
    exact hcopy.add (hR.copies_lengthToEnd 1 before' _)
  · exact copies_zero t

/-! ### Negating -/

/-- What a step of negation reads is copied, or it is a token and its complement is written. -/
theorem Rewriting.negationStep_cases (hR : Rewriting R) (before : Option UInt8) (b : UInt8)
    (rest : Text) :
    (∃ n, negationStep before (b :: rest) = (n + 1, (b :: rest).take (n + 1)) ∧
      Copies R (n + 1) (b :: rest)) ∨
    ∃ x ∈ negations, negationStep before (b :: rest) = (x.1.length, x.2) ∧
      startsWithWord x.1 (b :: rest) = true := by
  unfold negationStep
  split
  · rename_i n hn
    exact .inl ⟨n, rfl, hR.copies_quoted hn⟩
  · rename_i hq
    split
    · rename_i n hn
      have hcopy := hR.copies_caseLength before (b :: rest)
      rw [hn] at hcopy
      exact .inl ⟨n, rfl, hcopy⟩
    · split
      · rename_i token complement hx
        exact .inr ⟨(token, complement), List.mem_of_find?_eq_some hx, rfl,
          by simpa using List.find?_some hx⟩
      · have hb := closer?_of_quotedLength hq
        exact .inl ⟨0, rfl, hR.copies_plain (by simp) (by simpa using hb)⟩

theorem negateFrom_skip (k : Nat) (before : Option UInt8) (t : Text) :
    ∃ before', negateFrom k before t = negateFrom 0 before' (t.drop k) := by
  induction t generalizing k before with
  | nil => exact ⟨before, by simp [negateFrom]⟩
  | cons b t ih =>
    cases k with
    | zero => exact ⟨before, rfl⟩
    | succ k => exact ih k (some b)

theorem Rewriting.negateFrom (hR : Rewriting R) (before : Option UInt8) (t : Text) :
    R t (negateFrom 0 before t) := by
  induction hn : t.length using Nat.strongRecOn generalizing before t with
  | ind n ih =>
    cases t with
    | nil => exact hR.nil
    | cons b rest =>
      rw [Sql.negateFrom]
      rcases hR.negationStep_cases before b rest with ⟨k, hstep, hcopy⟩ | ⟨x, hx, hstep, hword⟩
      · rw [hstep]
        obtain ⟨before', h⟩ := negateFrom_skip k (some b) rest
        simp only [Nat.add_sub_cancel, h]
        exact hcopy _ (ih _ (by rw [← hn, List.length_drop, List.length_cons]; omega) before' _ rfl)
      · have hlen : ∀ x ∈ negations, x.1.length ≠ 0 := by decide
        obtain ⟨k, hk⟩ := Nat.exists_eq_succ_of_ne_zero (hlen x hx)
        obtain ⟨before', h⟩ := negateFrom_skip k (some b) rest
        have hmap := (map_lowerByte_of_startsWithWord hword).2
        have hrest := ih _ (by rw [← hn, List.length_drop, List.length_cons]; omega) before'
          (rest.drop k) rfl
        have htoken := hR.token hx hmap hrest
        rw [hstep, hk]
        simp only [Nat.succ_eq_add_one, Nat.add_sub_cancel, h]
        rw [hk, Nat.succ_eq_add_one, List.take_succ_cons, List.cons_append,
          List.take_append_drop] at htoken
        exact htoken

/-- **Such a relation holds between a text and its negation.** -/
theorem Rewriting.negate (hR : Rewriting R) (t : Text) : R t (negate t) := hR.negateFrom none t

end QueryTree.Sql
