import QueryTree.Proofs.Characters
import QueryTree.Text.Class

/-!
# Numerals

The decimal text of a number reads back as the number, so different numbers have different texts.
Appending a numeral to a text is compatible with lower case: no digit has a case, and no digit
completes a character whose last bytes are missing.

## Main results

* `Text.toNat?_ofNat`, `Text.ofNat_injective`
* `Text.toLower_append_digits`
-/

namespace QueryTree.Text

/-! ### Reading back -/

theorem toNat_byte_of_isDigit {c : Char} (h : c.isDigit = true) : (byte c).toNat = c.toNat := by
  have hc : c.toNat ≤ 57 := by
    simp only [Char.isDigit, Bool.and_eq_true, decide_eq_true_eq] at h
    exact h.2
  exact UInt8.toNat_ofNat_of_lt' (Nat.lt_of_le_of_lt hc (by decide))

theorem foldl_map_byte {cs : List Char} (h : ∀ c ∈ cs, c.isDigit = true) (n : Nat) :
    (cs.map fun c => byte c).foldl (fun n b => 10 * n + (b.toNat - 48)) n =
      Nat.ofDigitChars 10 cs n := by
  induction cs generalizing n with
  | nil => rfl
  | cons c cs ih =>
    rw [List.map_cons, List.foldl_cons, toNat_byte_of_isDigit (h c (by simp)),
      ih fun d hd => h d (by simp [hd])]
    rfl

/-- **A numeral reads back as its number.** -/
theorem toNat?_ofNat (n : Nat) : toNat? (ofNat n) = some n := by
  have hdigits : ∀ c ∈ Nat.toDigits 10 n, c.isDigit = true := fun c hc =>
    Nat.isDigit_of_mem_toDigits (by decide) (by decide) hc
  have hall := all_isDigitByte_ofNat n
  have hne : (ofNat n).isEmpty = false := by simp [ofNat_ne_nil]
  simp only [toNat?, hall, hne, Bool.not_true, Bool.or_self, Bool.false_eq_true, if_false]
  rw [ofNat, foldl_map_byte hdigits, Nat.ofDigitChars_toDigits (by decide) (by decide)]

theorem ofNat_injective {n m : Nat} (h : ofNat n = ofNat m) : n = m := by
  have hread := toNat?_ofNat n
  rw [h, toNat?_ofNat] at hread
  exact (Option.some.inj hread).symm

/-! ### Lower case -/

theorem digit_facts {b : UInt8} (h : isDigitByte b = true) :
    b < 0x80 ∧ lowerByte b = b ∧ isContinuation b = false ∧
      ofChar (CharClass.lower (Char.ofNat b.toNat)) = [b] := by
  have hall : ∀ b : UInt8, (!isDigitByte b || (decide (b < 0x80) && lowerByte b == b &&
      !isContinuation b && ofChar (CharClass.lower (Char.ofNat b.toNat)) == [b])) = true :=
    forall_byte (by decide)
  simpa [h, and_assoc] using hall b

/-- A character that is cut off is not completed by digits. -/
theorem leadingChar?_append_digits {u : Text} (hu : u.all isDigitByte = true) (b : UInt8)
    (t : Text) : leadingChar? b (t ++ u) = leadingChar? b t :=
  leadingChar?_append (fun x hx => (digit_facts (List.all_eq_true.mp hu x hx)).2.2.1) b t

theorem runesFrom_digits {u : Text} (hu : u.all isDigitByte = true) :
    runesFrom 0 u = u.map fun b => Rune.char (Char.ofNat b.toNat) := by
  induction u with
  | nil => rfl
  | cons b u ih =>
    rw [List.all_cons, Bool.and_eq_true] at hu
    have hb := (digit_facts hu.1).1
    rw [runesFrom]
    simp only [leadingChar?, hb, if_true, List.map_cons, ih hu.2]

theorem runesFrom_append_digits {u : Text} (hu : u.all isDigitByte = true) {k : Nat} {t : Text}
    (hk : k ≤ t.length) : runesFrom k (t ++ u) = runesFrom k t ++ runesFrom 0 u := by
  fun_induction runesFrom k t with
  | case1 k =>
    obtain rfl : k = 0 := by simpa using hk
    rfl
  | case2 k b t ih => exact ih (by simpa using hk)
  | case3 b t c width hlead ih =>
    rw [List.cons_append, runesFrom, leadingChar?_append_digits hu, hlead]
    simp only [ih (leadingChar?_width_le hlead), List.cons_append]
  | case4 b t hlead ih =>
    rw [List.cons_append, runesFrom, leadingChar?_append_digits hu, hlead]
    simp only [ih (Nat.zero_le _), List.cons_append]

theorem mapChars_lower_append_digits {t u : Text} (hu : u.all isDigitByte = true) :
    (t ++ u).mapChars CharClass.lower = t.mapChars CharClass.lower ++ u := by
  have hdigits : u.flatMap (fun b => ofChar (CharClass.lower (Char.ofNat b.toNat))) = u := by
    induction u with
    | nil => rfl
    | cons b u ih =>
      rw [List.all_cons, Bool.and_eq_true] at hu
      rw [List.flatMap_cons, (digit_facts hu.1).2.2.2, ih hu.2, List.singleton_append]
  unfold mapChars chars runes ofChars
  rw [runesFrom_append_digits hu (Nat.zero_le _), runesFrom_digits hu]
  simp only [List.map_append, List.flatMap_append, List.map_map, List.flatMap_map]
  congr 1

/-- **A numeral is not changed by lower case**, wherever it stands behind a text. -/
theorem toLower_append_digits {u : Text} (hu : u.all isDigitByte = true) (t : Text) :
    toLower (t ++ u) = toLower t ++ u := by
  have hascii : isAscii u = true := List.all_eq_true.mpr fun b hb =>
    decide_eq_true (digit_facts (List.all_eq_true.mp hu b hb)).1
  have hlower : u.map lowerByte = u := by
    refine (List.map_congr_left fun b hb => ?_).trans (List.map_id u)
    exact (digit_facts (List.all_eq_true.mp hu b hb)).2.1
  have happend : isAscii (t ++ u) = isAscii t := by
    unfold isAscii at hascii ⊢
    rw [List.all_append, hascii, Bool.and_true]
  unfold toLower
  rw [happend]
  split
  · rw [List.map_append, hlower]
  · exact mapChars_lower_append_digits hu

end QueryTree.Text
