import QueryTree.Dialect.Profile
import QueryTree.Text.Number

/-!
# Quoted segments inside a text

Scanners step over quoted segments. What stands behind a segment matters to them only at one point:
a closing byte right behind the closing byte would be read as a doubled one. `Sql.Fresh` says that a
text does not continue what stands before it in this way, nor a number.

## Main definitions

* `Sql.isFreshByte`, `Sql.Fresh`

## Main results

* `Sql.quotedLength_quoteIdent`: a quoted name is one segment
* `Sql.quotedLength_append_cons`: a segment ends where it ends whatever follows the next byte
* `Text.all_isDigitByte_ofNat`, `Text.ofNat_ne_nil`: the text of a number
-/

namespace QueryTree

/-- What a test finds of the numbers below 256, sixteen by sixteen, holds of every byte. -/
theorem Text.forall_byte {f : UInt8 → Bool}
    (h : ((List.range 16).all fun i => (List.range 16).all fun j => f (16 * i + j).toUInt8) = true)
    (b : UInt8) : f b = true := by
  have hb : b.toNat < 256 := b.toNat_lt
  have hi := List.all_eq_true.mp h (b.toNat / 16) (List.mem_range.mpr (by omega))
  have hj := List.all_eq_true.mp hi (b.toNat % 16) (List.mem_range.mpr (by omega))
  simpa only [Nat.div_add_mod, UInt8.ofNat_toNat, Nat.toUInt8] using hj

/-- A test that fails at some bytes finds none of them. -/
theorem Text.not_mem_of_test {f : UInt8 → Bool} {l : List UInt8}
    (hf : l.all (fun b => !f b) = true) {b : UInt8} (hb : f b = true) : b ∉ l := by
  intro hmem
  have hno := List.all_eq_true.mp hf b hmem
  rw [hb] at hno
  cases hno

/-! ### The case of letters -/

theorem Text.isLetterByte_lowerByte (b : UInt8) :
    Text.isLetterByte (Text.lowerByte b) = Text.isLetterByte b := by
  grind [Text.isLetterByte, Text.lowerByte]

theorem Text.lowerByte_of_not_letter {b : UInt8} (h : Text.isLetterByte b = false) :
    Text.lowerByte b = b := by
  simp only [Text.isLetterByte, Bool.or_eq_false_iff] at h
  rw [Text.lowerByte, h.1]
  rfl

/-- A byte that is no letter is the lower case of itself only. -/
theorem Text.lowerByte_eq_iff {b p : UInt8} (hp : Text.isLetterByte p = false) :
    Text.lowerByte b = p ↔ b = p := by
  constructor
  · rintro rfl
    rw [isLetterByte_lowerByte] at hp
    exact (lowerByte_of_not_letter hp).symm
  · rintro rfl
    exact lowerByte_of_not_letter hp

namespace Sql

/-- The bytes that open a quoted segment. -/
def openers : List UInt8 := [39, byte '"', 96, byte '[']

theorem closer?_eq_none_iff {b : UInt8} : closer? b = none ↔ b ∉ openers := by
  simp only [openers, List.mem_cons, List.not_mem_nil, or_false, not_or]
  grind [closer?]

/-- Whether a byte continues neither a number nor a quoted segment. -/
def isFreshByte (b : UInt8) : Bool :=
  !(Text.isDigitByte b || b == 39 || b == byte '"' || b == 96 || b == byte ']')

/-- The text does not begin with a byte that would continue what stands before it. -/
def Fresh (t : Text) : Prop := ∀ b ∈ t.head?, isFreshByte b = true

theorem fresh_nil : Fresh [] := nofun

theorem fresh_cons {b : UInt8} {t : Text} : Fresh (b :: t) ↔ isFreshByte b = true := by
  simp [Fresh]

/-- The text begins with a byte, and that byte is fresh. -/
theorem Fresh.append_of_ne_nil {t : Text} (h : Fresh t) (hne : t ≠ []) (rest : Text) :
    Fresh (t ++ rest) := by
  cases t with
  | nil => exact absurd rfl hne
  | cons b t => exact h

/-! ### Names in quotes -/

theorem lengthToCloser_double {closer : UInt8} (t : Text) {rest : Text}
    (h : rest.head? ≠ some closer) :
    lengthToCloser closer (t.double closer ++ closer :: rest) = (t.double closer).length + 1 := by
  induction t with
  | nil =>
    cases rest with
    | nil => rfl
    | cons b rest =>
      have hb : b ≠ closer := by simpa using h
      simp [Text.double, lengthToCloser, hb]
  | cons b t ih =>
    simp only [Text.double]
    split
    · simp [lengthToCloser, ih]
    · rename_i hb
      -- the rest of the name is not empty, its closing byte is still to come
      obtain ⟨c, u, hu⟩ : ∃ c u, Text.double closer t ++ closer :: rest = c :: u :=
        List.exists_cons_of_ne_nil (by simp)
      simp only [List.cons_append, hu, lengthToCloser, hb, if_false, List.length_cons]
      rw [← hu, ih]

theorem quotedLength_enclose {opener closer : UInt8} (ho : closer? opener = some closer) (t : Text)
    {rest : Text} (h : rest.head? ≠ some closer) :
    quotedLength (enclose opener closer t ++ rest) = (enclose opener closer t).length := by
  simp only [enclose, List.cons_append, List.append_assoc, List.nil_append, quotedLength, ho]
  rw [lengthToCloser_double t h]
  simp

theorem Fresh.head?_ne {rest : Text} (h : Fresh rest) {closer : UInt8}
    (hc : isFreshByte closer = false) : rest.head? ≠ some closer := by
  intro hrest
  have := h closer hrest
  rw [hc] at this
  cases this

/-- A quoted name is one segment, unless what follows continues it. -/
theorem quotedLength_quoteIdent (d : Dialect) (name : Text) {rest : Text} (h : Fresh rest) :
    quotedLength (d.profile.quoteIdent name ++ rest) = (d.profile.quoteIdent name).length := by
  cases d <;> exact quotedLength_enclose (by decide) name (h.head?_ne (by decide))

theorem quoteIdent_ne_nil (d : Dialect) (name : Text) : d.profile.quoteIdent name ≠ [] := by
  cases d <;> nofun

/-! ### Segments that end -/

theorem lengthToCloser_append_cons {closer b : UInt8} {q u : Text} (u' : Text)
    (h : lengthToCloser closer (q ++ b :: u) = q.length) :
    lengthToCloser closer (q ++ b :: u') = q.length := by
  induction q using lengthToCloser.induct closer with
  | case1 =>
    rw [List.nil_append] at h
    cases u with
    | nil => simp [lengthToCloser] at h
    | cons c u =>
      simp only [lengthToCloser] at h
      split at h
      · split at h <;> simp at h
      · simp at h
  | case2 c =>
    simp only [List.singleton_append, lengthToCloser] at h ⊢
    split at h
    · split at h
      · simp at h
      · rename_i h₁ h₂
        simp [h₁, h₂]
    · cases u with
      | nil => simp [lengthToCloser] at h
      | cons d u =>
        simp only [lengthToCloser] at h
        split at h
        · split at h <;> simp at h
        · simp at h
  | case3 rest ih =>
    simp only [List.cons_append, lengthToCloser, if_true] at h ⊢
    simp only [List.length_cons] at h ⊢
    rw [ih (by omega)]
  | case4 c rest hc =>
    simp only [List.cons_append, lengthToCloser, if_true, hc, if_false, List.length_cons] at h
    omega
  | case5 c d rest hc ih =>
    simp only [List.cons_append, lengthToCloser, hc, if_false, List.length_cons] at h ⊢
    rw [List.cons_append, List.cons_append] at ih
    rw [ih (by simpa using h)]
    simp

/-- A quoted segment that is followed by a byte ends before it, whatever comes after that byte. -/
theorem quotedLength_append_cons {b : UInt8} {q u : Text} (u' : Text) (hq : q ≠ [])
    (h : quotedLength (q ++ b :: u) = q.length) : quotedLength (q ++ b :: u') = q.length := by
  obtain ⟨o, q, rfl⟩ := List.exists_cons_of_ne_nil hq
  simp only [List.cons_append, quotedLength] at h ⊢
  split at h
  · simp only [List.length_cons, Nat.add_right_cancel_iff] at h ⊢
    exact lengthToCloser_append_cons u' h
  · simp at h

theorem lengthToCloser_left {closer : UInt8} {q t : Text}
    (h : lengthToCloser closer (q ++ t) = q.length) : lengthToCloser closer q = q.length := by
  induction q using lengthToCloser.induct closer with
  | case1 => rfl
  | case2 c => rfl
  | case3 rest ih =>
    simp only [List.cons_append, lengthToCloser, if_true, List.length_cons] at h ⊢
    rw [ih (by omega)]
  | case4 c rest hc =>
    simp only [List.cons_append, lengthToCloser, if_true, hc, if_false, List.length_cons] at h
    omega
  | case5 c d rest hc ih =>
    simp only [List.cons_append, lengthToCloser, hc, if_false, List.length_cons] at h ⊢
    rw [List.cons_append] at ih
    rw [ih (by simpa using h)]
    simp

/-- A quoted segment ends where it did if the byte behind it is the same or there is none. -/
theorem quotedLength_congr {q t u : Text} (hq : q ≠ []) (h : quotedLength (q ++ t) = q.length)
    (hu : ∀ b ∈ u.head?, b ∈ t.head?) : quotedLength (q ++ u) = q.length := by
  cases u with
  | nil =>
    obtain ⟨o, q, rfl⟩ := List.exists_cons_of_ne_nil hq
    simp only [List.cons_append, List.append_nil, quotedLength] at h ⊢
    split at h
    · simp only [List.length_cons, Nat.add_right_cancel_iff] at h ⊢
      exact lengthToCloser_left h
    · simp at h
  | cons b u =>
    obtain ⟨t, rfl⟩ := List.head?_eq_some_iff.mp (hu b rfl)
    exact quotedLength_append_cons u hq h

end Sql

/-! ### Numbers -/

namespace Text

theorem all_isDigitByte_ofNat (n : Nat) : (ofNat n).all isDigitByte = true := by
  rw [ofNat, List.all_map, List.all_eq_true]
  intro c hc
  have hdigit : c.isDigit = true := Nat.isDigit_of_mem_toDigits (by decide) (by decide) hc
  simp only [Char.isDigit, Bool.and_eq_true, decide_eq_true_eq] at hdigit
  simp only [Function.comp_apply, isDigitByte, byte, Bool.and_eq_true, decide_eq_true_eq]
  have h₁ : 48 ≤ c.toNat := hdigit.1
  have h₂ : c.toNat ≤ 57 := hdigit.2
  constructor <;> rw [UInt8.le_iff_toNat_le] <;> simp <;> omega

theorem ofNat_ne_nil (n : Nat) : ofNat n ≠ [] := by
  simp [ofNat, Nat.toDigits_ne_nil]

end Text

end QueryTree
