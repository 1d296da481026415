import QueryTree.Compile.Raw
import QueryTree.Proofs.Numerals
import QueryTree.Shell.Literal

/-!
# What written tokens stand for

A quoted text stands for the text, a numeral for its number, and a reference, which begins like a
name and holds a point, for no value at all. Words are compared in lower case, and lower case may
turn other characters into ASCII letters, so that a token is not a word is shown by a byte that
keeps its place: a quote or digit at the front, or the point of a reference.

## Main definitions

* `Token.quotedText`: a text in single quotes

## Main results

* `Text.toLower_append`: lower case of a text with an ASCII front
* `Token.value?_quotedText`, `Token.value?_ofNat`
* `Token.value?_reference`
-/

namespace QueryTree

namespace Text

/-! ### Lower case behind an ASCII front -/

theorem ofChar_lower_ascii {b : UInt8} (h : b < 0x80) :
    ofChar (CharClass.lower (Char.ofNat b.toNat)) = [lowerByte b] := by
  have hall : ∀ b : UInt8, (!decide (b < 0x80) ||
      ofChar (CharClass.lower (Char.ofNat b.toNat)) == [lowerByte b]) = true :=
    forall_byte (by decide)
  simpa [h] using hall b

theorem runes_append {u : Text} (hu : u.isAscii = true) (t : Text) :
    (u ++ t).runes = (u.map fun b => .char (Char.ofNat b.toNat)) ++ t.runes := by
  induction u with
  | nil => rfl
  | cons b u ih =>
    rw [isAscii, List.all_cons, Bool.and_eq_true, decide_eq_true_eq] at hu
    rw [runes, List.cons_append, runesFrom]
    simp only [leadingChar?, hu.1, if_true, List.map_cons, List.cons_append]
    exact congrArg _ (ih hu.2)

theorem ofChars_lower_ascii {u : Text} (hu : u.isAscii = true) :
    ofChars (u.map fun b => CharClass.lower (Char.ofNat b.toNat)) = u.map lowerByte := by
  induction u with
  | nil => rfl
  | cons b u ih =>
    rw [isAscii, List.all_cons, Bool.and_eq_true, decide_eq_true_eq] at hu
    rw [List.map_cons, ofChars, List.flatMap_cons, ofChar_lower_ascii hu.1, List.map_cons]
    exact congrArg _ (ih hu.2)

/-- Lower case of a text with an ASCII front. -/
theorem toLower_append {u : Text} (hu : u.isAscii = true) (t : Text) :
    toLower (u ++ t) = u.map lowerByte ++ toLower t := by
  have happend : isAscii (u ++ t) = isAscii t := by
    unfold isAscii at hu ⊢
    rw [List.all_append, hu, Bool.true_and]
  unfold toLower
  rw [happend]
  split
  · exact List.map_append
  · unfold mapChars chars
    rw [runes_append hu, List.map_append, List.map_append, ofChars, List.flatMap_append,
      ← ofChars_lower_ascii hu, List.map_map, List.map_map]
    rfl

/-- A byte at the front that is no letter keeps its place in lower case. -/
theorem toLower_cons {b : UInt8} (hb : b < 0x80) (t : Text) :
    toLower (b :: t) = lowerByte b :: toLower t :=
  toLower_append (u := [b]) (by simpa [isAscii] using hb) t

theorem undouble_double (b : UInt8) (t : Text) : undouble b (double b t) = t := by
  induction t with
  | nil => rfl
  | cons c t ih =>
    rw [double]
    split
    · rename_i hc
      subst hc
      rw [undouble, if_pos ⟨rfl, rfl⟩, ih]
    · rename_i hc
      cases hd : double b t with
      | nil =>
        rw [hd] at ih
        rw [undouble, ← ih, undouble]
      | cons d u => rw [undouble, if_neg fun h => hc h.1, ← hd, ih]

end Text

/-! ### Names are no numbers -/

theorem toNat?_of_not_digit {b : UInt8} (h : Text.isDigitByte b = false) (t : Text) :
    Text.toNat? (b :: t) = none := by
  simp [Text.toNat?, h]

/-- What a name begins with is neither a sign nor a digit. -/
theorem nameStart_facts {b : UInt8} (h : (Text.isLetterByte b || b == byte '_') = true) :
    b < 0x80 ∧ b ≠ byte '-' ∧ b ≠ byte '+' ∧ b ≠ byte '0' ∧ b ≠ byte '.' ∧
      b ≠ Shell.Token.quote ∧ Text.isDigitByte b = false ∧
      (b = byte '_' ∨ (Text.hexValue? b).filter (· < 10) = none) := by
  have hall : ∀ b : UInt8, (!(Text.isLetterByte b || b == byte '_') ||
      (decide (b < 0x80) && b != byte '-' && b != byte '+' && b != byte '0' && b != byte '.' &&
        b != Shell.Token.quote && !Text.isDigitByte b &&
        (b == byte '_' || ((Text.hexValue? b).filter (· < 10)).isNone))) = true :=
    Text.forall_byte (by decide)
  have hb := hall b
  simp only [h, Bool.not_true, Bool.false_or, Bool.and_eq_true, Bool.or_eq_true, bne_iff_ne,
    beq_iff_eq, Bool.not_eq_true', decide_eq_true_eq, Option.isNone_iff_eq_none] at hb
  simpa only [and_assoc] using hb

/-- Nothing is read of a number that begins neither with a digit nor with a point, or whose
underscores stand where they may not. -/
theorem readUnsigned?_of_front {b : UInt8} {t : Text} (hzero : b ≠ byte '0')
    (hpoint : b ≠ byte '.') (hhex : b = byte '_' ∨ (Text.hexValue? b).filter (· < 10) = none) :
    Decimal.readUnsigned? (b :: t) = none := by
  have hzero' : decide (b = byte '0') = false := decide_eq_false hzero
  have hseen : (!(Decimal.readMantissa 10 ⟨0, 0, false, false⟩ (b :: t)).1.digitSeen ||
      ((b :: t).any (· == byte '_') && !Decimal.underscoresOk (b :: t))) = true := by
    by_cases hunder : b = byte '_'
    · -- an underscore at the front stands behind no digit
      subst hunder
      have hfit : Decimal.underscoresFit false '^' (byte '_' :: t) = false := by
        rw [Decimal.underscoresFit, if_neg (by decide), if_pos rfl]
        rfl
      have hok : Decimal.underscoresOk (byte '_' :: t) = false := by
        rcases t with _ | ⟨c, t⟩
        · exact hfit
        · simp only [Decimal.underscoresOk, hzero', Bool.false_and, Bool.false_eq_true, if_false]
          exact hfit
      rw [hok, List.any_cons]
      simp
    · have hmantissa : Decimal.readMantissa 10 ⟨0, 0, false, false⟩ (b :: t) =
          (⟨0, 0, false, false⟩, b :: t) := by
        rw [Decimal.readMantissa, if_neg hunder, if_neg hpoint, hhex.resolve_left hunder]
      rw [hmantissa]
      rfl
  unfold Decimal.readUnsigned?
  rcases t with _ | ⟨c, _ | ⟨d, t⟩⟩
  all_goals
    simp only [hzero', Bool.false_and, Bool.false_eq_true, if_false, hseen, if_true]

/-- A text that begins like no number and is not the name of a special value denotes no number. -/
theorem Double.read?_of_front {b : UInt8} {t : Text} (hminus : b ≠ byte '-')
    (hplus : b ≠ byte '+') (hread : Decimal.readUnsigned? (b :: t) = none)
    (hname : ∀ w ∈ (["inf", "infinity", "nan"] : List Text), (b :: t).map Text.lowerByte ≠ w) :
    Double.read? (b :: t) = none := by
  have hinf := hname "inf" (by simp)
  have hinfinity := hname "infinity" (by simp)
  have hnan := hname "nan" (by simp)
  unfold Double.read?
  simp only [hminus, hplus, if_false, hinf, hinfinity, hnan, hread, decide_false, Bool.or_self,
    Bool.false_and, Bool.false_eq_true]
  rfl

namespace Shell.Token

/-! ### Words of the language -/

/-- The words that tokens are compared with in lower case. -/
def words : List Text :=
  ["true", "false", "null", "not", "is", "like", "in", "and", "or"]

/-- A token that begins with an ASCII byte other than a letter is no word. -/
theorem toLower_not_mem_words {b : UInt8} (hb : b < 0x80) (hletter : Text.isLetterByte b = false)
    (t : Text) : Text.toLower (b :: t) ∉ words := by
  intro h
  have hwords : ∀ w ∈ words, w.head?.all Text.isLetterByte = true := by decide
  have hfront := hwords _ h
  rw [Text.toLower_cons hb, List.head?_cons, Option.all_some, Text.isLetterByte_lowerByte,
    hletter] at hfront
  cases hfront

/-- A token with a point behind an ASCII front is no word. -/
theorem toLower_not_mem_words_of_point {u : Text} (hu : u.isAscii = true) (t : Text) :
    Text.toLower (u ++ byte '.' :: t) ∉ words := by
  intro h
  have hwords : ∀ w ∈ words, byte '.' ∉ w := by decide
  refine hwords _ h ?_
  rw [Text.toLower_append hu, Text.toLower_cons (by decide)]
  exact List.mem_append_right _ List.mem_cons_self

/-- The value of a token that is no word. -/
theorem value?_of_not_mem_words {t : Token} (h : Text.toLower t ∉ words) :
    value? t = match unquoted? t with
      | some s => some (.string s)
      | none => number? t := by
  have hne : ∀ w ∈ words, Text.toLower t ≠ w := fun w hw heq => h (heq ▸ hw)
  exact (if_neg (hne "true" (by simp [words]))).trans
    ((if_neg (hne "false" (by simp [words]))).trans (if_neg (hne "null" (by simp [words]))))

/-! ### Quoted texts, numerals and references -/

/-- A text in single quotes. -/
def quotedText (t : Text) : Token := quote :: (t.double quote ++ [quote])

theorem unquoted?_quotedText (t : Text) : unquoted? (quotedText t) = some t := by
  have hlast : (quotedText t).getLast? = some quote := by
    rw [quotedText, ← List.cons_append, List.getLast?_append]
    rfl
  have hinner : ((quotedText t).drop 1).dropLast = t.double quote := by
    rw [quotedText, List.drop_one, List.tail_cons, List.dropLast_concat]
  have hlength : 2 ≤ (quotedText t).length := by
    simp [quotedText]
  simp only [unquoted?, hlast, hinner, hlength, Text.undouble_double]
  rfl

theorem unquoted?_of_front {b : UInt8} (h : b ≠ quote) (t : Text) : unquoted? (b :: t) = none := by
  simp [unquoted?, h]

/-- A quoted text stands for the text. -/
theorem value?_quotedText (t : Text) : value? (quotedText t) = some (.string t) := by
  have hword : Text.toLower (quotedText t) ∉ words :=
    toLower_not_mem_words (by decide) (by decide) _
  rw [value?_of_not_mem_words hword, unquoted?_quotedText]

theorem digit_front {b : UInt8} (h : Text.isDigitByte b = true) : b < 0x80 ∧ b ≠ quote ∧
    b ≠ byte '-' ∧ b ≠ byte '+' ∧ b ≠ byte '(' ∧ Text.isLetterByte b = false := by
  grind [Text.isLetterByte, Text.isDigitByte, quote]

/-- A numeral begins with a digit. -/
theorem exists_ofNat_eq_cons (n : Nat) :
    ∃ b t, Text.ofNat n = b :: t ∧ Text.isDigitByte b = true := by
  obtain ⟨b, t, ht⟩ := List.exists_cons_of_ne_nil (Text.ofNat_ne_nil n)
  have hdigits := Text.all_isDigitByte_ofNat n
  rw [ht, List.all_cons, Bool.and_eq_true] at hdigits
  exact ⟨b, t, ht, hdigits.1⟩

theorem toLower_ofNat_not_mem_words (n : Nat) : Text.toLower (Text.ofNat n) ∉ words := by
  obtain ⟨b, t, ht, hb⟩ := exists_ofNat_eq_cons n
  obtain ⟨hascii, -, -, -, -, hletter⟩ := digit_front hb
  rw [ht]
  exact toLower_not_mem_words hascii hletter t

/-- A numeral stands for its number. -/
theorem value?_ofNat {n : Nat} (hn : n < Nat.pow 2 63) :
    value? (Text.ofNat n) = some (.int .int64 n) := by
  rw [value?_of_not_mem_words (toLower_ofNat_not_mem_words n)]
  have hread := Text.toNat?_ofNat n
  obtain ⟨b, t, ht, hb⟩ := exists_ofNat_eq_cons n
  obtain ⟨-, hquote, hminus, hplus, -⟩ := digit_front hb
  rw [ht] at hread ⊢
  have hfits :
      (decide (-(Nat.pow 2 63 : Int) ≤ n) && decide ((n : Int) < Nat.pow 2 63)) = true := by
    simp only [Bool.and_eq_true, decide_eq_true_eq]
    omega
  have hint : Text.toInt64? (b :: t) = some (n : Int) := by
    simp only [Text.toInt64?, Text.toInt?, hminus, hplus, if_false, hread]
    exact Option.filter_some_pos hfits
  simp only [unquoted?_of_front hquote, number?, hint]

theorem isAscii_of_isIdentifier {u : Text} (hu : Raw.isIdentifier u = true) :
    u.isAscii = true := by
  have hall : ∀ b : UInt8, (!(Text.isLetterByte b || Text.isDigitByte b || b == byte '_') ||
      decide (b < 0x80)) = true := by grind [Text.isLetterByte, Text.isDigitByte]
  cases u with
  | nil => cases hu
  | cons b v =>
    simp only [Raw.isIdentifier, Bool.and_eq_true, List.all_eq_true] at hu
    have hname : ∀ x ∈ b :: v,
        (Text.isLetterByte x || Text.isDigitByte x || x == byte '_') = true := by
      intro x hx
      rcases List.mem_cons.mp hx with rfl | hx
      · have := hu.1
        grind
      · exact hu.2 x hx
    refine List.all_eq_true.mpr fun x hx => ?_
    have hx' := hall x
    rwa [hname x hx, Bool.not_true, Bool.false_or] at hx'

/-- A reference stands for no value. -/
theorem value?_reference {u : Text} (hu : Raw.isIdentifier u = true) (t : Text) :
    value? (u ++ byte '.' :: t) = none := by
  obtain ⟨b, v, rfl⟩ : ∃ b v, u = b :: v := by
    cases u with
    | nil => cases hu
    | cons b v => exact ⟨b, v, rfl⟩
  have hascii := isAscii_of_isIdentifier hu
  rw [value?_of_not_mem_words (toLower_not_mem_words_of_point hascii t)]
  have hb : (Text.isLetterByte b || b == byte '_') = true := (Bool.and_eq_true_iff.mp hu).1
  obtain ⟨-, hminus, hplus, hzero, hfront, hquote, hdigit, hhex⟩ := nameStart_facts hb
  have hint : Text.toInt64? (b :: (v ++ byte '.' :: t)) = none := by
    simp only [Text.toInt64?, Text.toInt?, hminus, hplus, if_false, toNat?_of_not_digit hdigit]
    rfl
  have hpoint : ∀ w ∈ (["inf", "infinity", "nan"] : List Text), byte '.' ∉ w := by decide
  have hdouble : Double.read? (b :: (v ++ byte '.' :: t)) = none := by
    have hread := readUnsigned?_of_front (t := v ++ byte '.' :: t) hzero hfront hhex
    refine Double.read?_of_front hminus hplus hread fun w hw heq => hpoint w hw (heq ▸ ?_)
    exact List.mem_map.mpr ⟨byte '.', by simp, rfl⟩
  simp only [List.cons_append, unquoted?_of_front hquote, number?, hint, hdouble, Option.map_none]

end Shell.Token

end QueryTree
