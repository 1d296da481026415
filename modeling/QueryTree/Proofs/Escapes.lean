import Mathlib.Tactic.Ring
import QueryTree.Proofs.RawNames
import QueryTree.Proofs.Titles
import QueryTree.Text.Quoted

/-!
# Quoted texts read back

Quoting a text and reading the quoted text gives the text, whatever its bytes are. Runes lose
nothing, because a malformed byte is a rune of its own; and what stands for a rune between the
quotes is read as the bytes of that rune, whatever follows it.

## Main results

* `Text.ofRunes_runes`: a text is the bytes of its runes
* `Text.unquote?_quoted`: a quoted text reads back
* `Text.quoted_injective`: different texts are quoted differently
-/

namespace QueryTree.Text

/-! ### Runes -/

theorem ofRunes_runesFrom (k : Nat) (t : Text) : ofRunes (runesFrom k t) = t.drop k := by
  fun_induction runesFrom k t with
  | case1 => simp [ofRunes]
  | case2 k b rest ih => exact ih
  | case3 b rest c width hlead ih =>
    rw [ofRunes, List.flatMap_cons, ← ofRunes, ih, Rune.bytes, ofChar_of_leadingChar? hlead]
    exact congrArg (b :: ·) (List.take_append_drop width rest)
  | case4 b rest hlead ih =>
    rw [ofRunes, List.flatMap_cons, ← ofRunes, ih]
    rfl

/-- A text is the bytes of its runes. -/
theorem ofRunes_runes (t : Text) : ofRunes t.runes = t := ofRunes_runesFrom 0 t

/-! ### Numbers -/

theorem hexValue?_hexDigit : ∀ n < 16, hexValue? (hexDigit n) = some n := by decide

theorem length_hexPadded (width n : Nat) : (hexPadded width n).length = width := by
  simp [hexPadded]

/-- The digits of a number, from the highest. -/
def hexDigits (width n : Nat) : List Nat :=
  (List.range width).reverse.map fun i => n / 16 ^ i % 16

theorem mapM_hexValue? (width n : Nat) :
    (hexPadded width n).mapM hexValue? = some (hexDigits width n) := by
  rw [hexPadded, List.mapM_map, hexDigits]
  generalize (List.range width).reverse = is
  induction is with
  | nil => rfl
  | cons i is ih =>
    rw [List.mapM_cons, ih, Function.comp_apply, hexValue?_hexDigit _ (Nat.mod_lt _ (by decide))]
    rfl

/-- Digits are read behind those before them. -/
theorem foldl_hexDigits (width n start : Nat) :
    (hexDigits width n).foldl (fun m d => 16 * m + d) start =
      start * 16 ^ width + n % 16 ^ width := by
  induction width generalizing start with
  | zero => simp [hexDigits, Nat.mod_one]
  | succ k ih =>
    rw [hexDigits, List.range_succ, List.reverse_append, List.reverse_singleton,
      List.singleton_append, List.map_cons, List.foldl_cons, ← hexDigits, ih, Nat.mod_pow_succ]
    ring

theorem foldl_hexDigits_of_lt {width n : Nat} (h : n < 16 ^ width) :
    (hexDigits width n).foldl (fun m d => 16 * m + d) 0 = n := by
  rw [foldl_hexDigits, Nat.zero_mul, Nat.zero_add, Nat.mod_eq_of_lt h]

/-! ### Escapes -/

theorem unescape?_byte {n : Nat} (h : n < 256) (rest : Text) :
    unescape? (byte 'x' :: (hexPadded 2 n ++ rest)) = some ([n.toUInt8], rest) := by
  have hsize : n < 16 ^ 2 := h
  have htake : (hexPadded 2 n ++ rest).take 2 = hexPadded 2 n :=
    List.take_left' (length_hexPadded 2 n)
  have hdrop : (hexPadded 2 n ++ rest).drop 2 = rest := List.drop_left' (length_hexPadded 2 n)
  simp [unescape?, htake, hdrop, length_hexPadded, mapM_hexValue?, foldl_hexDigits_of_lt hsize]

/-- How a character is written by number. -/
theorem unescape?_number {letter : UInt8} {width : Nat} (c : Char)
    (hletter : letter = byte 'u' ∧ width = 4 ∨ letter = byte 'U' ∧ width = 8)
    (h : c.toNat < 16 ^ width) (rest : Text) :
    unescape? (letter :: (hexPadded width c.toNat ++ rest)) = some (ofChar c, rest) := by
  have hvalid : c.toNat < 0xd800 ∨ 0xdfff < c.toNat ∧ c.toNat < 0x110000 := c.valid
  have hin : c.toNat < 0x110000 ∧ (c.toNat < 0xd800 ∨ 0xe000 ≤ c.toNat) := by omega
  have htake : (hexPadded width c.toNat ++ rest).take width = hexPadded width c.toNat :=
    List.take_left' (length_hexPadded width _)
  have hdrop : (hexPadded width c.toNat ++ rest).drop width = rest :=
    List.drop_left' (length_hexPadded width _)
  rcases hletter with ⟨rfl, rfl⟩ | ⟨rfl, rfl⟩
  · simp [unescape?, htake, hdrop, length_hexPadded, mapM_hexValue?, foldl_hexDigits_of_lt h, hin]
  · simp [unescape?, htake, hdrop, length_hexPadded, mapM_hexValue?, foldl_hexDigits_of_lt h, hin]

/-! ### Quoted texts -/

theorem unquoteBody?_mono {fuel more : Nat} {t u : Text} (h : unquoteBody? fuel t = some u)
    (hle : fuel ≤ more) : unquoteBody? more t = some u := by
  induction fuel generalizing more t u with
  | zero => cases h
  | succ fuel ih =>
    obtain ⟨more, rfl⟩ : ∃ k, more = k + 1 := ⟨more - 1, by omega⟩
    have hle : fuel ≤ more := by omega
    cases t with
    | nil => cases h
    | cons b rest =>
      rw [unquoteBody?] at h ⊢
      split at h
      · rename_i hb
        rwa [if_pos hb]
      · rename_i hb
        rw [if_neg hb]
        split at h
        · cases h
        · rename_i hline
          rw [if_neg hline]
          split at h
          · rename_i hslash
            rw [if_pos hslash]
            obtain ⟨⟨x, rest'⟩, hx, h⟩ := Option.bind_eq_some_iff.mp h
            obtain ⟨y, hy, h⟩ := Option.bind_eq_some_iff.mp h
            exact Option.bind_eq_some_iff.mpr
              ⟨_, hx, Option.bind_eq_some_iff.mpr ⟨y, ih hy hle, h⟩⟩
          · rename_i hslash
            rw [if_neg hslash]
            obtain ⟨y, hy, h⟩ := Option.map_eq_some_iff.mp h
            exact Option.map_eq_some_iff.mpr ⟨y, ih hy hle, h⟩

/-- Bytes that stand for themselves. -/
theorem unquoteBody?_append {t rest u : Text} {fuel : Nat}
    (ht : ∀ b ∈ t, b ≠ byte '"' ∧ b ≠ 10 ∧ b ≠ byte '\\')
    (h : unquoteBody? fuel rest = some u) :
    unquoteBody? (fuel + t.length) (t ++ rest) = some (t ++ u) := by
  induction t with
  | nil => exact h
  | cons b t ih =>
    obtain ⟨hquote, hline, hslash⟩ := ht b List.mem_cons_self
    rw [List.length_cons, ← Nat.add_assoc, List.cons_append, unquoteBody?, if_neg hquote,
      if_neg hline, if_neg hslash, ih fun x hx => ht x (List.mem_cons_of_mem b hx)]
    rfl

/-- A byte sequence that is read after a backslash. -/
theorem unquoteBody?_escape {t rest u : Text} {shown : Text} {fuel : Nat}
    (ht : unescape? (t ++ rest) = some (shown, rest)) (h : unquoteBody? fuel rest = some u) :
    unquoteBody? (fuel + (byte '\\' :: t).length) (byte '\\' :: t ++ rest) = some (shown ++ u) := by
  have hmore := unquoteBody?_mono h (Nat.le_add_right fuel t.length)
  rw [List.length_cons, ← Nat.add_assoc, List.cons_append, unquoteBody?, if_neg (by decide),
    if_neg (by decide), if_pos rfl, ht]
  simp only [Option.bind_eq_bind, Option.bind_some, hmore]
  rfl

/-- A printable character has no byte of a line feed, and only the quote and the backslash have
theirs. -/
theorem plain_of_isPrint {c : Char} (hquote : c ≠ '"') (hslash : c ≠ '\\')
    (hprint : CharClass.isPrint c = true) {b : UInt8} (hb : b ∈ ofChar c) :
    b ≠ byte '"' ∧ b ≠ 10 ∧ b ≠ byte '\\' := by
  have hcode {n : UInt8} (hn : n < 0x80) (h : b = n) : c = Char.ofNat n.toNat := by
    rw [← toNat_of_mem_ofChar (h ▸ hb) hn, Char.ofNat_toNat]
  refine ⟨fun h => hquote (hcode (by decide) h), fun h => ?_, fun h => hslash (hcode (by decide) h)⟩
  rw [hcode (by decide) h] at hprint
  exact absurd hprint (by decide +kernel)

/-- A rune stands for itself between quotes or is an escape that reads as the rune. -/
theorem quotedRune_cases (r : Rune) :
    (quotedRune r = r.bytes ∧ ∀ b ∈ r.bytes, b ≠ byte '"' ∧ b ≠ 10 ∧ b ≠ byte '\\') ∨
    ∃ t, quotedRune r = byte '\\' :: t ∧
      ∀ rest, unescape? (t ++ rest) = some (r.bytes, rest) := by
  cases r with
  | stray b =>
    refine .inr ⟨byte 'x' :: hexPadded 2 b.toNat, rfl, fun rest => ?_⟩
    have hb := unescape?_byte b.toNat_lt rest
    rwa [show b.toNat.toUInt8 = b from UInt8.ofNat_toNat] at hb
  | char c =>
    have escape {n : Nat} (hn : c.toNat = n) : c = Char.ofNat n := by rw [← hn, Char.ofNat_toNat]
    rw [quotedRune, Rune.bytes]
    by_cases hquote : c = '"'
    · rw [if_pos hquote]
      exact .inr ⟨[byte '"'], rfl, fun rest => by rw [hquote]; rfl⟩
    rw [if_neg hquote]
    by_cases hslash : c = '\\'
    · rw [if_pos hslash]
      exact .inr ⟨[byte '\\'], rfl, fun rest => by rw [hslash]; rfl⟩
    rw [if_neg hslash]
    by_cases hprint : CharClass.isPrint c = true
    · rw [if_pos hprint]
      exact .inl ⟨rfl, fun b hb => plain_of_isPrint hquote hslash hprint hb⟩
    rw [if_neg hprint]
    by_cases h7 : c.toNat = 7
    · rw [if_pos h7]
      exact .inr ⟨[byte 'a'], rfl, fun rest => by rw [escape h7]; rfl⟩
    rw [if_neg h7]
    by_cases h8 : c.toNat = 8
    · rw [if_pos h8]
      exact .inr ⟨[byte 'b'], rfl, fun rest => by rw [escape h8]; rfl⟩
    rw [if_neg h8]
    by_cases h12 : c.toNat = 12
    · rw [if_pos h12]
      exact .inr ⟨[byte 'f'], rfl, fun rest => by rw [escape h12]; rfl⟩
    rw [if_neg h12]
    by_cases h10 : c.toNat = 10
    · rw [if_pos h10]
      exact .inr ⟨[byte 'n'], rfl, fun rest => by rw [escape h10]; rfl⟩
    rw [if_neg h10]
    by_cases h13 : c.toNat = 13
    · rw [if_pos h13]
      exact .inr ⟨[byte 'r'], rfl, fun rest => by rw [escape h13]; rfl⟩
    rw [if_neg h13]
    by_cases h9 : c.toNat = 9
    · rw [if_pos h9]
      exact .inr ⟨[byte 't'], rfl, fun rest => by rw [escape h9]; rfl⟩
    rw [if_neg h9]
    by_cases h11 : c.toNat = 11
    · rw [if_pos h11]
      exact .inr ⟨[byte 'v'], rfl, fun rest => by rw [escape h11]; rfl⟩
    rw [if_neg h11]
    by_cases hcontrol : (decide (c.toNat < 32) || decide (c.toNat = 127)) = true
    · rw [if_pos hcontrol]
      have hlt : c.toNat < 128 := by
        simp only [Bool.or_eq_true, decide_eq_true_eq] at hcontrol
        omega
      have hbytes : ofChar c = [c.toNat.toUInt8] := by
        have hone := ofChar_one hlt
        rwa [Char.ofNat_toNat] at hone
      rw [hbytes]
      exact .inr ⟨byte 'x' :: hexPadded 2 c.toNat, rfl, unescape?_byte (by omega)⟩
    rw [if_neg hcontrol]
    by_cases hfour : c.toNat < 0x10000
    · rw [if_pos hfour]
      exact .inr ⟨byte 'u' :: hexPadded 4 c.toNat, rfl,
        unescape?_number c (.inl ⟨rfl, rfl⟩) hfour⟩
    · rw [if_neg hfour]
      have hvalid : c.toNat < 0xd800 ∨ 0xdfff < c.toNat ∧ c.toNat < 0x110000 := c.valid
      exact .inr ⟨byte 'U' :: hexPadded 8 c.toNat, rfl,
        unescape?_number c (.inr ⟨rfl, rfl⟩) (by omega)⟩

/-- What stands for a rune is read as the bytes of the rune. -/
theorem unquoteBody?_quotedRune (r : Rune) {rest u : Text} {fuel : Nat}
    (h : unquoteBody? fuel rest = some u) :
    unquoteBody? (fuel + (quotedRune r).length) (quotedRune r ++ rest) = some (r.bytes ++ u) := by
  rcases quotedRune_cases r with ⟨hself, hplain⟩ | ⟨t, hescape, hread⟩
  · rw [hself]
    exact unquoteBody?_append hplain h
  · rw [hescape]
    exact unquoteBody?_escape (hread rest) h

theorem unquoteBody?_quotedRunes (rs : List Rune) :
    unquoteBody? ((rs.flatMap quotedRune).length + 1) (rs.flatMap quotedRune ++ "\"") =
      some (ofRunes rs) := by
  induction rs with
  | nil => rfl
  | cons r rs ih =>
    have hrune := unquoteBody?_quotedRune r ih
    rwa [← List.append_assoc, Nat.add_right_comm, Nat.add_comm _ (quotedRune r).length,
      ← List.length_append] at hrune

/-- **A quoted text reads back.** -/
theorem unquote?_quoted (t : Text) : unquote? t.quoted = some t := by
  have hbody := unquoteBody?_quotedRunes t.runes
  rw [ofRunes_runes] at hbody
  refine unquoteBody?_mono hbody ?_
  simp

/-- Different texts are quoted differently. -/
theorem quoted_injective : Function.Injective quoted :=
  fun t u h => Option.some.inj (by rw [← unquote?_quoted t, h, unquote?_quoted])

end QueryTree.Text
