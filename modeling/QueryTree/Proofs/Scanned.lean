import QueryTree.Proofs.Literals

/-!
# Tokens put side by side

Whether the scanner finds the tokens that a text was put together from depends on what follows each
of them. A word or a quoted text ends where a blank, a bracket or an operator follows, an operator
of one byte where it makes no operator of two bytes with the next, and all other tokens end by
themselves. So each kind of token has its lemma about a text that begins with it, for any rest.

## Main definitions

* `Token.isSeparator`: bytes that end words
* `Token.isWordByte`: bytes that stand in words only
* `Token.Ends`: what a word or a quoted text ends before

## Main results

* `Token.scan_word`, `Token.scan_quotedText`
* `Token.scan_blank`, `Token.scan_single`, `Token.scan_pair`
-/

namespace QueryTree.Shell.Token

/-- What is true of every operator of two bytes. -/
theorem of_pair {f : UInt8 × UInt8 → Bool} (hall : pairs.all f = true) {b c : UInt8}
    (h : pairs.contains (b, c) = true) : f (b, c) = true :=
  List.all_eq_true.mp hall _ (List.contains_iff_mem.mp h)

/-- Operators of two bytes hold neither quotes nor blanks. -/
theorem pair_facts {b c : UInt8} (h : pairs.contains (b, c) = true) :
    (b ≠ quote ∧ isBlankByte b = false) ∧ c ≠ quote ∧ isBlankByte c = false := by
  simpa [and_assoc] using of_pair (f := fun p =>
    p.1 != quote && !isBlankByte p.1 && (p.2 != quote && !isBlankByte p.2)) (by decide) h

/-- A token of one byte is neither a quote nor a blank. -/
theorem isSingle_facts {b : UInt8} (h : isSingle b = true) :
    b ≠ quote ∧ isBlankByte b = false := by
  have hall : (Text.ofString "(),=><+-*/%").all (fun b => b != quote && !isBlankByte b) = true := by
    decide
  simpa using List.all_eq_true.mp hall b (List.elem_iff.mp h)

/-- Whether the byte ends a word. -/
def isSeparator (b : UInt8) : Bool := b == quote || isSingle b || isBlankByte b

theorem isSeparator_of_pair {b c : UInt8} (h : pairs.contains (b, c) = true) :
    isSeparator c = true :=
  of_pair (f := fun p => isSeparator p.2) (by decide) h

/-- Whether a byte is part of a word, unless it stands in quotes. -/
def isWordByte (b : UInt8) : Bool :=
  !(b == quote || isSingle b || isBlankByte b || b == byte '!')

/-- The bytes that stand in no word. -/
def breakers : List UInt8 :=
  quote :: Text.ofString "(),=><+-*/%" ++ [byte ' ', byte '\t', byte '!']

theorem isWordByte_iff {b : UInt8} : isWordByte b = true ↔ b ∉ breakers := by
  simp only [isWordByte, isSingle, isBlankByte, breakers, List.cons_append, List.mem_cons,
    List.mem_append, List.not_mem_nil, or_false, not_or, Bool.not_eq_true', Bool.or_eq_false_iff,
    beq_eq_false_iff_ne, List.elem_eq_mem, decide_eq_false_iff_not, and_assoc]

/-- A word or a quoted text before this rest ends with it. -/
def Ends (rest : Text) : Prop := ∀ b ∈ rest.head?, (isSingle b || isBlankByte b) = true

theorem ends_nil : Ends [] := nofun

theorem ends_cons {b : UInt8} (h : (isSingle b || isBlankByte b) = true) (rest : Text) :
    Ends (b :: rest) := by
  rintro c hc
  cases hc
  exact h

theorem Ends.head_ne {b : UInt8} {rest : Text} (h : Ends (b :: rest)) : b ≠ quote := by
  rintro rfl
  exact absurd (h quote rfl) (by decide)

theorem not_mem_pairs_of_isWordByte {b : UInt8} (h : isWordByte b = true) (c : UInt8) :
    pairs.contains (b, c) = false := by
  refine Bool.eq_false_iff.mpr fun hpair => ?_
  have hb := of_pair (f := fun p => !isWordByte p.1) (by decide) hpair
  rw [h] at hb
  cases hb

/-! ### Words -/

-- The equations of the scanner, by which all proofs below go.
attribute [local grind =] scanFrom ended scan isSingle isBlankByte isWordByte

theorem ended_of_ne_nil {word : Text} (hne : word ≠ []) : ended word = [word] :=
  if_neg (by simpa using hne)

/-- A byte that ends no word is part of the word, unless it begins an operator. -/
theorem scanFrom_of_not_separator {b : UInt8} (hb : isSeparator b = false) {rest : Text}
    (hrest : ∀ c ∈ rest.head?, pairs.contains (b, c) = false) (word : Text) :
    scanFrom false word (b :: rest) = scanFrom false (word ++ [b]) rest := by
  simp only [isSeparator, Bool.or_eq_false_iff, beq_eq_false_iff_ne] at hb
  obtain ⟨⟨hquote, hsingle⟩, hblank⟩ := hb
  cases rest with
  | nil => simp [scanFrom, ended, hquote, hsingle, hblank]
  | cons c rest =>
    rw [scanFrom, if_neg hquote]
    simp only [hrest c rfl, hsingle, hblank, Bool.false_eq_true, if_false]

theorem scanFrom_wordByte {b : UInt8} (h : isWordByte b = true) (word rest : Text) :
    scanFrom false word (b :: rest) = scanFrom false (word ++ [b]) rest := by
  have hb : isSeparator b = false := by
    simp only [isWordByte, Bool.not_eq_true', Bool.or_eq_false_iff] at h
    simp only [isSeparator, h.1, Bool.or_self]
  exact scanFrom_of_not_separator hb (fun c _ => not_mem_pairs_of_isWordByte h c) word

/-- A word that has been read ends before the rest. -/
theorem scanFrom_ends {rest : Text} (h : Ends rest) (word : Text) :
    scanFrom false word rest = ended word ++ scan rest := by
  rcases rest with _ | ⟨b, _ | ⟨c, rest⟩⟩
  · simp [scan, scanFrom, ended]
  · have hb := h b rfl
    have hquote := h.head_ne
    by_cases hsingle : isSingle b = true
    · simp [scan, scanFrom, ended, hquote, hsingle]
    · have hblank : isBlankByte b = true := by simpa [hsingle] using hb
      simp [scan, scanFrom, ended, hquote, hsingle, hblank]
  · have hb := h b rfl
    have hnone : ended [] = [] := rfl
    rw [scan, scanFrom, scanFrom, if_neg h.head_ne, if_neg h.head_ne, hnone]
    by_cases hpair : pairs.contains (b, c) = true
    · rw [if_pos hpair, if_pos hpair, List.nil_append]
    · rw [if_neg hpair, if_neg hpair]
      by_cases hsingle : isSingle b = true
      · rw [if_pos hsingle, if_pos hsingle, List.nil_append]
      · have hblank : isBlankByte b = true := by simpa [hsingle] using hb
        rw [if_neg hsingle, if_neg hsingle, if_pos hblank, if_pos hblank, List.nil_append]

theorem scanFrom_word {w rest : Text} (h : ∀ b ∈ w, isWordByte b = true) (hrest : Ends rest)
    (word : Text) : scanFrom false word (w ++ rest) = ended (word ++ w) ++ scan rest := by
  induction w generalizing word with
  | nil => rw [List.nil_append, List.append_nil, scanFrom_ends hrest]
  | cons b w ih =>
    rw [List.cons_append, scanFrom_wordByte (h b List.mem_cons_self),
      ih fun c hc => h c (List.mem_cons_of_mem b hc), List.append_assoc, List.singleton_append]

/-- A word is a token. -/
theorem scan_word {w rest : Text} (hne : w ≠ []) (h : ∀ b ∈ w, isWordByte b = true)
    (hrest : Ends rest) : scan (w ++ rest) = w :: scan rest := by
  rw [scan, scanFrom_word h hrest, List.nil_append, ended_of_ne_nil hne, List.singleton_append]

/-! ### Quoted texts -/

theorem scanFrom_quoted {rest : Text} (hrest : Ends rest) (t word : Text) :
    scanFrom true word (t.double quote ++ quote :: rest) =
      (word ++ (t.double quote ++ [quote])) :: scan rest := by
  induction t generalizing word with
  | nil =>
    cases rest with
    | nil => simp [Text.double, scan, scanFrom, ended]
    | cons c rest =>
      rw [Text.double, List.nil_append, scanFrom, if_pos rfl, if_neg hrest.head_ne]
      rfl
  | cons b t ih =>
    rw [Text.double]
    split
    · rename_i hb
      subst hb
      rw [List.cons_append, List.cons_append, scanFrom, if_pos rfl, if_pos rfl, ih]
      simp
    · rename_i hb
      obtain ⟨c, u, hu⟩ : ∃ c u, Text.double quote t ++ quote :: rest = c :: u :=
        List.exists_cons_of_ne_nil (by simp)
      rw [List.cons_append, hu, scanFrom, if_neg hb, ← hu, ih]
      simp

/-- A quoted text is a token. -/
theorem scan_quotedText {rest : Text} (t : Text) (hrest : Ends rest) :
    scan (quotedText t ++ rest) = quotedText t :: scan rest := by
  have hquoted := scanFrom_quoted hrest t [quote]
  obtain ⟨c, u, hu⟩ : ∃ c u, t.double quote ++ quote :: rest = c :: u :=
    List.exists_cons_of_ne_nil (by simp)
  rw [quotedText, List.cons_append, List.append_assoc, List.singleton_append, hu, scan, scanFrom,
    if_pos rfl, ← hu, hquoted]
  rfl

/-! ### Blanks and operators -/

theorem scan_blank (rest : Text) : scan (byte ' ' :: rest) = scan rest := by
  cases rest with
  | nil => rfl
  | cons c rest =>
    have hpair : pairs.contains (byte ' ', c) = false := by simp [pairs]
    rw [scan, scanFrom, if_neg (by decide), hpair]
    rfl

/-- A bracket or an operator of one byte is a token if it makes no operator with the next byte. -/
theorem scan_single {b : UInt8} {rest : Text} (h : isSingle b = true)
    (hrest : ∀ c ∈ rest.head?, pairs.contains (b, c) = false) :
    scan (b :: rest) = [b] :: scan rest := by
  have hquote := (isSingle_facts h).1
  cases rest with
  | nil => simp [scan, scanFrom, ended, hquote, h]
  | cons c rest =>
    rw [scan, scanFrom, if_neg hquote, hrest c rfl, if_pos h]
    rfl

/-- An operator of two bytes is a token. -/
theorem scan_pair {b c : UInt8} (h : pairs.contains (b, c) = true) (rest : Text) :
    scan (b :: c :: rest) = [b, c] :: scan rest := by
  rw [scan, scanFrom, if_neg (pair_facts h).1.1, if_pos h]
  rfl

end QueryTree.Shell.Token
