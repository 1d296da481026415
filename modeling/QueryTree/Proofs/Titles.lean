import Mathlib.Algebra.Ring.Nat
import QueryTree.Proofs.Characters
import QueryTree.Proofs.Lexicon
import QueryTree.Text.Title

/-!
# Names in title case

The name of a field is put into title case part by part. Putting a name that came out of this into
title case again changes nothing but the case of letters: a character that begins a word is one
whose title case is a single variant of itself, and a character inside a word is inside a word
again, because joining parts never ends a word.

The two facts about characters are about tables of runs. A set of code points is a number there,
with one bit for each of them, so that a comparison of two sets is one operation on numbers.

## Main definitions

* `Text.titleRun`: title case on characters, with the state it ends in
* `CharClass.bits`: a set of code points as a number

## Main results

* `Text.runes_ofChars`: encoded characters read back
* `Text.equalFold_exported`: an exported name is its own name up to case
-/

namespace QueryTree

/-! ### Encoded characters -/

namespace Text

theorem runesFrom_length_append (t rest : Text) :
    runesFrom t.length (t ++ rest) = runesFrom 0 rest := by
  induction t with
  | nil => rfl
  | cons b t ih => exact ih

/-- Encoded characters read back. -/
theorem runes_ofChars (cs : List Char) : (ofChars cs).runes = cs.map .char := by
  induction cs with
  | nil => rfl
  | cons c cs ih =>
    obtain ⟨b, bs, hbytes, hlead⟩ := leadingChar?_ofChar c (ofChars cs)
    have htext : ofChars (c :: cs) = b :: (bs ++ ofChars cs) := by
      rw [ofChars, List.flatMap_cons, hbytes]
      rfl
    rw [runes, htext, runesFrom, hlead]
    simp only [runesFrom_length_append, List.map_cons]
    exact congrArg _ ih

theorem chars_ofChars (cs : List Char) : (ofChars cs).chars = cs := by
  rw [chars, runes_ofChars, List.map_map]
  exact List.map_id cs

end Text

/-! ### Tables of runs -/

namespace CharClass

/-- The code points that a table of case runs maps. -/
def mapped (table : List (Nat × Nat × Nat × Nat)) : List Nat :=
  table.flatMap fun (first, last, step, _) =>
    (List.range ((last - first) / step + 1)).map fun i => first + step * i

/-- The code points that a table of case runs maps to. -/
def targets (table : List (Nat × Nat × Nat × Nat)) : List Nat :=
  table.flatMap fun (first, last, step, target) =>
    (List.range ((last - first) / step + 1)).map fun i => target + step * i

/-- Whether the code points that a run maps to are characters. -/
def isValidRun : Nat × Nat × Nat × Nat → Bool
  | (first, last, _, target) =>
    let top := target + (last - first)
    top < 0xd800 || (0xdfff < target && top < 0x110000)

/-- A set of code points as a number. -/
def bits (ns : List Nat) : Nat := ns.foldr (fun n m => 1 <<< n ||| m) 0

/-- The code points of runs without gaps as a number. -/
def runBits (runs : List (Nat × Nat × Nat)) : Nat :=
  runs.foldr (fun (first, last, step) m =>
    (if step = 1 then (2 ^ (last + 1 - first) - 1) <<< first else 0) ||| m) 0

theorem testBit_bits {ns : List Nat} {n : Nat} : (bits ns).testBit n = true ↔ n ∈ ns := by
  induction ns with
  | nil => simp [bits]
  | cons m ns ih =>
    have hcons : bits (m :: ns) = 1 <<< m ||| bits ns := rfl
    rw [hcons, Nat.testBit_or, Bool.or_eq_true, ih, List.mem_cons, Nat.one_shiftLeft,
      Nat.testBit_two_pow, decide_eq_true_eq, eq_comm]

theorem not_mem_of_bits {ns ms : List Nat} (h : bits ns &&& bits ms = 0) {n : Nat} (hn : n ∈ ns) :
    n ∉ ms := by
  intro hm
  have hbit : (bits ns &&& bits ms).testBit n = true := by
    rw [Nat.testBit_and, testBit_bits.mpr hn, testBit_bits.mpr hm, Bool.and_true]
  rw [h] at hbit
  simp at hbit

theorem inRuns_of_testBit {runs : List (Nat × Nat × Nat)} {n : Nat}
    (h : (runBits runs).testBit n = true) : inRuns runs n = true := by
  induction runs with
  | nil => simp [runBits] at h
  | cons run runs ih =>
    obtain ⟨first, last, step⟩ := run
    have hcons : runBits ((first, last, step) :: runs) =
        (if step = 1 then (2 ^ (last + 1 - first) - 1) <<< first else 0) ||| runBits runs := rfl
    rw [hcons, Nat.testBit_or, Bool.or_eq_true] at h
    have hany : inRuns ((first, last, step) :: runs) n =
        ((first ≤ n && n ≤ last && (n - first) % step == 0) || inRuns runs n) := rfl
    rw [hany, Bool.or_eq_true]
    refine h.imp (fun h => ?_) ih
    split at h
    · rename_i hstep
      rw [Nat.testBit_shiftLeft, Nat.testBit_two_pow_sub_one, Bool.and_eq_true,
        decide_eq_true_eq, decide_eq_true_eq] at h
      simp only [hstep, Nat.mod_one, beq_self_eq_true, Bool.and_true, Bool.and_eq_true,
        decide_eq_true_eq]
      omega
    · simp at h

theorem toNat_ofNat_of_isValidRun {first last step target n : Nat}
    (h : isValidRun (first, last, step, target) = true) (hn : n ≤ last) :
    (Char.ofNat (target + (n - first))).toNat = target + (n - first) := by
  have hvalid : (target + (n - first)).isValidChar := by
    simp only [isValidRun, Bool.or_eq_true, Bool.and_eq_true, decide_eq_true_eq] at h
    unfold Nat.isValidChar
    omega
  rw [Char.ofNat, dif_pos hvalid]
  rfl

/-- A table of runs keeps a character, or maps it by the run that covers it. -/
theorem mapRuns_run {table : List (Nat × Nat × Nat × Nat)} (h : table.all isValidRun = true)
    (c : Char) : mapRuns table c = c ∨ ∃ first last step target,
      (first, last, step, target) ∈ table ∧ first ≤ c.toNat ∧ c.toNat ≤ last ∧
        (c.toNat - first) % step = 0 ∧ (mapRuns table c).toNat = target + (c.toNat - first) := by
  unfold mapRuns
  dsimp only
  split
  · rename_i first last step target hfind
    have hmem := List.mem_of_find?_eq_some hfind
    have hin := List.find?_some hfind
    simp only [Bool.and_eq_true, decide_eq_true_eq, beq_iff_eq] at hin
    obtain ⟨⟨hfirst, hlast⟩, hstep⟩ := hin
    exact .inr ⟨first, last, step, target, hmem, hfirst, hlast, hstep,
      toNat_ofNat_of_isValidRun (List.all_eq_true.mp h _ hmem) hlast⟩
  · exact .inl rfl

/-- A table of runs keeps a character, or it is one of those it maps. -/
theorem mapRuns_cases {table : List (Nat × Nat × Nat × Nat)} (h : table.all isValidRun = true)
    (c : Char) : mapRuns table c = c ∨
      c.toNat ∈ mapped table ∧ (mapRuns table c).toNat ∈ targets table := by
  refine (mapRuns_run h c).imp_right ?_
  rintro ⟨first, last, step, target, hmem, hfirst, hlast, hstep, hto⟩
  have hrange : (c.toNat - first) / step < (last - first) / step + 1 :=
    Nat.lt_succ_of_le (Nat.div_le_div_right (Nat.sub_le_sub_right hlast first))
  have hmul : step * ((c.toNat - first) / step) = c.toNat - first :=
    Nat.mul_div_cancel' (Nat.dvd_of_mod_eq_zero hstep)
  refine ⟨?_, ?_⟩
  · refine List.mem_flatMap.mpr ⟨_, hmem, List.mem_map.mpr ⟨_, List.mem_range.mpr hrange, ?_⟩⟩
    rw [hmul]
    omega
  · rw [hto]
    refine List.mem_flatMap.mpr ⟨_, hmem, List.mem_map.mpr ⟨_, List.mem_range.mpr hrange, ?_⟩⟩
    rw [hmul]

/-- What a table does not map it keeps. -/
theorem mapRuns_of_not_mem {table : List (Nat × Nat × Nat × Nat)} (h : table.all isValidRun = true)
    {c : Char} (hc : c.toNat ∉ mapped table) : mapRuns table c = c :=
  (mapRuns_cases h c).resolve_right fun hmapped => hc hmapped.1

/-! ### Upper case -/

open Text

/-- The code points whose title case is several characters. -/
def opening : List Nat := CaseTable.titleText.map (·.1)

/-- Code points that are never the upper case of another one: the joints of names, the two letters
without case variants, the small letters, and those whose title case is several characters. -/
def special : List Nat := [0x2d, 0x5f, 0x130, 0x131] ++ List.range' 97 26 ++ opening

/-- What the table of upper cases keeps apart, decided once for the whole table. -/
theorem toUpper_facts : CaseTable.toUpper.all isValidRun = true ∧
    bits (targets CaseTable.toUpper) &&& bits (mapped CaseTable.toUpper ++ special) = 0 ∧
    bits (targets CaseTable.toUpper) &&& runBits LetterTable.cased =
      bits (targets CaseTable.toUpper) ∧
    bits (mapped CaseTable.toUpper) &&& bits [0x130] = 0 := by
  decide +kernel

theorem toUpper_valid : CaseTable.toUpper.all isValidRun = true := toUpper_facts.1

/-- What is known of an upper case that differs from the character. -/
structure IsRaised (c u : Char) : Prop where
  dotless : c.toNat ≠ 0x130
  upper : upper u = u
  cased : isCased u = true
  ordinary : u.toNat ∉ special

instance (c u : Char) : Decidable (IsRaised c u) :=
  decidable_of_iff (c.toNat ≠ 0x130 ∧ upper u = u ∧ isCased u = true ∧ u.toNat ∉ special)
    ⟨fun ⟨h₁, h₂, h₃, h₄⟩ => ⟨h₁, h₂, h₃, h₄⟩, fun ⟨h₁, h₂, h₃, h₄⟩ => ⟨h₁, h₂, h₃, h₄⟩⟩

/-- A character is its own upper case, or its upper case is another character with a case that is
its own upper case and not special. -/
theorem upper_cases (c : Char) : upper c = c ∨ IsRaised c (upper c) := by
  by_cases hc : c.toNat < 0x80
  · have hascii : ∀ n < 0x80, upper (Char.ofNat n) = Char.ofNat n ∨
        IsRaised (Char.ofNat n) (upper (Char.ofNat n)) := by
      decide +kernel
    have := hascii c.toNat hc
    rwa [Char.ofNat_toNat] at this
  · have hupper : upper c = mapRuns CaseTable.toUpper c := if_neg hc
    rw [hupper]
    obtain ⟨-, targets_apart, targets_cased, mapped_apart⟩ := toUpper_facts
    refine (mapRuns_cases toUpper_valid c).imp_right fun ⟨hmapped, htarget⟩ => ?_
    have hapart := not_mem_of_bits targets_apart htarget
    rw [List.mem_append, not_or] at hapart
    refine ⟨?_, ?_, ?_, hapart.2⟩
    · exact fun h => not_mem_of_bits mapped_apart hmapped (List.mem_singleton.mpr h)
    · by_cases hsmall : (mapRuns CaseTable.toUpper c).toNat < 0x80
      · have hascii : ∀ n < 0x80, n ∉ List.range' 97 26 → upper (Char.ofNat n) = Char.ofNat n := by
          decide +kernel
        have := hascii _ hsmall fun h => hapart.2 (by simp [special, h])
        rwa [Char.ofNat_toNat] at this
      · rw [upper, if_neg hsmall]
        exact mapRuns_of_not_mem toUpper_valid hapart.1
    · refine inRuns_of_testBit ?_
      have hbit := testBit_bits.mpr htarget
      rw [← targets_cased, Nat.testBit_and, Bool.and_eq_true] at hbit
      exact hbit.2

/-- Case variants of a character have its key, except for the dotless i. -/
theorem foldKey_upper {c : Char} (h : c.toNat ≠ 0x131) : foldKey (upper c) = foldKey c := by
  rcases upper_cases c with hsame | hraised
  · rw [hsame]
  · have hu : (upper c).toNat ≠ 0x130 ∧ (upper c).toNat ≠ 0x131 := by
      constructor <;> exact fun h => hraised.ordinary (by simp [special, h])
    simp only [foldKey, hu.1, hu.2, h, hraised.dotless, hraised.upper, beq_iff_eq, or_self,
      Bool.or_eq_true, if_false]

theorem foldKey_titleOnly : ∀ p ∈ CaseTable.titleOnly, p.1 = p.2 ∨
    foldKey (Char.ofNat p.2) = foldKey (Char.ofNat p.1) := by
  decide +kernel

end CharClass

namespace Text

open CharClass

theorem lookup_titleText {c : Char} (h : c.toNat ∉ opening) :
    CaseTable.titleText.lookup c.toNat = none := by
  refine List.lookup_eq_none_iff.mpr fun p hp => ?_
  refine (bne_iff_ne ..).mpr fun heq => ?_
  exact h (List.mem_map.mpr ⟨p, hp, heq.symm⟩)

/-- The title case of most characters is a single case variant. -/
theorem titleChar_eq_singleton {c : Char} (h : c.toNat ≠ 0x131) (hopen : c.toNat ∉ opening) :
    ∃ y, titleChar c = [y] ∧ foldKey y = foldKey c := by
  unfold titleChar
  rw [lookup_titleText hopen]
  dsimp only
  split
  · rename_i n hn
    refine ⟨_, rfl, ?_⟩
    rcases foldKey_titleOnly _ (AliasTable.mem_of_lookup hn) with hsame | hfold
    · rw [← show c.toNat = n from hsame, Char.ofNat_toNat]
    · rwa [Char.ofNat_toNat] at hfold
  · exact ⟨_, rfl, foldKey_upper h⟩

/-! ### Words -/

/-- A step of title case over characters: what is written, and the state after it. -/
def titleStep (inWord afterMark : Bool) (c : Char) : List Char × Bool × Bool :=
  let inWord := inWord && !(afterMark && isWordMark c)
  if isCased c then (if inWord then [c] else titleChar c, true, false)
  else ([c], inWord && !endsWord c, isWordMark c)

/-- Title case over characters: what is written, and the state at the end. -/
def titleRun (inWord afterMark : Bool) : List Char → List Char × Bool × Bool
  | [] => ([], inWord, afterMark)
  | c :: cs =>
    let (written, inWord, afterMark) := titleStep inWord afterMark c
    let (more, state) := titleRun inWord afterMark cs
    (written ++ more, state)

theorem ofChars_append (cs ds : List Char) : ofChars (cs ++ ds) = ofChars cs ++ ofChars ds :=
  List.flatMap_append

theorem titleFrom_map_char (w a : Bool) (cs : List Char) :
    titleFrom w a (cs.map .char) = ofChars (titleRun w a cs).1 := by
  induction cs generalizing w a with
  | nil => rfl
  | cons c cs ih =>
    simp only [List.map_cons, titleFrom, titleRun, titleStep, ih, ofChars_append]
    split
    · split
      · simp [ofChars]
      · rfl
    · simp [ofChars]

theorem titleRun_append (w a : Bool) (cs ds : List Char) :
    titleRun w a (cs ++ ds) =
      ((titleRun w a cs).1 ++ (titleRun (titleRun w a cs).2.1 (titleRun w a cs).2.2 ds).1,
        (titleRun (titleRun w a cs).2.1 (titleRun w a cs).2.2 ds).2) := by
  induction cs generalizing w a with
  | nil => rfl
  | cons c cs ih => simp only [List.cons_append, titleRun, ih, List.append_assoc]

/-- Whether a character that follows a letter of a word is still inside the word. -/
def staysInWord (c : Char) : Bool := (!endsWord c && !isWordMark c) || isCased c

/-- Whether one is inside a word after the characters, wherever they stand. -/
def beginsWord : List Char → Bool
  | [] => false
  | c :: cs => (isCased c && cs.all staysInWord) || beginsWord cs

theorem titleRun_of_staysInWord {cs : List Char} (h : cs.all staysInWord = true) :
    (titleRun true false cs).2 = (true, false) := by
  induction cs with
  | nil => rfl
  | cons c cs ih =>
    rw [List.all_cons, Bool.and_eq_true] at h
    have hstep : (titleStep true false c).2 = (true, false) := by
      simp only [titleStep]
      split
      · rfl
      · rename_i hc
        have hstays := h.1
        simp only [staysInWord, hc, Bool.or_false, Bool.and_eq_true, Bool.not_eq_true'] at hstays
        simp [hstays.1, hstays.2]
    simp only [titleRun, hstep]
    exact ih h.2

theorem titleRun_of_beginsWord {cs : List Char} (h : beginsWord cs = true) (w a : Bool) :
    (titleRun w a cs).2 = (true, false) := by
  induction cs generalizing w a with
  | nil => cases h
  | cons c cs ih =>
    rw [beginsWord, Bool.or_eq_true, Bool.and_eq_true] at h
    rcases h with ⟨hcased, hstays⟩ | hbegins
    · have hstep : (titleStep w a c).2 = (true, false) := by simp only [titleStep, hcased, if_true]
      simp only [titleRun, hstep]
      exact titleRun_of_staysInWord hstays
    · exact ih hbegins _ _

/-- The characters keep their keys in title case, wherever they stand. -/
theorem map_foldKey_titleRun {cs : List Char}
    (h : ∀ c ∈ cs, c.toNat ≠ 0x131 ∧ c.toNat ∉ opening) (w a : Bool) :
    (titleRun w a cs).1.map foldKey = cs.map foldKey := by
  induction cs generalizing w a with
  | nil => rfl
  | cons c cs ih =>
    obtain ⟨y, hy, hfold⟩ := titleChar_eq_singleton (h c (by simp)).1 (h c (by simp)).2
    have hstep : (titleStep w a c).1.map foldKey = [foldKey c] := by
      simp only [titleStep]
      split
      · split
        · rfl
        · rw [hy, List.map_singleton, hfold]
      · rfl
    simp only [titleRun, List.map_append, hstep, List.map_cons]
    rw [ih fun d hd => h d (by simp [hd])]
    rfl

/-! ### Title case of title case -/

/-- Code points that no title case begins with: the joints of names, the dotless i, and those whose
title case is several characters. -/
def untitled : List Nat := [0x2d, 0x5f, 0x131] ++ opening

/-- What the tables of title cases keep apart, decided once for both tables. -/
theorem title_facts :
    bits (CaseTable.titleText.flatMap fun p => p.2.map fun n => (Char.ofNat n).toNat) &&&
      bits untitled = 0 ∧
    (CaseTable.titleText.all fun p => beginsWord (p.2.map Char.ofNat)) = true ∧
    bits (CaseTable.titleOnly.map fun p => (Char.ofNat p.2).toNat) &&& bits untitled = 0 ∧
    bits (CaseTable.titleOnly.map fun p => (Char.ofNat p.2).toNat) &&& runBits LetterTable.cased =
      bits (CaseTable.titleOnly.map fun p => (Char.ofNat p.2).toNat) ∧
    (∀ n ∈ [0x2d, 0x5f, 0x131], isCased (Char.ofNat n) = true →
      upper (Char.ofNat n) ≠ Char.ofNat n) := by
  decide +kernel

theorem beginsWord_singleton {c : Char} (h : isCased c = true) : beginsWord [c] = true := by
  simp [beginsWord, h]

/-- The title case of a letter begins a word and stays as it is up to case. -/
theorem titleChar_facts {c : Char} (hc : isCased c = true) :
    beginsWord (titleChar c) = true ∧ ∀ x ∈ titleChar c, x.toNat ∉ untitled := by
  obtain ⟨titleText_apart, titleText_beginsWord, titleOnly_apart, titleOnly_cased, hplain⟩ :=
    title_facts
  unfold titleChar
  split
  · rename_i ns hns
    have hmem := AliasTable.mem_of_lookup hns
    refine ⟨List.all_eq_true.mp titleText_beginsWord _ hmem, fun x hx => ?_⟩
    obtain ⟨n, hn, rfl⟩ := List.mem_map.mp hx
    exact not_mem_of_bits titleText_apart
      (List.mem_flatMap.mpr ⟨_, hmem, List.mem_map.mpr ⟨n, hn, rfl⟩⟩)
  · rename_i hopen
    split
    · rename_i n hn
      have hmem : (Char.ofNat n).toNat ∈
          CaseTable.titleOnly.map fun p => (Char.ofNat p.2).toNat :=
        List.mem_map.mpr ⟨_, AliasTable.mem_of_lookup hn, rfl⟩
      refine ⟨beginsWord_singleton (inRuns_of_testBit ?_), fun x hx => ?_⟩
      · have hbit := testBit_bits.mpr hmem
        rw [← titleOnly_cased, Nat.testBit_and, Bool.and_eq_true] at hbit
        exact hbit.2
      · rw [List.mem_singleton.mp hx]
        exact not_mem_of_bits titleOnly_apart hmem
    · rcases upper_cases c with hsame | hraised
      · rw [hsame]
        refine ⟨beginsWord_singleton hc, fun x hx => ?_⟩
        rw [List.mem_singleton.mp hx]
        refine fun h => (List.mem_append.mp h).elim (fun h => ?_) fun h => ?_
        · have hne := hplain _ h
          rw [Char.ofNat_toNat] at hne
          exact hne hc hsame
        · obtain ⟨p, hp, heq⟩ := List.mem_map.mp h
          exact (bne_iff_ne ..).mp (List.lookup_eq_none_iff.mp hopen p hp) heq.symm
      · refine ⟨beginsWord_singleton hraised.cased, fun x hx h => hraised.ordinary ?_⟩
        rw [List.mem_singleton.mp hx] at h
        simp only [untitled, special, List.mem_append, List.mem_cons, List.not_mem_nil] at h ⊢
        grind

/-- What a step writes keeps its keys in title case, and is inside a word again if it was. -/
theorem titleRun_titleStep {w a : Bool} (w' a' : Bool) (c : Char)
    (h : w = true → w' = true ∧ a' = a) :
    (titleRun w' a' (titleStep w a c).1).1.map foldKey = (titleStep w a c).1.map foldKey ∧
    ((titleStep w a c).2.1 = true →
      (titleRun w' a' (titleStep w a c).1).2 = (true, (titleStep w a c).2.2)) := by
  cases hc : isCased c with
  | false =>
    simp only [titleStep, hc, titleRun, Bool.false_eq_true, if_false, List.append_nil,
      List.map_singleton, true_and]
    intro hstays
    simp only [Bool.and_eq_true] at hstays
    obtain ⟨hw', rfl⟩ := h hstays.1.1
    simp only [hw', hstays, Bool.and_self]
  | true =>
    cases hw : (w && !(a && isWordMark c)) with
    | true =>
      obtain ⟨hin, hmark⟩ := Bool.and_eq_true_iff.mp hw
      obtain ⟨hw', rfl⟩ := h hin
      simp [titleStep, hc, titleRun, hin, hw', hmark]
    | false =>
      -- the letter begins a word, so its title case does too
      obtain ⟨hbegins, huntitled⟩ := titleChar_facts hc
      simp only [titleStep, hc, hw, if_true, Bool.false_eq_true, if_false]
      refine ⟨map_foldKey_titleRun (fun x hx => ?_) w' a', fun _ =>
        titleRun_of_beginsWord hbegins w' a'⟩
      have hx := huntitled x hx
      simp only [untitled, List.mem_append, List.mem_cons, not_or] at hx
      exact ⟨hx.1.2.2.1, hx.2⟩

/-- Title case of what title case writes, wherever it stands. -/
theorem map_foldKey_titleRun_titleRun {w a w' a' : Bool} {cs rest : List Char}
    (h : w = true → w' = true ∧ a' = a)
    (hrest : ∀ w a, (titleRun w a rest).1.map foldKey = rest.map foldKey) :
    (titleRun w' a' ((titleRun w a cs).1 ++ rest)).1.map foldKey =
      ((titleRun w a cs).1 ++ rest).map foldKey := by
  induction cs generalizing w a w' a' with
  | nil => exact hrest w' a'
  | cons c cs ih =>
    obtain ⟨hwritten, hstate⟩ := titleRun_titleStep w' a' c h
    simp only [titleRun, List.append_assoc]
    rw [titleRun_append, List.map_append, hwritten, List.map_append]
    congr 1
    refine ih fun hw => ?_
    rw [hstate hw]
    exact ⟨rfl, rfl⟩

/-- Title case writes no joints of names. -/
theorem mem_titleRun {w a : Bool} {cs : List Char} {x : Char} (hx : x ∈ (titleRun w a cs).1) :
    x ∈ cs ∨ x.toNat ∉ untitled := by
  induction cs generalizing w a with
  | nil => cases hx
  | cons c cs ih =>
    simp only [titleRun, List.mem_append] at hx
    rcases hx with hx | hx
    · simp only [titleStep] at hx
      split at hx
      · rename_i hc
        split at hx
        · exact .inl (by simp [List.mem_singleton.mp hx])
        · exact .inr ((titleChar_facts hc).2 x hx)
      · exact .inl (by simp [List.mem_singleton.mp hx])
    · exact (ih hx).imp_left (List.mem_cons_of_mem c)

/-! ### Exported names -/

/-- A step of splitting, from the right: the run that has begun and those behind it. -/
def splitStep (sep : Rune → Bool) (r : Rune) (state : List Rune × List (List Rune)) :
    List Rune × List (List Rune) :=
  if sep r then ([], if state.1.isEmpty then state.2 else state.1 :: state.2)
  else (r :: state.1, state.2)

theorem splitRunes_eq (sep : Rune → Bool) (rs : List Rune) : splitRunes sep rs =
    if (rs.foldr (splitStep sep) ([], [])).1.isEmpty then (rs.foldr (splitStep sep) ([], [])).2
    else (rs.foldr (splitStep sep) ([], [])).1 :: (rs.foldr (splitStep sep) ([], [])).2 := rfl

/-- The runs of splitting are what is left without the separators. -/
theorem flatten_splitRunes (sep : Rune → Bool) (rs : List Rune) :
    (splitRunes sep rs).flatten = rs.filter fun r => !sep r := by
  have hstate : (rs.foldr (splitStep sep) ([], [])).1 ++
      (rs.foldr (splitStep sep) ([], [])).2.flatten = rs.filter fun r => !sep r := by
    induction rs with
    | nil => rfl
    | cons r rs ih =>
      rw [List.foldr_cons, List.filter_cons, ← ih]
      generalize rs.foldr (splitStep sep) ([], []) = state
      by_cases hr : sep r = true
      · by_cases hempty : state.1 = []
        · simp [splitStep, hr, hempty]
        · simp [splitStep, hr, hempty]
      · simp [splitStep, hr]
  rw [splitRunes_eq, ← hstate]
  split
  · rename_i hempty
    rw [List.isEmpty_iff.mp hempty, List.nil_append]
  · rfl

theorem flatMap_splitRunes_of_forall {sep : Rune → Bool} {rs : List Rune}
    (h : ∀ r ∈ rs, sep r = false) (f : List Rune → Text) (hf : f [] = []) :
    (splitRunes sep rs).flatMap f = f rs := by
  have hstate : rs.foldr (splitStep sep) ([], []) = (rs, []) := by
    induction rs with
    | nil => rfl
    | cons r rs ih =>
      rw [List.foldr_cons, ih fun x hx => h x (List.mem_cons_of_mem r hx)]
      simp [splitStep, h r List.mem_cons_self]
  rw [splitRunes_eq, hstate]
  cases rs with
  | nil => exact hf.symm
  | cons r rs => simp

/-- The runes at which names are taken apart. -/
def isJoint (r : Rune) : Bool := r = .char '_' || r = .char '-'

theorem exported_eq (t : Text) : t.exported =
    (splitRunes isJoint t.runes).flatMap fun part => titleFrom false false part := rfl

/-- The exported name of characters is put together from parts in title case, which are the
characters without the joints. -/
theorem exists_exported_ofChars (cs : List Char) : ∃ parts : List (List Char),
    (ofChars cs).exported = ofChars (parts.flatMap fun part => (titleRun false false part).1) ∧
    parts.flatten = cs.filter fun c => !isJoint (.char c) := by
  have hflatten := flatten_splitRunes isJoint (cs.map .char)
  refine ⟨(splitRunes isJoint (cs.map .char)).map fun part => part.map Rune.toChar, ?_, ?_⟩
  · have hpart : ∀ part ∈ splitRunes isJoint (cs.map .char), titleFrom false false part =
        ofChars (titleRun false false (part.map Rune.toChar)).1 := by
      intro part hpart
      rw [← titleFrom_map_char, List.map_map]
      congr 1
      refine (List.map_id part).symm.trans (List.map_congr_left fun r hr => ?_)
      have hmem : r ∈ (splitRunes isJoint (cs.map .char)).flatten :=
        List.mem_flatten.mpr ⟨part, hpart, hr⟩
      rw [hflatten] at hmem
      obtain ⟨c, -, rfl⟩ := List.mem_map.mp (List.mem_filter.mp hmem).1
      rfl
    rw [exported_eq, runes_ofChars, List.flatMap_def, List.map_congr_left hpart,
      ← List.flatMap_def, ofChars, List.flatMap_assoc, List.flatMap_map]
    rfl
  · rw [← List.map_flatten, hflatten, List.filter_map, List.map_map]
    exact List.map_id _

/-- An exported name has no joints. -/
theorem isJoint_of_mem_exported {cs : List Char} {x : Char}
    (hx : x ∈ (ofChars cs).exported.chars) : isJoint (.char x) = false := by
  obtain ⟨parts, hexported, hflatten⟩ := exists_exported_ofChars cs
  rw [hexported, chars_ofChars] at hx
  obtain ⟨part, hpart, hx⟩ := List.mem_flatMap.mp hx
  rcases mem_titleRun hx with hx | hx
  · have hmem : x ∈ parts.flatten := List.mem_flatten.mpr ⟨part, hpart, hx⟩
    rw [hflatten] at hmem
    simpa using (List.mem_filter.mp hmem).2
  · have hne : x ≠ '_' ∧ x ≠ '-' := by
      constructor <;> rintro rfl <;> exact hx (by decide)
    simp [isJoint, hne.1, hne.2]

theorem map_foldKey_titleRun_parts (parts : List (List Char)) (w a : Bool) :
    (titleRun w a (parts.flatMap fun part => (titleRun false false part).1)).1.map foldKey =
      (parts.flatMap fun part => (titleRun false false part).1).map foldKey := by
  induction parts generalizing w a with
  | nil => rfl
  | cons part parts ih => exact map_foldKey_titleRun_titleRun nofun ih

/-- **Exporting twice.** An exported name stays the same up to case if it is exported again. -/
theorem equalFold_exported (cs : List Char) :
    (ofChars cs).exported.equalFold (ofChars cs).exported.exported = true := by
  have hjoint : ∀ x ∈ (ofChars cs).exported.chars, isJoint (.char x) = false :=
    fun _ => isJoint_of_mem_exported
  obtain ⟨parts, hexported, -⟩ := exists_exported_ofChars cs
  rw [hexported] at hjoint ⊢
  rw [chars_ofChars] at hjoint
  generalize hm : (parts.flatMap fun part => (titleRun false false part).1) = m at hjoint ⊢
  have hnone : ∀ r ∈ m.map Rune.char, isJoint r = false := by
    intro r hr
    obtain ⟨x, hx, rfl⟩ := List.mem_map.mp hr
    exact hjoint x hx
  rw [exported_eq (ofChars m), runes_ofChars, flatMap_splitRunes_of_forall hnone _ rfl,
    titleFrom_map_char, equalFold, chars_ofChars, chars_ofChars, beq_iff_eq, ← hm]
  exact (map_foldKey_titleRun_parts parts false false).symm

end Text

end QueryTree
