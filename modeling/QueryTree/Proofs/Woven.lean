import QueryTree.Proofs.Readable

/-!
# Negation undoes itself

A text is woven when it consists of quoted segments, of tokens, and of bytes at which no token
starts. Between `CASE` and its `END` negation copies tokens instead of swapping them, and a raw item
may well be called `CASE` or `END`, so which tokens are swapped is no property of a part of the
text. It is decided by a depth that depends on the bytes before: `Rewrites rest depth before t u`
says that negation, `depth` levels deep in `CASE` expressions, makes `u` of `t`, where `rest`
follows.

The relation is symmetric, and that is the whole argument. A token and its complement both start
with a blank and stand before the same text, so `t` and `u` agree up to their first blank. Nothing
that is looked for, be it a token, a keyword or the end of a quoted segment, needs more of the text
to be recognised where it stands or to be ruled out.

## Main definitions

* `Sql.Woven`: the texts that consist of quoted segments, tokens and other bytes
* `Sql.Rewrites`: what negation makes of them
* `Sql.Alike`: texts that agree up to their first blank

## Main results

* `Sql.Rewrites.symm`, `Sql.Rewrites.scan_eq`
* `Sql.Woven.negate`, `Sql.Woven.negate_negate`
-/

namespace QueryTree.Sql

variable {before : Option UInt8} {b : UInt8} {t u q rest word : Text}

/-! ### Texts that agree up to a blank -/

/-- The text up to and including its first blank. -/
def upToBlank : Text → Text
  | [] => []
  | b :: t => if b = 32 then [b] else b :: upToBlank t

/-- The texts agree up to their first blanks. -/
def Alike (t u : Text) : Prop := upToBlank t = upToBlank u

theorem alike_cons (h : b ≠ 32 → Alike t u) : Alike (b :: t) (b :: u) := by
  unfold Alike at h ⊢
  rw [upToBlank, upToBlank]
  split
  · rfl
  · rename_i hb
    rw [h hb]

theorem Alike.append_left (h : Alike t u) (q : Text) : Alike (q ++ t) (q ++ u) := by
  induction q with
  | nil => exact h
  | cons b q ih => exact alike_cons fun _ => ih

theorem upToBlank_append (t rest : Text) :
    upToBlank (t ++ rest) = if 32 ∈ t then upToBlank t else t ++ upToBlank rest := by
  induction t with
  | nil => simp
  | cons b t ih =>
    rw [List.cons_append, upToBlank, ih, upToBlank]
    by_cases hb : b = 32
    · simp [hb]
    · have hb' : ¬ 32 = b := fun h => hb h.symm
      simp only [hb, if_false, List.mem_cons, hb', false_or]
      split <;> rfl

theorem mem_upToBlank : 32 ∈ upToBlank t ↔ 32 ∈ t := by
  induction t with
  | nil => rfl
  | cons b t ih =>
    rw [upToBlank]
    split
    · rename_i hb
      simp [hb]
    · rw [List.mem_cons, List.mem_cons, ih]

theorem Alike.append_right (h : Alike t u) (rest : Text) : Alike (t ++ rest) (u ++ rest) := by
  unfold Alike at h ⊢
  have hself : ∀ {t : Text}, 32 ∉ t → upToBlank t = t := fun {t} ht => by
    have := upToBlank_append t []
    rw [if_neg ht, List.append_nil] at this
    simpa [upToBlank] using this
  have hmem : 32 ∈ t ↔ 32 ∈ u := by rw [← mem_upToBlank, h, mem_upToBlank]
  rw [upToBlank_append, upToBlank_append]
  by_cases ht : 32 ∈ t
  · rw [if_pos ht, if_pos (hmem.mp ht), h]
  · have hu := fun hu => ht (hmem.mpr hu)
    rw [hself ht, hself hu] at h
    rw [if_neg ht, if_neg hu, h]

theorem head?_upToBlank (t : Text) : (upToBlank t).head? = t.head? := by
  cases t with
  | nil => rfl
  | cons b t =>
    rw [upToBlank]
    split <;> rfl

theorem Alike.head?_eq (h : Alike t u) : t.head? = u.head? := by
  rw [← head?_upToBlank, h, head?_upToBlank]

theorem lowerByte_ne_blank (h : b ≠ 32) : Text.lowerByte b ≠ Text.lowerByte 32 :=
  mt eq_blank_of_lowerByte h

/-- What starts a text up to and including a blank is decided before the first blank of the
text. -/
theorem startsWithWord_upToBlank (hword : 32 ∉ word.dropLast) (t : Text) :
    startsWithWord word (upToBlank t) = startsWithWord word t := by
  induction word generalizing t with
  | nil => simp [startsWithWord]
  | cons a word ih =>
    cases t with
    | nil => rfl
    | cons b t =>
      rw [upToBlank]
      split
      · rename_i hb
        subst hb
        rw [startsWithWord_cons, startsWithWord_cons]
        cases word with
        | nil => simp [startsWithWord]
        | cons c word =>
          have ha : a ≠ 32 := fun ha => hword (by simp [ha])
          simp [beq_eq_false_iff_ne.mpr (lowerByte_ne_blank ha).symm]
      · rw [startsWithWord_cons, startsWithWord_cons, ih fun hmem => hword ?_]
        cases word with
        | nil => cases hmem
        | cons c word => simpa using Or.inr hmem

/-- A token starts with a word between two blanks that is a token itself. -/
theorem exists_short_token {k : Text} (hk : k ∈ tokens) :
    ∃ a more, k = 32 :: a ++ more ∧ 32 :: a ∈ tokens ∧ 32 ∉ a.dropLast := by
  have hall : ∀ k ∈ tokens, ∃ s ∈ tokens, s = 32 :: s.tail ∧ s.isPrefixOf k = true ∧
      32 ∉ s.tail.dropLast := by decide
  obtain ⟨s, hs, htail, hprefix, hblank⟩ := hall k hk
  obtain ⟨more, rfl⟩ := List.isPrefixOf_iff_prefix.mp hprefix
  exact ⟨s.tail, more, by rw [← htail], by rwa [← htail], hblank⟩

/-- Where tokens start after a blank is decided before the next blank. -/
theorem Apart.of_alike (ht : Apart t) (h : Alike t u) : Apart u := by
  intro k hk
  obtain ⟨a, more, rfl, ha, hblank⟩ := exists_short_token hk
  have hshort : startsWithWord a u = false := by
    have := ht _ ha
    rw [startsWithWord_cons] at this
    rw [← startsWithWord_upToBlank hblank, ← h, startsWithWord_upToBlank hblank]
    simpa using this
  rw [Bool.eq_false_iff]
  intro hs
  rw [List.cons_append, startsWithWord_cons, Bool.and_eq_true] at hs
  rw [(startsWithWord_append hs.2).1] at hshort
  cases hshort

/-- Whether a keyword stands before a text is decided before the first blank of the text. -/
theorem keywordAt_upToBlank (hword : 32 ∉ word) (before : Option UInt8) (t : Text) :
    keywordAt word before (upToBlank t) = keywordAt word before t := by
  have hnext : ∀ {word t : Text}, 32 ∉ word → startsWithWord word t = true →
      ((upToBlank t).drop word.length).head? = (t.drop word.length).head? := by
    intro word t hword hs
    induction word generalizing t with
    | nil => exact head?_upToBlank t
    | cons a word ih =>
      cases t with
      | nil => rfl
      | cons b t =>
        rw [startsWithWord_cons, Bool.and_eq_true, beq_iff_eq] at hs
        have hb : b ≠ 32 := by
          rintro rfl
          exact lowerByte_ne_blank (fun ha => hword (by simp [ha])) hs.1.symm
        rw [upToBlank, if_neg hb, List.length_cons, List.drop_succ_cons, List.drop_succ_cons]
        exact ih (fun hmem => hword (List.mem_cons_of_mem _ hmem)) hs.2
  have hdrop : 32 ∉ word.dropLast := fun hmem => hword (List.dropLast_subset _ hmem)
  unfold keywordAt
  rw [startsWithWord_upToBlank hdrop]
  cases hs : startsWithWord word t with
  | false => rfl
  | true => rw [hnext hword hs]

theorem Alike.keywordAt_eq (h : Alike t u) (hword : 32 ∉ word) :
    keywordAt word before t = keywordAt word before u := by
  rw [← keywordAt_upToBlank hword, h, keywordAt_upToBlank hword]

/-! ### Woven texts -/

/-- At the byte starts no quoted segment and no token. -/
structure Loose (b : UInt8) (t : Text) : Prop where
  unquoted : closer? b = none
  noToken : b = 32 → Apart t

/-- The text before `rest` consists of quoted segments, tokens and other bytes. -/
inductive Woven : Text → Text → Prop
  | nil {rest : Text} : Woven [] rest
  | byte {b : UInt8} {t rest : Text} (hb : Loose b (t ++ rest)) (h : Woven t rest) :
    Woven (b :: t) rest
  | quoted {q t rest : Text} (hq : q ≠ [])
    (hl : quotedLength (q ++ (t ++ rest)) = q.length) (h : Woven t rest) : Woven (q ++ t) rest
  | token {x : Text × Text} {t rest : Text} (hx : x ∈ negations) (ha : Apart (t ++ rest))
    (h : Woven t rest) : Woven (x.1 ++ t) rest

theorem Woven.append (h : Woven t (u ++ rest)) (hu : Woven u rest) : Woven (t ++ u) rest := by
  generalize hr : u ++ rest = r at h
  induction h with
  | nil => exact hu
  | byte hb _ ih =>
    subst hr
    exact .byte (by simpa using hb) (ih rfl)
  | quoted hq hl _ ih =>
    subst hr
    simpa using quoted hq (by simpa using hl) (ih rfl)
  | token hx ha _ ih =>
    subst hr
    simpa using token hx (by simpa using ha) (ih rfl)

/-- How deep in `CASE` expressions the byte after the start of a text stands. -/
def nextDepth (depth : Nat) (before : Option UInt8) (t : Text) : Nat :=
  if keywordAt "CASE" before t then depth + 1
  else if keywordAt "END" before t then depth - 1
  else depth

/-- Negation, `depth` levels deep in `CASE` expressions after the byte `before`, makes the second
text of the first, where `rest` follows. -/
inductive Rewrites (rest : Text) : Nat → Option UInt8 → Text → Text → Prop
  | nil {depth : Nat} {before : Option UInt8} : Rewrites rest depth before [] []
  | byte {depth : Nat} {before : Option UInt8} {b : UInt8} {t u : Text}
    (hb : Loose b (t ++ rest)) (h : Rewrites rest (nextDepth depth before (b :: t)) (some b) t u) :
    Rewrites rest depth before (b :: t) (b :: u)
  | quoted {depth : Nat} {before : Option UInt8} {q t u : Text} (hq : q ≠ [])
    (hl : quotedLength (q ++ (t ++ rest)) = q.length)
    (h : Rewrites rest depth (lastByte before q) t u) :
    Rewrites rest depth before (q ++ t) (q ++ u)
  | token {depth : Nat} {before : Option UInt8} {x : Text × Text} {t u : Text}
    (hx : x ∈ negations) (ha : Apart (t ++ rest)) (h : Rewrites rest depth (some 32) t u) :
    Rewrites rest depth before (x.1 ++ t) ((if depth = 0 then x.2 else x.1) ++ u)

theorem Woven.exists_rewrites (h : Woven t rest) (depth : Nat) (before : Option UInt8) :
    ∃ u, Rewrites rest depth before t u := by
  induction h generalizing depth before with
  | nil => exact ⟨_, .nil⟩
  | @byte b t _ hb _ ih =>
    obtain ⟨u, hu⟩ := ih (nextDepth depth before (b :: t)) (some b)
    exact ⟨_, .byte hb hu⟩
  | quoted hq hl _ ih =>
    obtain ⟨u, hu⟩ := ih depth (lastByte before _)
    exact ⟨_, .quoted hq hl hu⟩
  | token hx ha _ ih =>
    obtain ⟨u, hu⟩ := ih depth (some 32)
    exact ⟨_, .token hx ha hu⟩

theorem token_eq_blank_cons {x : Text × Text} (hx : x ∈ negations) :
    x.1 = 32 :: x.1.tail ∧ x.2 = 32 :: x.2.tail ∧ (x.2, x.1) ∈ negations := by
  revert x
  decide

namespace Rewrites

variable {depth : Nat}

theorem alike (h : Rewrites rest depth before t u) : Alike t u := by
  induction h with
  | nil => rfl
  | byte _ _ ih => exact alike_cons fun _ => ih
  | quoted _ _ _ ih => exact ih.append_left _
  | @token depth before x t u hx _ _ _ =>
    obtain ⟨h₁, h₂, -⟩ := token_eq_blank_cons hx
    have blanks : ∀ {x y : Text}, Alike (32 :: x ++ t) (32 :: y ++ u) := rfl
    split
    · rw [h₁, h₂]
      exact blanks
    · rw [h₁]
      exact blanks

theorem woven (h : Rewrites rest depth before t u) : Woven t rest := by
  induction h with
  | nil => exact .nil
  | byte hb _ ih => exact .byte hb ih
  | quoted hq hl _ ih => exact .quoted hq hl ih
  | token hx ha _ ih => exact .token hx ha ih

/-- **What negation makes of a text, negation turns back.** -/
theorem symm (h : Rewrites rest depth before t u) : Rewrites rest depth before u t := by
  induction h with
  | nil => exact .nil
  | @byte depth before b t u hb h ih =>
    have halike : Alike (b :: t) (b :: u) := alike_cons fun _ => h.alike
    have hdepth : nextDepth depth before (b :: t) = nextDepth depth before (b :: u) := by
      have hword : ∀ word : Text, 32 ∉ word →
          keywordAt word before (b :: t) = keywordAt word before (b :: u) := fun _ =>
        halike.keywordAt_eq
      simp only [nextDepth, hword "CASE" (by decide), hword "END" (by decide)]
    rw [hdepth] at ih
    exact .byte ⟨hb.unquoted, fun hblank => (hb.noToken hblank).of_alike
      (h.alike.append_right rest)⟩ ih
  | quoted hq hl h ih =>
    refine .quoted hq (quotedLength_congr hq hl fun b hb => ?_) ih
    rwa [(h.alike.append_right rest).head?_eq]
  | @token depth before x t u hx ha h ih =>
    have ha' := ha.of_alike (h.alike.append_right rest)
    obtain ⟨-, -, hx'⟩ := token_eq_blank_cons hx
    by_cases hd : depth = 0
    · have hback : Rewrites rest depth before ((x.2, x.1).1 ++ u) _ := .token hx' ha' ih
      rw [if_pos hd] at hback ⊢
      exact hback
    · have hback : Rewrites rest depth before (x.1 ++ u) _ := .token hx ha' ih
      rw [if_neg hd] at hback ⊢
      exact hback

end Rewrites

/-! ### Negation rewrites -/

/-- How many bytes are copied before the `CASE` expression that is `depth` levels deep ends. -/
def copied : (depth : Nat) → (before : Option UInt8) → Text → Nat
  | 0, _, _ => 0
  | depth + 1, before, t => lengthToEnd (depth + 1) 0 before t

/-- Negation that starts `depth` levels deep in `CASE` expressions. -/
def scan (depth : Nat) (before : Option UInt8) (t : Text) : Text :=
  let n := copied depth before t
  t.take n ++ negateFrom 0 (lastByte before (t.take n)) (t.drop n)

theorem scan_zero (before : Option UInt8) (t : Text) : scan 0 before t = negateFrom 0 before t :=
  rfl

theorem scan_append {depth depth' : Nat}
    (h : copied depth before (q ++ t) = q.length + copied depth' (lastByte before q) t) :
    scan depth before (q ++ t) = q ++ scan depth' (lastByte before q) t := by
  simp only [scan, h, List.take_length_add_append, List.drop_length_add_append, lastByte_append,
    List.append_assoc]

/-- The letters of a word that is found in a text. -/
theorem exists_letters (hw : word.all Text.isLetterByte = true)
    (h : startsWithWord word t = true) :
    ∃ u r, t = u ++ r ∧ u.length = word.length ∧ u.all Text.isLetterByte = true := by
  induction word generalizing t with
  | nil => exact ⟨[], t, rfl, rfl, rfl⟩
  | cons a word ih =>
    rw [List.all_cons, Bool.and_eq_true] at hw
    cases t with
    | nil => cases h
    | cons b t =>
      rw [startsWithWord_cons, Bool.and_eq_true, beq_iff_eq] at h
      obtain ⟨u, r, rfl, hlen, hu⟩ := ih hw.2 h.2
      refine ⟨b :: u, r, rfl, by simp [hlen], ?_⟩
      rw [List.all_cons, hu, isLetterByte_of_lowerByte hw.1 h.1, Bool.true_and]

theorem letter_facts (h : Text.isLetterByte b = true) :
    closer? b = none ∧ b ≠ 32 ∧ opensWord (some b) = false := by
  grind [Text.isLetterByte, closer?, opensWord, isIdentByte]

theorem keywordAt_inside (h : opensWord before = false) : keywordAt word before t = false := by
  rw [keywordAt, h, Bool.and_false, Bool.false_and]

/-- No keyword is found inside of a word. -/
theorem lengthToEnd_letters (depth : Nat) (hb : opensWord before = false)
    (hu : u.all Text.isLetterByte = true) :
    lengthToEnd depth u.length before (u ++ t) = lengthToEnd depth 0 before (u ++ t) := by
  induction u generalizing before with
  | nil => rfl
  | cons c u ih =>
    rw [List.all_cons, Bool.and_eq_true] at hu
    obtain ⟨hc, -, hnext⟩ := letter_facts hu.1
    rw [List.cons_append, List.length_cons, lengthToEnd, ih hnext hu.2,
      lengthToEnd_plain depth hc (keywordAt_inside hb) (keywordAt_inside hb), Nat.add_comm]

theorem Loose.negationAt?_eq_none (h : Loose b t) : negationAt? (b :: t) = none := by
  refine Sql.negationAt?_eq_none negating_tokens fun k hk => ?_
  by_cases hb : b = 32
  · rw [hb]
    exact h.noToken hb k hk
  · have hall : ∀ k ∈ tokens, k = 32 :: k.tail := by decide
    rw [hall k hk, startsWithWord_cons, beq_eq_false_iff_ne.mpr (lowerByte_ne_blank hb),
      Bool.false_and]

theorem Loose.negateFrom (h : Loose b t) (hcase : keywordAt "CASE" before (b :: t) = false) :
    negateFrom 0 before (b :: t) = b :: negateFrom 0 (some b) t :=
  negateFrom_step (List.cons_ne_nil b [])
    (negationStep_plain h.unquoted hcase h.negationAt?_eq_none)

/-- The letters inside of a word are copied. -/
theorem negateFrom_letters (hb : opensWord before = false)
    (hu : u.all Text.isLetterByte = true) :
    negateFrom 0 before (u ++ t) = u ++ negateFrom 0 (lastByte before u) t := by
  induction u generalizing before with
  | nil => rfl
  | cons c u ih =>
    rw [List.all_cons, Bool.and_eq_true] at hu
    obtain ⟨hc, hblank, hnext⟩ := letter_facts hu.1
    have hloose : Loose c (u ++ t) := ⟨hc, fun h => absurd h hblank⟩
    rw [List.cons_append, hloose.negateFrom (keywordAt_inside hb), ih hnext hu.2, lastByte,
      List.cons_append]

/-- The letters of a keyword after its first one. -/
theorem exists_keyword_letters {n : Nat} (hw : word.all Text.isLetterByte = true)
    (hn : word.length = n + 1) (h : keywordAt word before (b :: t) = true) :
    opensWord (some b) = false ∧
      ∃ u r, t = u ++ r ∧ u.length = n ∧ u.all Text.isLetterByte = true := by
  simp only [keywordAt, Bool.and_eq_true] at h
  obtain ⟨u, r, hu, hlen, hletters⟩ := exists_letters hw h.1.1
  cases u with
  | nil => rw [hn] at hlen; cases hlen
  | cons c u =>
    obtain ⟨rfl, rfl⟩ := List.cons.inj hu
    rw [List.all_cons, Bool.and_eq_true] at hletters
    exact ⟨(letter_facts hletters.1).2.2, u, r, rfl, Nat.succ.inj (hlen.trans hn), hletters.2⟩

theorem lengthToEnd_keyword {n : Nat} (hw : word.all Text.isLetterByte = true)
    (hn : word.length = n + 1) (h : keywordAt word before (b :: t) = true) (depth : Nat) :
    lengthToEnd depth n (some b) t = lengthToEnd depth 0 (some b) t := by
  obtain ⟨hb, u, r, rfl, rfl, hu⟩ := exists_keyword_letters hw hn h
  exact lengthToEnd_letters depth hb hu

theorem negateFrom_drop (n : Nat) (before : Option UInt8) (t : Text) :
    negateFrom n before t = negateFrom 0 (lastByte before (t.take n)) (t.drop n) := by
  induction n generalizing before t with
  | zero => rfl
  | succ n ih =>
    cases t with
    | nil => rfl
    | cons b t => exact ih (some b) t

/-- `CASE` opens a level. -/
theorem scan_case {depth : Nat} (hb : closer? b = none)
    (h : keywordAt "CASE" before (b :: t) = true) :
    scan depth before (b :: t) = b :: scan (depth + 1) (some b) t := by
  have hskip := lengthToEnd_keyword (n := 3) (by decide) rfl h
  cases depth with
  | zero =>
    have hlength : caseLength before (b :: t) = lengthToEnd 1 0 (some b) t + 1 := by
      rw [caseLength, if_pos h, lengthToEnd, hskip]
    have hstep : negationStep before (b :: t) = (lengthToEnd 1 0 (some b) t + 1,
        b :: t.take (lengthToEnd 1 0 (some b) t)) := by
      simp only [negationStep, quotedLength_of_closer? hb, hlength, List.take_succ_cons]
    rw [scan_zero, negateFrom, hstep]
    simp only [scan, copied, Nat.add_sub_cancel, List.cons_append]
    rw [negateFrom_drop]
  | succ depth =>
    refine scan_append (q := [b]) ?_
    show lengthToEnd (depth + 1) 0 before (b :: t) = 1 + lengthToEnd (depth + 2) 0 (some b) t
    rw [lengthToEnd]
    simp only [quotedLength_of_closer? hb, h, if_true, hskip]
    exact Nat.add_comm _ 1

/-- `END` closes a level. -/
theorem scan_end {depth : Nat} (hb : Loose b t)
    (hcase : keywordAt "CASE" before (b :: t) = false)
    (h : keywordAt "END" before (b :: t) = true) :
    scan depth before (b :: t) = b :: scan (depth - 1) (some b) t := by
  match depth with
  | 0 => exact hb.negateFrom hcase
  | 1 =>
    obtain ⟨hword, u, r, rfl, hlen, hletters⟩ := exists_keyword_letters (n := 2) (by decide) rfl h
    have hlength : copied 1 before (b :: (u ++ r)) = (b :: u).length + 0 := by
      show lengthToEnd 1 0 before (b :: (u ++ r)) = _
      rw [lengthToEnd]
      simp only [quotedLength_of_closer? hb.unquoted, hcase, h, Bool.false_eq_true, if_false,
        if_true, List.length_cons, hlen, Nat.le_refl]
    have hscan : scan 1 before (b :: u ++ r) = b :: u ++ scan 0 (lastByte before (b :: u)) r :=
      scan_append hlength
    show scan 1 before (b :: u ++ r) = b :: negateFrom 0 (some b) (u ++ r)
    rw [hscan, scan_zero, negateFrom_letters hword hletters, List.cons_append, lastByte]
  | depth + 2 =>
    have hskip := lengthToEnd_keyword (n := 2) (by decide) rfl h
    refine scan_append (q := [b]) ?_
    show lengthToEnd (depth + 2) 0 before (b :: t) = 1 + lengthToEnd (depth + 1) 0 (some b) t
    rw [lengthToEnd]
    simp only [quotedLength_of_closer? hb.unquoted, hcase, h, Bool.false_eq_true, if_false,
      if_true, hskip]
    rw [if_neg (by omega), Nat.add_comm]
    rfl

theorem scan_byte (depth : Nat) (hb : Loose b t) :
    scan depth before (b :: t) = b :: scan (nextDepth depth before (b :: t)) (some b) t := by
  rw [nextDepth]
  split
  · rename_i h
    exact scan_case hb.unquoted h
  · rename_i hcase
    rw [Bool.not_eq_true] at hcase
    split
    · rename_i h
      exact scan_end hb hcase h
    · rename_i hend
      rw [Bool.not_eq_true] at hend
      cases depth with
      | zero => exact hb.negateFrom hcase
      | succ depth =>
        exact scan_append (q := [b]) (lengthToEnd_plain (depth + 1) hb.unquoted hcase hend)

theorem scan_quoted (depth : Nat) (hq : q ≠ []) (hl : quotedLength (q ++ t) = q.length) :
    scan depth before (q ++ t) = q ++ scan depth (lastByte before q) t := by
  cases depth with
  | zero => exact (runs_quoted hq hl).negateFrom negating_tokens negating_tokens
  | succ depth =>
    have hr : Runs [] [] before q t := runs_quoted hq hl
    exact scan_append (hr.lengthToEnd (Nat.le_add_left 1 depth))

theorem scan_token (depth : Nat) {x : Text × Text} (hx : x ∈ negations) (ha : Apart t) :
    scan depth before (x.1 ++ t) =
      (if depth = 0 then x.2 else x.1) ++ scan depth (some 32) t := by
  cases depth with
  | zero => exact negateFrom_token hx ha
  | succ depth =>
    have hall : ∀ x ∈ negations, isPlain [] none x.1 [] = true ∧ x.1 = x.1.dropLast ++ [32] := by
      decide
    obtain ⟨hplain, hlast⟩ := hall x hx
    have hr : Runs [] [] before x.1 t := runs_plain hplain
    have hbefore : lastByte before x.1 = some 32 := by
      rw [hlast, lastByte_append]
      rfl
    rw [if_neg (Nat.succ_ne_zero depth), ← hbefore]
    exact scan_append (hr.lengthToEnd (Nat.le_add_left 1 depth))

/-- A word that starts a text starts every text that goes on from it. -/
theorem startsWithWord_mono (h : startsWithWord word (t ++ rest) = false) :
    startsWithWord word t = false := by
  rw [Bool.eq_false_iff] at h ⊢
  refine fun hs => h ?_
  simp only [startsWithWord, Bool.and_eq_true, decide_eq_true_eq] at hs ⊢
  rw [List.take_append_of_le_length hs.1, List.length_append]
  exact ⟨by omega, hs.2⟩

theorem Apart.of_append (h : Apart (t ++ rest)) : Apart t :=
  fun k hk => startsWithWord_mono (h k hk)

/-- **Negation makes of a text what the relation says.** -/
theorem Rewrites.scan_eq {depth : Nat} (h : Rewrites rest depth before t u) :
    scan depth before t = u := by
  induction h with
  | @nil depth before =>
    cases depth with
    | zero => rfl
    | succ depth => rfl
  | @byte depth before b t u hb _ ih =>
    rw [scan_byte depth ⟨hb.unquoted, fun h => (hb.noToken h).of_append⟩, ih]
  | @quoted depth before q t u hq hl _ ih =>
    have hl' : quotedLength (q ++ t) = q.length := by
      refine quotedLength_congr hq hl fun b hb => ?_
      obtain ⟨t, rfl⟩ := List.head?_eq_some_iff.mp hb
      rfl
    rw [scan_quoted depth hq hl', ih]
  | token hx ha _ ih => rw [scan_token _ hx ha.of_append, ih]

namespace Woven

/-- The text that negation makes of a woven text. -/
theorem rewrites (h : Woven t rest) : Rewrites rest 0 none t (Sql.negate t) := by
  obtain ⟨u, hu⟩ := h.exists_rewrites 0 none
  have hnegate : Sql.negate t = u := hu.scan_eq
  rwa [hnegate]

theorem negate (h : Woven t rest) : Woven (Sql.negate t) rest := h.rewrites.symm.woven

/-- **Negation undoes itself on woven texts.** -/
theorem negate_negate (h : Woven t rest) : Sql.negate (Sql.negate t) = t := h.rewrites.symm.scan_eq

end Woven

end QueryTree.Sql
