import QueryTree.Proofs.Formula
import QueryTree.Sql.Negation

/-!
# Reading conditions

A condition text is read the way SQL reads it. Quoted segments, groups in parentheses and
`CASE ... END` are units that nothing is looked for in. Outside of them the text is split at `OR`
first and then at `AND`, so that `AND` binds tighter; what remains is a group, whose content is read
in turn, or an atom. `AND` and `OR` are recognised in any case.

What scanners find in a text depends on what stands before and after it. `Runs before t rest` says
that `t`, between the byte `before` and the text `rest`, is made of plain bytes, quoted segments and
whole units, so that every scanner gets through it: the one that looks for the end of a `CASE`, the
one that looks for the end of a group, the one that splits and the one that negates.

## Main definitions

* `Sql.groupLength`, `Sql.split?`, `Sql.read`: the reader
* `Sql.Runs`: the texts that scanners get through

## Main results

* `Sql.Runs.lengthToEnd`, `Sql.Runs.lengthToParen`, `Sql.Runs.splitFrom`, `Sql.Runs.negateFrom`
-/

namespace QueryTree.Sql

/-! ### The reader -/

/-- The number of bytes to the end of the group that is `depth` levels deep; all of them if it does
not end. The first `skip` bytes belong to what was found before. -/
def lengthToParen : (depth skip : Nat) → Text → Nat
  | _, _, [] => 0
  | depth, skip + 1, _ :: rest => lengthToParen depth skip rest + 1
  | depth, 0, b :: rest =>
    match quotedLength (b :: rest) with
    | n + 1 => lengthToParen depth n rest + 1
    | 0 =>
      if b = byte '(' then lengthToParen (depth + 1) 0 rest + 1
      else if b = byte ')' then
        if depth ≤ 1 then 1 else lengthToParen (depth - 1) 0 rest + 1
      else lengthToParen depth 0 rest + 1

/-- The length of the group at the start of a text; zero if none starts there. -/
def groupLength : Text → Nat
  | [] => 0
  | b :: rest => if b = byte '(' then lengthToParen 1 0 rest + 1 else 0

/-- The length of the unit at the start of a text; zero if none starts there. -/
def unitLength (before : Option UInt8) (t : Text) : Nat :=
  match quotedLength t with
  | n + 1 => n + 1
  | 0 =>
    match caseLength before t with
    | n + 1 => n + 1
    | 0 => groupLength t

/-- The texts before and after the first token that is not inside of a unit. -/
def splitFrom (token : Text) : (skip : Nat) → (before : Option UInt8) → Text → Option (Text × Text)
  | _, _, [] => none
  | skip + 1, _, b :: rest => (splitFrom token skip (some b) rest).map fun (l, r) => (b :: l, r)
  | 0, before, b :: rest =>
    match unitLength before (b :: rest) with
    | n + 1 => (splitFrom token n (some b) rest).map fun (l, r) => (b :: l, r)
    | 0 =>
      if startsWithWord token (b :: rest) then some ([], (b :: rest).drop token.length)
      else (splitFrom token 0 (some b) rest).map fun (l, r) => (b :: l, r)

/-- The texts before and after the first token of a condition, if there is one. -/
def split? (token t : Text) : Option (Text × Text) := splitFrom token 0 none t

/-- What a condition says, read at most `fuel` levels deep. -/
def readTo : (fuel : Nat) → Text → Formula
  | 0, t => .atom t
  | fuel + 1, t =>
    match split? " OR " t with
    | some (l, r) => .or (readTo fuel l) (readTo fuel r)
    | none =>
      match split? " AND " t with
      | some (l, r) => .and (readTo fuel l) (readTo fuel r)
      | none =>
        if groupLength t = t.length then .group (readTo fuel (t.tail.dropLast))
        else .atom t

/-- What a condition says. Every level of the formula takes a byte at least. -/
def read (t : Text) : Formula := readTo t.length t

/-- Whether a condition holds where `v` says which atoms do. No text is no condition. -/
def holds (v : Text → Bool) (t : Text) : Bool := t.isEmpty || (read t).holds v

example : read "a = 1 OR (b = ' OR ' OR c IS NULL) AND d IN (1,2)" =
    .or (.atom "a = 1") (.and (.group (.or (.atom "b = ' OR '") (.atom "c IS NULL")))
      (.atom "d IN (1,2)")) := by
  decide

/-! ### Texts that scanners get through -/

/-- The byte before what follows a text. -/
def lastByte (before : Option UInt8) : Text → Option UInt8
  | [] => before
  | b :: t => lastByte (some b) t

-- The equations of the scanners, by which all proofs below go.
attribute [local grind =] lengthToEnd lengthToCloser quotedLength keywordAt startsWithWord
  opensWord isIdentByte caseLength negationStep negateFrom lengthToParen groupLength unitLength
  splitFrom lastByte closer? negationAt?

theorem lastByte_append (before : Option UInt8) (a b : Text) :
    lastByte before (a ++ b) = lastByte (lastByte before a) b := by
  induction a generalizing before with
  | nil => rfl
  | cons x a ih => exact ih (some x)

/-- At the byte `b` starts neither a unit nor a keyword nor one of the tokens `K`. -/
structure PlainAt (K : List Text) (before : Option UInt8) (b : UInt8) (rest : Text) : Prop where
  unquoted : closer? b = none
  notOpen : b ≠ byte '('
  notClose : b ≠ byte ')'
  notCase : keywordAt "CASE" before (b :: rest) = false
  notEnd : keywordAt "END" before (b :: rest) = false
  noToken : ∀ k ∈ K, startsWithWord k (b :: rest) = false

/-- The text between the byte `before` and the text that follows it consists of plain bytes and of
units. None of the tokens `K` starts in it outside of units, and none of the tokens `I` inside of
groups. -/
inductive Runs : (K I : List Text) → Option UInt8 → Text → Text → Prop
  | nil {K I : List Text} {before : Option UInt8} {rest : Text} : Runs K I before [] rest
  | plain {K I : List Text} {before : Option UInt8} {b : UInt8} {t rest : Text}
    (hb : PlainAt K before b (t ++ rest)) (h : Runs K I (some b) t rest) :
    Runs K I before (b :: t) rest
  | quoted {K I : List Text} {before : Option UInt8} {q t rest : Text} (hq : q ≠ [])
    (hl : quotedLength (q ++ (t ++ rest)) = q.length) (h : Runs K I (lastByte before q) t rest) :
    Runs K I before (q ++ t) rest
  | group {K I : List Text} {before : Option UInt8} {c t rest : Text}
    (hc : Runs I I (some (byte '(')) c (byte ')' :: (t ++ rest)))
    (h : Runs K I (some (byte ')')) t rest) :
    Runs K I before (byte '(' :: (c ++ byte ')' :: t)) rest
  | choice {K I : List Text} {before : Option UInt8} {c t rest : Text}
    (hcase : keywordAt "CASE" before ("CASE" ++ (c ++ ("END" ++ (t ++ rest)))) = true)
    (hc : Runs [] [] (lastByte before "CASE") c ("END" ++ (t ++ rest)))
    (hend : keywordAt "END" (lastByte (lastByte before "CASE") c) ("END" ++ (t ++ rest)) = true)
    (h : Runs K I (lastByte none "END") t rest) :
    Runs K I before ("CASE" ++ (c ++ ("END" ++ t))) rest

variable {K I : List Text} {before : Option UInt8} {t rest : Text}

namespace Runs

theorem append {u : Text} (h : Runs K I before t (u ++ rest))
    (hu : Runs K I (lastByte before t) u rest) : Runs K I before (t ++ u) rest := by
  generalize hr : u ++ rest = r at h
  induction h with
  | nil => exact hu
  | plain hb _ ih =>
    subst hr
    exact .plain (by simpa using hb) (ih hu rfl)
  | quoted hq hl _ ih =>
    subst hr
    rw [lastByte_append] at hu
    simpa using quoted hq (by simpa using hl) (ih hu rfl)
  | group hc _ _ ih =>
    subst hr
    simp only [lastByte, lastByte_append] at hu
    simpa using group (by simpa using hc) (ih hu rfl)
  | choice hcase hc hend _ _ ih =>
    subst hr
    simp only [lastByte_append] at hu
    have hu' := ih hu rfl
    simpa using choice (by simpa using hcase) (by simpa using hc) (by simpa using hend) hu'

/-- Fewer tokens start in the text. -/
theorem mono {K' I' : List Text} (h : Runs K I before t rest) (hK : K' ⊆ K) (hI : I' ⊆ I) :
    Runs K' I' before t rest := by
  induction h generalizing K' I' with
  | nil => exact .nil
  | plain hb _ ih =>
    exact .plain ⟨hb.unquoted, hb.notOpen, hb.notClose, hb.notCase, hb.notEnd,
      fun k hk => hb.noToken k (hK hk)⟩ (ih hK hI)
  | quoted hq hl _ ih => exact .quoted hq hl (ih hK hI)
  | group _ _ ihc ih => exact .group (ihc hI hI) (ih hK hI)
  | choice hcase hc hend _ _ ih => exact .choice hcase hc hend (ih hK hI)

end Runs

/-! ### Words and texts that differ -/

/-- Whether a word and the start of a text differ, in any case, in a byte that both have. -/
def differ : Text → Text → Bool
  | a :: word, b :: t => Text.lowerByte a != Text.lowerByte b || differ word t
  | _, _ => false

attribute [local grind =] differ

theorem startsWithWord_of_differ {word : Text} (h : differ word t = true) (rest : Text) :
    startsWithWord word (t ++ rest) = false := by
  have hne : ∀ {word t : Text}, differ word t = true →
      ((t ++ rest).map Text.lowerByte).take word.length ≠ word.map Text.lowerByte := by
    intro word t h
    induction word generalizing t with
    | nil => simp [differ] at h
    | cons a word ih =>
      cases t with
      | nil => simp [differ] at h
      | cons b t =>
        simp only [differ, Bool.or_eq_true, bne_iff_ne] at h
        intro heq
        simp only [List.cons_append, List.map_cons, List.length_cons, List.take_succ_cons,
          List.cons.injEq] at heq
        rcases h with h | h
        · exact h heq.1.symm
        · exact ih h heq.2
  rw [Bool.eq_false_iff]
  intro hs
  simp only [startsWithWord, Bool.and_eq_true, Text.equalIgnoringCase, beq_iff_eq,
    List.map_take] at hs
  exact hne h hs.2

theorem keywordAt_of_differ {word : Text} (h : differ word t = true) (rest : Text)
    (before : Option UInt8) : keywordAt word before (t ++ rest) = false := by
  simp [keywordAt, startsWithWord_of_differ h rest]

/-- No keyword starts with a parenthesis. -/
theorem keywordAt_paren {b : UInt8} (h : b = byte '(' ∨ b = byte ')') :
    keywordAt "CASE" before (b :: t) = false ∧ keywordAt "END" before (b :: t) = false := by
  rcases h with rfl | rfl
  · exact ⟨keywordAt_of_differ (t := [byte '(']) (by decide) t before,
      keywordAt_of_differ (t := [byte '(']) (by decide) t before⟩
  · exact ⟨keywordAt_of_differ (t := [byte ')']) (by decide) t before,
      keywordAt_of_differ (t := [byte ')']) (by decide) t before⟩

theorem quotedLength_of_closer? {b : UInt8} (h : closer? b = none) (t : Text) :
    quotedLength (b :: t) = 0 := by
  simp [quotedLength, h]

/-! ### The end of a `CASE` -/

theorem lengthToEnd_append (depth : Nat) (before : Option UInt8) (q t : Text) :
    lengthToEnd depth q.length before (q ++ t) =
      q.length + lengthToEnd depth 0 (lastByte before q) t := by
  induction q generalizing before with
  | nil => simp [lastByte]
  | cons b q ih =>
    rw [List.cons_append, List.length_cons, lengthToEnd, ih, lastByte]
    omega

/-- The keyword `CASE` opens a level. -/
theorem lengthToEnd_case {depth : Nat} (h : keywordAt "CASE" before ("CASE" ++ t) = true) :
    lengthToEnd depth 0 before ("CASE" ++ t) =
      4 + lengthToEnd (depth + 1) 0 (lastByte before "CASE") t := by
  have hskip := lengthToEnd_append (depth + 1) (some (byte 'C')) "ASE" t
  show lengthToEnd depth 0 before (byte 'C' :: ("ASE" ++ t)) = _
  rw [lengthToEnd]
  have hq : quotedLength (byte 'C' :: ("ASE" ++ t)) = 0 := rfl
  have hk : keywordAt "CASE" before (byte 'C' :: ("ASE" ++ t)) = true := h
  simp only [hq, hk, if_true]
  refine (congrArg (· + 1) hskip).trans ?_
  show 3 + lengthToEnd (depth + 1) 0 (lastByte before "CASE") t + 1 = _
  omega

/-- The keyword `END` closes a level. -/
theorem lengthToEnd_end {depth : Nat} (h : keywordAt "END" before ("END" ++ t) = true) :
    lengthToEnd depth 0 before ("END" ++ t) =
      if depth ≤ 1 then 3 else 3 + lengthToEnd (depth - 1) 0 (lastByte before "END") t := by
  have hskip := lengthToEnd_append (depth - 1) (some (byte 'E')) "ND" t
  show lengthToEnd depth 0 before (byte 'E' :: ("ND" ++ t)) = _
  rw [lengthToEnd]
  have hq : quotedLength (byte 'E' :: ("ND" ++ t)) = 0 := rfl
  have hc : keywordAt "CASE" before ("END" ++ t) = false :=
    keywordAt_of_differ (by decide) t before
  have hc : keywordAt "CASE" before (byte 'E' :: ("ND" ++ t)) = false := hc
  have hk : keywordAt "END" before (byte 'E' :: ("ND" ++ t)) = true := h
  simp only [hq, hc, hk, Bool.false_eq_true, if_false, if_true]
  split
  · rfl
  · refine (congrArg (· + 1) hskip).trans ?_
    show 2 + lengthToEnd (depth - 1) 0 (lastByte before "END") t + 1 = _
    omega

theorem lengthToEnd_plain {b : UInt8} (depth : Nat) (hb : closer? b = none)
    (hcase : keywordAt "CASE" before (b :: t) = false)
    (hend : keywordAt "END" before (b :: t) = false) :
    lengthToEnd depth 0 before (b :: t) = 1 + lengthToEnd depth 0 (some b) t := by
  rw [lengthToEnd]
  simp only [quotedLength_of_closer? hb, hcase, hend, Bool.false_eq_true, if_false]
  omega

/-- What is looked for behind the text is what is looked for at its start. -/
theorem Runs.lengthToEnd (h : Runs K I before t rest) {depth : Nat} (hd : 1 ≤ depth) :
    lengthToEnd depth 0 before (t ++ rest) =
      t.length + lengthToEnd depth 0 (lastByte before t) rest := by
  induction h generalizing depth with
  | nil => simp [lastByte]
  | plain hb _ ih =>
    rw [List.cons_append, lengthToEnd_plain depth hb.unquoted hb.notCase hb.notEnd, ih hd, lastByte,
      List.length_cons]
    omega
  | @quoted K I before q t rest hq hl _ ih =>
    obtain ⟨b, q, rfl⟩ := List.exists_cons_of_ne_nil hq
    simp only [List.cons_append, List.length_cons, List.append_assoc, lastByte] at hl ih ⊢
    rw [Sql.lengthToEnd]
    simp only [hl]
    rw [lengthToEnd_append, ih hd, lastByte_append, List.length_append]
    omega
  | @group K I before c t rest _ _ ihc ih =>
    simp only [List.cons_append, List.append_assoc, lastByte, lastByte_append, List.length_cons,
      List.length_append]
    rw [lengthToEnd_plain depth rfl (keywordAt_paren (.inl rfl)).1 (keywordAt_paren (.inl rfl)).2,
      ihc hd, lengthToEnd_plain depth rfl (keywordAt_paren (.inr rfl)).1
      (keywordAt_paren (.inr rfl)).2, ih hd]
    omega
  | @choice K I before c t rest hcase _ hend _ ihc ih =>
    simp only [List.append_assoc, lastByte_append, List.length_append]
    rw [lengthToEnd_case hcase, ihc (by omega), lengthToEnd_end hend, if_neg (by omega),
      Nat.add_sub_cancel, show lastByte (lastByte (lastByte before "CASE") c) "END" =
        lastByte none "END" from rfl, ih hd, show (Text.ofString "CASE").length = 4 from rfl,
      show (Text.ofString "END").length = 3 from rfl]
    omega

/-- A `CASE` expression is found whole. -/
theorem caseLength_choice {c : Text}
    (hcase : keywordAt "CASE" before ("CASE" ++ (c ++ ("END" ++ t))) = true)
    (hc : Runs [] [] (lastByte before "CASE") c ("END" ++ t))
    (hend : keywordAt "END" (lastByte (lastByte before "CASE") c) ("END" ++ t) = true) :
    caseLength before ("CASE" ++ (c ++ ("END" ++ t))) = c.length + 7 := by
  rw [caseLength, if_pos hcase]
  refine (lengthToEnd_append 1 before "CASE" _).trans ?_
  rw [hc.lengthToEnd (Nat.le_refl 1), lengthToEnd_end hend, if_pos (Nat.le_refl 1),
    show (Text.ofString "CASE").length = 4 from rfl]
  omega

theorem caseLength_of_not_keyword (h : keywordAt "CASE" before t = false) :
    caseLength before t = 0 := by
  simp [caseLength, h]

/-! ### The end of a group -/

theorem lengthToParen_append (depth : Nat) (q t : Text) :
    lengthToParen depth q.length (q ++ t) = q.length + lengthToParen depth 0 t := by
  induction q with
  | nil => simp
  | cons b q ih =>
    rw [List.cons_append, List.length_cons, lengthToParen, ih]
    omega

theorem lengthToParen_plain {b : UInt8} (depth : Nat) (hb : closer? b = none) (ho : b ≠ byte '(')
    (hc : b ≠ byte ')') : lengthToParen depth 0 (b :: t) = 1 + lengthToParen depth 0 t := by
  rw [lengthToParen]
  simp only [quotedLength_of_closer? hb, ho, hc, if_false]
  omega

theorem lengthToParen_open (depth : Nat) (t : Text) :
    lengthToParen depth 0 (byte '(' :: t) = 1 + lengthToParen (depth + 1) 0 t := by
  rw [lengthToParen]
  simp only [quotedLength_of_closer? (b := byte '(') rfl, if_true]
  omega

theorem lengthToParen_close (depth : Nat) (t : Text) :
    lengthToParen depth 0 (byte ')' :: t) =
      if depth ≤ 1 then 1 else 1 + lengthToParen (depth - 1) 0 t := by
  rw [lengthToParen]
  simp only [quotedLength_of_closer? (b := byte ')') rfl,
    show (byte ')' = byte '(') = False from eq_false (by decide), if_false, if_true]
  split
  · rfl
  · omega

/-- A text without parentheses and quotes is passed over. -/
theorem lengthToParen_word (depth : Nat) {w : Text}
    (h : w.all (fun b => closer? b = none ∧ b ≠ byte '(' ∧ b ≠ byte ')') = true) (t : Text) :
    lengthToParen depth 0 (w ++ t) = w.length + lengthToParen depth 0 t := by
  induction w with
  | nil => simp
  | cons b w ih =>
    rw [List.all_cons, Bool.and_eq_true, decide_eq_true_eq] at h
    obtain ⟨⟨hb, ho, hc⟩, h⟩ := h
    rw [List.cons_append, lengthToParen_plain depth hb ho hc, ih h, List.length_cons]
    omega

theorem Runs.lengthToParen (h : Runs K I before t rest) {depth : Nat} (hd : 1 ≤ depth) :
    lengthToParen depth 0 (t ++ rest) = t.length + lengthToParen depth 0 rest := by
  induction h generalizing depth with
  | nil => simp
  | plain hb _ ih =>
    rw [List.cons_append, lengthToParen_plain depth hb.unquoted hb.notOpen hb.notClose, ih hd,
      List.length_cons]
    omega
  | @quoted K I before q t rest hq hl _ ih =>
    obtain ⟨b, q, rfl⟩ := List.exists_cons_of_ne_nil hq
    simp only [List.cons_append, List.length_cons, List.append_assoc] at hl ⊢
    rw [Sql.lengthToParen]
    simp only [hl]
    rw [lengthToParen_append, ih hd, List.length_append]
    omega
  | @group K I before c t rest _ _ ihc ih =>
    simp only [List.cons_append, List.append_assoc, List.length_cons, List.length_append]
    rw [lengthToParen_open, ihc (by omega), lengthToParen_close, if_neg (by omega),
      Nat.add_sub_cancel, ih hd]
    omega
  | @choice K I before c t rest _ _ _ _ ihc ih =>
    simp only [List.append_assoc, List.length_append]
    rw [lengthToParen_word depth (by decide), ihc hd, lengthToParen_word depth (by decide), ih hd]
    omega

/-- A group is found whole. -/
theorem groupLength_group {c : Text} (hc : Runs K I before c (byte ')' :: t)) :
    groupLength (byte '(' :: (c ++ byte ')' :: t)) = c.length + 2 := by
  rw [groupLength, if_pos rfl, hc.lengthToParen (Nat.le_refl 1), lengthToParen_close,
    if_pos (Nat.le_refl 1)]

theorem groupLength_of_ne {b : UInt8} (h : b ≠ byte '(') (t : Text) : groupLength (b :: t) = 0 :=
  if_neg h

/-- A text that more follows is not one group with it. -/
theorem Runs.groupLength_ne {b : UInt8} (h : Runs K I before t (b :: rest)) (hb : b ≠ byte '(') :
    groupLength (t ++ b :: rest) ≠ (t ++ b :: rest).length := by
  cases h with
  | nil =>
    rw [List.nil_append, groupLength_of_ne hb]
    exact Nat.zero_ne_add_one _
  | plain hp =>
    rw [List.cons_append, groupLength_of_ne hp.notOpen]
    exact Nat.zero_ne_add_one _
  | @quoted _ _ _ q t _ hq hl =>
    obtain ⟨o, q, rfl⟩ := List.exists_cons_of_ne_nil hq
    have ho : o ≠ byte '(' := by
      rintro rfl
      cases hl
    rw [List.cons_append, List.cons_append, groupLength_of_ne ho]
    exact Nat.zero_ne_add_one _
  | group hc =>
    simp only [List.cons_append, List.append_assoc, groupLength_group hc, List.length_cons,
      List.length_append]
    omega
  | @choice _ _ _ c t _ =>
    have hzero : groupLength (("CASE" : Text) ++ (c ++ ("END" ++ t)) ++ b :: rest) = 0 := rfl
    rw [hzero, List.append_assoc]
    exact Nat.zero_ne_add_one _

/-! ### Splitting -/

theorem splitFrom_append (token : Text) (before : Option UInt8) (q t : Text) :
    splitFrom token q.length before (q ++ t) =
      (splitFrom token 0 (lastByte before q) t).map fun p => (q ++ p.1, p.2) := by
  induction q generalizing before with
  | nil => simp [lastByte]
  | cons b q ih =>
    rw [List.cons_append, List.length_cons, splitFrom, ih, Option.map_map, lastByte]
    rfl

theorem splitFrom_unit {u : Text} (token : Text) (hu : u ≠ [])
    (h : unitLength before (u ++ t) = u.length) : splitFrom token 0 before (u ++ t) =
      (splitFrom token 0 (lastByte before u) t).map fun p => (u ++ p.1, p.2) := by
  obtain ⟨b, u, rfl⟩ := List.exists_cons_of_ne_nil hu
  rw [List.cons_append, splitFrom, ← List.cons_append, h]
  simp only [List.length_cons]
  rw [splitFrom_append, Option.map_map, lastByte]
  rfl

theorem unitLength_plain {b : UInt8} (h : PlainAt K before b t) :
    unitLength before (b :: t) = 0 := by
  simp only [unitLength, quotedLength_of_closer? h.unquoted, caseLength_of_not_keyword h.notCase,
    groupLength, if_neg h.notOpen]

/-- No token is found in the text. -/
theorem Runs.splitFrom {token : Text} (h : Runs K I before t rest) (htoken : token ∈ K) :
    splitFrom token 0 before (t ++ rest) =
      (splitFrom token 0 (lastByte before t) rest).map fun p => (t ++ p.1, p.2) := by
  induction h with
  | nil => simp [lastByte]
  | plain hb _ ih =>
    rw [List.cons_append, Sql.splitFrom]
    simp only [unitLength_plain hb, hb.noToken token htoken, Bool.false_eq_true, if_false]
    rw [ih htoken, Option.map_map, lastByte]
    rfl
  | @quoted K I before q t rest hq hl _ ih =>
    have hunit : unitLength before (q ++ (t ++ rest)) = q.length := by
      obtain ⟨n, hn⟩ := Nat.exists_eq_succ_of_ne_zero (fun h => hq (List.length_eq_zero_iff.mp h))
      rw [unitLength, hl, hn]
    rw [List.append_assoc, splitFrom_unit token hq hunit, ih htoken, Option.map_map,
      lastByte_append]
    simp [Function.comp_def]
  | @group K I before c t rest hc _ _ ih =>
    have hunit : unitLength before ((byte '(' :: (c ++ [byte ')'])) ++ (t ++ rest)) =
        (byte '(' :: (c ++ [byte ')'])).length := by
      simp only [List.cons_append, List.append_assoc, List.nil_append, List.length_cons,
        List.length_append, List.length_nil, unitLength,
        quotedLength_of_closer? (b := byte '(') rfl,
        caseLength_of_not_keyword (keywordAt_paren (.inl rfl)).1, groupLength_group hc]
    have hsplit := splitFrom_unit token (List.cons_ne_nil _ _) hunit
    simp only [List.cons_append, List.append_assoc, List.nil_append, lastByte,
      lastByte_append] at hsplit ⊢
    rw [hsplit, ih htoken, Option.map_map]
    simp [Function.comp_def]
  | @choice K I before c t rest hcase hc hend _ _ ih =>
    have hunit : unitLength before (("CASE" ++ (c ++ "END")) ++ (t ++ rest)) =
        (("CASE" : Text) ++ (c ++ "END")).length := by
      have hquoted : quotedLength ("CASE" ++ (c ++ ("END" ++ (t ++ rest)))) = 0 := rfl
      simp only [List.append_assoc, unitLength, hquoted, caseLength_choice hcase hc hend,
        List.length_append, show (Text.ofString "CASE").length = 4 from rfl,
        show (Text.ofString "END").length = 3 from rfl]
      omega
    have hsplit := splitFrom_unit token (List.append_ne_nil_of_left_ne_nil (by decide) _) hunit
    simp only [List.append_assoc, lastByte_append] at hsplit ⊢
    rw [hsplit, show lastByte (lastByte (lastByte before "CASE") c) "END" = lastByte none "END"
      from rfl, ih htoken, Option.map_map]
    simp [Function.comp_def]

/-- Whether a token begins with a blank or with a comma, which begin no unit. -/
def isGap (token : Text) : Bool := token.head?.any fun b => b == 32 || b == byte ','

/-- The token that is looked for is found. -/
theorem splitFrom_token {token : Text} (ht : isGap token = true) :
    splitFrom token 0 before (token ++ t) = some ([], t) := by
  obtain ⟨b, u, rfl, hb⟩ : ∃ b u, token = b :: u ∧ (b = 32 ∨ b = byte ',') := by
    cases token with
    | nil => cases ht
    | cons b u => exact ⟨b, u, rfl, by simpa [isGap] using ht⟩
  have hunit : ∀ u : Text, unitLength before (b :: u) = 0 := fun u => by
    have hcase : keywordAt "CASE" before (b :: u) = false :=
      keywordAt_of_differ (t := [b]) (by rcases hb with rfl | rfl <;> decide) u before
    have hquoted : closer? b = none := by rcases hb with rfl | rfl <;> rfl
    have hopen : b ≠ byte '(' := by rcases hb with rfl | rfl <;> decide
    simp only [unitLength, quotedLength_of_closer? hquoted, caseLength_of_not_keyword hcase,
      groupLength, if_neg hopen]
  have hstart : startsWithWord (b :: u) (b :: u ++ t) = true := by
    simp [startsWithWord, Text.equalIgnoringCase]
  rw [List.cons_append, splitFrom, hunit, ← List.cons_append]
  simp only [hstart, if_true, List.drop_left]

/-- No token is found where none starts outside of units. -/
theorem split?_eq_none {token : Text} (h : Runs K [] none t []) (ht : token ∈ K) :
    split? token t = none := by
  have hs := h.splitFrom ht
  rw [List.append_nil] at hs
  rw [split?, hs]
  rfl

/-- The first token is found. -/
theorem split?_eq_some {token a b : Text} (h : Runs K [] none a (token ++ b)) (ht : token ∈ K)
    (htoken : isGap token = true) : split? token (a ++ token ++ b) = some (a, b) := by
  rw [split?, List.append_assoc, h.splitFrom ht, splitFrom_token htoken]
  simp

/-! ### Negating -/

theorem negateFrom_append (before : Option UInt8) (q t : Text) :
    negateFrom q.length before (q ++ t) = negateFrom 0 (lastByte before q) t := by
  induction q generalizing before with
  | nil => rfl
  | cons b q ih => exact ih (some b)

theorem negateFrom_step {u w : Text} (hu : u ≠ [])
    (h : negationStep before (u ++ t) = (u.length, w)) :
    negateFrom 0 before (u ++ t) = w ++ negateFrom 0 (lastByte before u) t := by
  obtain ⟨b, u, rfl⟩ := List.exists_cons_of_ne_nil hu
  rw [List.cons_append, negateFrom, ← List.cons_append, h]
  simp only [List.length_cons, Nat.add_sub_cancel]
  rw [negateFrom_append, lastByte]

/-- Every token that is negated is among the tokens. -/
def Negating (K : List Text) : Prop := ∀ x ∈ negations, x.1 ∈ K

theorem negationAt?_eq_none (hK : Negating K) (h : ∀ k ∈ K, startsWithWord k t = false) :
    negationAt? t = none := by
  rw [negationAt?, List.find?_eq_none]
  rintro ⟨token, complement⟩ hx
  simp [h token (hK _ hx)]

theorem negationStep_plain {b : UInt8} (hb : closer? b = none)
    (hcase : keywordAt "CASE" before (b :: t) = false) (hn : negationAt? (b :: t) = none) :
    negationStep before ([b] ++ t) = ([b].length, [b]) := by
  simp only [List.cons_append, List.nil_append, negationStep, quotedLength_of_closer? hb,
    caseLength_of_not_keyword hcase, hn]
  rfl

/-- No token starts with a parenthesis. -/
theorem negationStep_paren {b : UInt8} (h : b = byte '(' ∨ b = byte ')') :
    negationStep before ([b] ++ t) = ([b].length, [b]) := by
  refine negationStep_plain ?_ (keywordAt_paren h).1 ?_
  · rcases h with rfl | rfl <;> rfl
  · rw [negationAt?, List.find?_eq_none]
    have hdiffer : ∀ x ∈ negations, differ x.1 [b] = true := by
      rcases h with rfl | rfl <;> decide
    intro x hx
    have hno : startsWithWord x.1 (b :: t) = false := startsWithWord_of_differ (hdiffer x hx) t
    simp [hno]

theorem negateFrom_paren {b : UInt8} (h : b = byte '(' ∨ b = byte ')') :
    negateFrom 0 before (b :: t) = b :: negateFrom 0 (some b) t :=
  negateFrom_step (List.cons_ne_nil b []) (negationStep_paren h)

/-- The text is copied unchanged. -/
theorem Runs.negateFrom (h : Runs K I before t rest) (hK : Negating K) (hI : Negating I) :
    negateFrom 0 before (t ++ rest) = t ++ negateFrom 0 (lastByte before t) rest := by
  induction h with
  | nil => rfl
  | @plain K I before b t rest hb _ ih =>
    have hn := negationAt?_eq_none hK hb.noToken
    have hstep := negateFrom_step (List.cons_ne_nil _ _)
      (negationStep_plain hb.unquoted hb.notCase hn)
    simp only [List.cons_append, List.nil_append, lastByte] at hstep ⊢
    rw [hstep, ih hK hI]
  | @quoted K I before q t rest hq hl _ ih =>
    have hstep : negationStep before (q ++ (t ++ rest)) = (q.length, q) := by
      obtain ⟨n, hn⟩ := Nat.exists_eq_succ_of_ne_zero (fun h => hq (List.length_eq_zero_iff.mp h))
      rw [negationStep, hl, hn]
      simp only
      rw [← Nat.succ_eq_add_one, ← hn, List.take_left]
    rw [List.append_assoc, negateFrom_step hq hstep, ih hK hI, lastByte_append, List.append_assoc]
  | @group K I before c t rest _ _ ihc ih =>
    simp only [List.cons_append, List.append_assoc, lastByte, lastByte_append]
    rw [negateFrom_paren (.inl rfl), ihc hI hI, negateFrom_paren (.inr rfl), ih hK hI]
  | @choice K I before c t rest hcase hc hend _ _ ih =>
    have hstep : negationStep before (("CASE" ++ (c ++ "END")) ++ (t ++ rest)) =
        (("CASE" ++ (c ++ "END") : Text).length, "CASE" ++ (c ++ "END")) := by
      have hquoted : quotedLength ("CASE" ++ (c ++ ("END" ++ (t ++ rest)))) = 0 := rfl
      have hlen : c.length + 7 = ("CASE" ++ (c ++ "END") : Text).length := by
        simp only [List.length_append, show (Text.ofString "CASE").length = 4 from rfl,
          show (Text.ofString "END").length = 3 from rfl]
        omega
      have hlength : caseLength before (("CASE" ++ (c ++ "END")) ++ (t ++ rest)) =
          ("CASE" ++ (c ++ "END") : Text).length := by
        rw [← hlen]
        simpa using caseLength_choice hcase hc hend
      have hquoted : quotedLength (("CASE" ++ (c ++ "END")) ++ (t ++ rest)) = 0 := by
        simpa using hquoted
      rw [negationStep, hquoted, hlength, ← hlen]
      simp only
      rw [hlen, List.take_left]
    have hneg := negateFrom_step (List.append_ne_nil_of_left_ne_nil (by decide) _) hstep
    simp only [List.append_assoc, lastByte_append] at hneg ⊢
    rw [hneg, show lastByte (lastByte (lastByte before "CASE") c) "END" = lastByte none "END"
      from rfl, ih hK hI]

end QueryTree.Sql
