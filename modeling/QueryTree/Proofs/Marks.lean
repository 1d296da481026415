import QueryTree.Proofs.Grammar
import QueryTree.Proofs.Rewriting

/-!
# The marks in a text

`Sql.marks` reads the marks of bound parameters off a text, from left to right and outside quoted
segments, and `Sql.signs` reads what is found at every byte there with which a mark or a quoted
segment could begin. A text is `Tidy` from `n` to `m` when the signs found in it are the marks of
the parameters `n + 1, …, m`, each once and in order, whatever follows it and does not continue it.

Tidiness is compositional: texts without any mark or quote are tidy from `n` to `n`, and two tidy
texts with a break between them are tidy together. So it follows for every text of the grammar, by
induction on the grammar. The one rule that is not compositional is negation, which rewrites a whole
text. It never looks into a mark or a quoted segment, though: `Sql.Swapped` describes what it may
change, and a swapped text has the same signs.

## Main definitions

* `Sql.markAt?`, `Sql.marks`, `Sql.signs`
* `Sql.Tidy`, `Sql.Closed`: texts whose marks are in order
* `Sql.Swapped`: texts that differ in tokens only

## Main results

* `Sql.swapped_negate`, `Sql.Swapped.signs_eq`: negation keeps the signs
-/

namespace QueryTree

namespace Sql

/-- The mark of a bound parameter at the start of a text. -/
def markAt? (p : Profile) (t : Text) : Option Text :=
  match p.marker with
  | .question => if t.head? = some (byte '?') then some "?" else none
  | .numbered lead =>
    let digits := (t.drop (Text.ofString lead).length).takeWhile Text.isDigitByte
    if t.hasPrefix lead && !digits.isEmpty then some (lead ++ digits) else none

/-- The marks of bound parameters in a text after its first `skip` bytes. -/
def marksFrom (p : Profile) : (skip : Nat) → Text → List Text
  | _, [] => []
  | skip + 1, _ :: rest => marksFrom p skip rest
  | 0, b :: rest =>
    match quotedLength (b :: rest) with
    | n + 1 => marksFrom p n rest
    | 0 => (markAt? p (b :: rest)).toList ++ marksFrom p 0 rest

/-- The marks of bound parameters in a text, from left to right and outside quoted segments. -/
def marks (p : Profile) (t : Text) : List Text := marksFrom p 0 t

/-! ### Inert texts -/

/-- Whether a byte begins neither a mark nor a quoted segment. -/
def isInert (b : UInt8) : Bool :=
  closer? b == none && !(b == byte '?' || b == byte '@' || b == byte '$' || b == byte ':')

/-- No byte of the text begins a mark or a quoted segment. -/
def Inert (t : Text) : Prop := ∀ b ∈ t, isInert b = true

instance (t : Text) : Decidable (Inert t) := List.decidableBAll (fun b => isInert b = true) t

theorem inert_append {a b : Text} : Inert (a ++ b) ↔ Inert a ∧ Inert b := by
  simp [Inert, or_imp, forall_and]

/-- The bytes that begin a mark or a quoted segment. -/
def leads : List UInt8 :=
  [39, byte '"', 96, byte '[', byte '?', byte '@', byte '$', byte ':']

theorem mem_leads_of_not_isInert {b : UInt8} (h : isInert b = false) : b ∈ leads := by
  simp only [isInert, closer?] at h
  simp only [leads, List.mem_cons]
  grind

/-- A test that fails at every byte that begins something finds inert bytes only. -/
theorem isInert_of_test {f : UInt8 → Bool} (hf : leads.all (fun b => !f b) = true) {b : UInt8}
    (hb : f b = true) : isInert b = true := by
  cases hi : isInert b with
  | true => rfl
  | false => exact absurd (mem_leads_of_not_isInert hi) (Text.not_mem_of_test hf hb)

theorem closer?_of_isInert {b : UInt8} (h : isInert b = true) : closer? b = none := by
  simp only [isInert, Bool.and_eq_true, beq_iff_eq] at h
  exact h.1

/-- How marks begin: with a question mark, or with a lead whose first byte begins nothing else. -/
theorem marker_cases (d : Dialect) : d.profile.marker = .question ∨
    ∃ (lead : String) (c : UInt8) (u : Text), d.profile.marker = .numbered lead ∧
      Text.ofString lead = c :: u ∧ isInert c = false ∧ closer? c = none ∧ Inert u ∧
      32 ∉ (c :: u) := by
  cases d
  case sqlServer => exact .inr ⟨"@p", 64, [112], rfl, by decide⟩
  case postgres => exact .inr ⟨"$", 36, [], rfl, by decide⟩
  case oracle => exact .inr ⟨":", 58, [], rfl, by decide⟩
  all_goals exact .inl rfl

theorem markAt?_of_isInert (d : Dialect) {b : UInt8} (h : isInert b = true) (t : Text) :
    markAt? d.profile (b :: t) = none := by
  rcases marker_cases d with hm | ⟨lead, c, u, hm, hlead, hc, -⟩
  · have hb : b ≠ byte '?' := by
      rintro rfl
      exact absurd h (by decide)
    simp only [markAt?, hm, List.head?_cons, Option.some.injEq, hb, if_false]
  · have hb : c ≠ b := by
      rintro rfl
      simp [hc] at h
    simp [markAt?, hm, hlead, Text.hasPrefix, hb]

/-! ### Signs -/

/-- What is found in a text after its first `skip` bytes at each byte that is not inert, outside
quoted segments: the mark that begins there, if one does. -/
def signsFrom (p : Profile) : (skip : Nat) → Text → List (Option Text)
  | _, [] => []
  | skip + 1, _ :: rest => signsFrom p skip rest
  | 0, b :: rest =>
    match quotedLength (b :: rest) with
    | n + 1 => signsFrom p n rest
    | 0 => (if isInert b then [] else [markAt? p (b :: rest)]) ++ signsFrom p 0 rest

/-- What is found in a text at each byte that is not inert, from left to right and outside quoted
segments. -/
def signs (p : Profile) (t : Text) : List (Option Text) := signsFrom p 0 t

attribute [local simp] signsFrom

variable {p : Profile}

theorem signs_nil : signs p [] = [] := rfl

theorem signsFrom_eq (p : Profile) (k : Nat) (t : Text) : signsFrom p k t = signs p (t.drop k) := by
  induction t generalizing k with
  | nil => cases k <;> rfl
  | cons b t ih =>
    cases k with
    | zero => rfl
    | succ k => simpa [signsFrom] using ih k

theorem signs_of_quoted {t : Text} {n : Nat} (h : quotedLength t = n + 1) :
    signs p t = signs p (t.drop (n + 1)) := by
  cases t with
  | nil => simp [quotedLength] at h
  | cons b t =>
    rw [signs, signsFrom]
    simp only [h]
    rw [signsFrom_eq]
    rfl

theorem signs_cons {b : UInt8} (hb : closer? b = none) (t : Text) :
    signs p (b :: t) = (if isInert b then [] else [markAt? p (b :: t)]) ++ signs p t := by
  have h : quotedLength (b :: t) = 0 := by simp [quotedLength, hb]
  rw [signs, signsFrom]
  simp only [h]
  rfl

/-- A quoted segment holds no sign. -/
theorem signs_quoted {q rest : Text} (hq : q ≠ []) (h : quotedLength (q ++ rest) = q.length) :
    signs p (q ++ rest) = signs p rest := by
  obtain ⟨n, hn⟩ : ∃ n, q.length = n + 1 := Nat.exists_eq_succ_of_ne_zero (by simpa using hq)
  rw [signs_of_quoted (h.trans hn), ← hn, List.drop_left]

/-- An inert text holds no sign and hides none. -/
theorem signs_inert {t : Text} (h : Inert t) (rest : Text) :
    signs p (t ++ rest) = signs p rest := by
  induction t with
  | nil => rfl
  | cons b t ih =>
    have hb := h b (by simp)
    rw [List.cons_append, signs_cons (closer?_of_isInert hb), if_pos hb,
      ih fun b hb => h b (by simp [hb])]
    rfl

/-- The marks are the signs at which one begins. -/
theorem marks_eq_filterMap (d : Dialect) (t : Text) :
    marks d.profile t = (signs d.profile t).filterMap id := by
  suffices ∀ k, marksFrom d.profile k t = (signsFrom d.profile k t).filterMap id from this 0
  induction t with
  | nil => intro k; cases k <;> rfl
  | cons b t ih =>
    intro k
    cases k with
    | succ k => exact ih k
    | zero =>
      rw [marksFrom, signsFrom]
      split
      · exact ih _
      · rw [ih, List.filterMap_append]
        congr 1
        split
        · rename_i hb
          rw [markAt?_of_isInert d hb]
          rfl
        · cases markAt? d.profile (b :: t) <;> rfl

/-! ### Tidy texts -/

/-- The marks of the bound parameters from `n + 1` to `m`. -/
def markRange (p : Profile) (n m : Nat) : List Text :=
  (List.range' n (m - n)).map fun i : Nat => p.placeholder (i + 1)

theorem markRange_self (p : Profile) (n : Nat) : markRange p n n = [] := by
  simp [markRange]

theorem markRange_append (p : Profile) {n k m : Nat} (h₁ : n ≤ k) (h₂ : k ≤ m) :
    markRange p n k ++ markRange p k m = markRange p n m := by
  obtain ⟨i, rfl⟩ := Nat.exists_eq_add_of_le h₁
  obtain ⟨j, rfl⟩ := Nat.exists_eq_add_of_le h₂
  have h := List.range'_append_1 (s := n) (m := i) (n := j)
  simp only [markRange, ← List.map_append]
  rw [show n + i + j - n = i + j by omega, show n + i - n = i by omega,
    show n + i + j - (n + i) = j by omega, h]

/-- The signs found in the text are the marks from `n + 1` to `m`, whatever follows the text. -/
structure Closed (d : Dialect) (n m : Nat) (t : Text) : Prop where
  le : n ≤ m
  signs_append : ∀ rest,
    signs d.profile (t ++ rest) = (markRange d.profile n m).map some ++ signs d.profile rest

/-- The signs found in the text are the marks from `n + 1` to `m`, whatever follows the text and
does not continue it. -/
structure Tidy (d : Dialect) (n m : Nat) (t : Text) : Prop where
  le : n ≤ m
  signs_append : ∀ rest, Fresh rest →
    signs d.profile (t ++ rest) = (markRange d.profile n m).map some ++ signs d.profile rest

variable {d : Dialect} {n k m : Nat} {a b w : Text}

theorem Closed.tidy (h : Closed d n m a) : Tidy d n m a := ⟨h.le, fun rest _ => h.signs_append rest⟩

theorem Tidy.signs_eq (h : Tidy d n m a) :
    signs d.profile a = (markRange d.profile n m).map some := by
  simpa [signs_nil] using h.signs_append [] fresh_nil

theorem Tidy.marks_eq (h : Tidy d n m a) : marks d.profile a = markRange d.profile n m := by
  rw [marks_eq_filterMap, h.signs_eq, List.filterMap_map]
  exact List.filterMap_some

theorem closed_of_inert (h : Inert w) : Closed d n n w :=
  ⟨Nat.le_refl n, fun rest => by
    rw [signs_inert h, markRange_self, List.map_nil, List.nil_append]⟩

theorem closed_nil : Closed d n n [] := closed_of_inert nofun

theorem Closed.append (ha : Closed d n k a) (hb : Closed d k m b) : Closed d n m (a ++ b) := by
  refine ⟨Nat.le_trans ha.le hb.le, fun rest => ?_⟩
  rw [List.append_assoc, ha.signs_append, hb.signs_append, ← List.append_assoc, ← List.map_append,
    markRange_append _ ha.le hb.le]

theorem Closed.append_tidy (ha : Closed d n k a) (hb : Tidy d k m b) : Tidy d n m (a ++ b) := by
  refine ⟨Nat.le_trans ha.le hb.le, fun rest hrest => ?_⟩
  rw [List.append_assoc, ha.signs_append, hb.signs_append _ hrest, ← List.append_assoc,
    ← List.map_append, markRange_append _ ha.le hb.le]

/-- Whether a text ends what stands before it and is inert. -/
def isBreak (w : Text) : Bool := w != [] && w.head?.all isFreshByte && w.all isInert

theorem isBreak_iff : isBreak w = true ↔ w ≠ [] ∧ Fresh w ∧ Inert w := by
  cases w <;> simp [isBreak, Fresh, Inert]

/-- A tidy text that a break ends may be followed by anything. -/
theorem Tidy.closed_append (ha : Tidy d n m a) (hw : isBreak w = true) : Closed d n m (a ++ w) := by
  obtain ⟨hne, hfresh, hinert⟩ := isBreak_iff.mp hw
  refine ⟨ha.le, fun rest => ?_⟩
  rw [List.append_assoc, ha.signs_append _ (hfresh.append_of_ne_nil hne rest), signs_inert hinert]

/-- Two tidy texts with a break between them are tidy. -/
theorem Tidy.join (ha : Tidy d n k a) (hw : isBreak w = true) (hb : Tidy d k m b) :
    Tidy d n m (a ++ w ++ b) :=
  (ha.closed_append hw).append_tidy hb

theorem Tidy.enclose (ha : Tidy d n m a) (hb : Inert b) (hw : isBreak w = true) :
    Closed d n m (b ++ a ++ w) := by
  rw [List.append_assoc]
  exact (closed_of_inert hb).append (ha.closed_append hw)

/-! ### Marks and names -/

theorem inert_of_digits {t : Text} (h : t.all Text.isDigitByte = true) : Inert t := by
  intro b hb
  exact isInert_of_test (by decide) (List.all_eq_true.mp h b hb)

theorem takeWhile_digits {t rest : Text} (h : t.all Text.isDigitByte = true) (hrest : Fresh rest) :
    (t ++ rest).takeWhile Text.isDigitByte = t := by
  have hr : rest.takeWhile Text.isDigitByte = [] := by
    cases rest with
    | nil => rfl
    | cons b rest =>
      have hb : Text.isDigitByte b = false := by
        have := fresh_cons.mp hrest
        simp only [isFreshByte, Bool.not_eq_true', Bool.or_eq_false_iff] at this
        exact this.1.1.1.1
      simp [hb]
  rw [List.takeWhile_append_of_pos (List.all_eq_true.mp h), hr, List.append_nil]

/-- A mark is found where it is written. -/
theorem tidy_placeholder (d : Dialect) (n : Nat) :
    Tidy d n (n + 1) (d.profile.placeholder (n + 1)) := by
  refine ⟨Nat.le_succ n, fun rest hrest => ?_⟩
  have hrange : markRange d.profile n (n + 1) = [d.profile.placeholder (n + 1)] := by
    simp [markRange]
  rw [hrange, List.map_singleton, List.singleton_append]
  rcases marker_cases d with hm | ⟨lead, c, u, hm, hlead, hsign, hc, hu, -⟩
  · have hp : d.profile.placeholder (n + 1) = [byte '?'] := by
      simp only [Profile.placeholder, hm]
      decide
    rw [hp, List.singleton_append, signs_cons (by decide), if_neg (by decide)]
    simp only [markAt?, hm]
    rfl
  · have hp : d.profile.placeholder (n + 1) = c :: (u ++ Text.ofNat (n + 1)) := by
      simp only [Profile.placeholder, hm, hlead]
      rfl
    have hdigits := Text.all_isDigitByte_ofNat (n + 1)
    have hinert : Inert (u ++ Text.ofNat (n + 1)) := inert_append.mpr ⟨hu, inert_of_digits hdigits⟩
    have hmark : markAt? d.profile (c :: (u ++ Text.ofNat (n + 1)) ++ rest) =
        some (c :: (u ++ Text.ofNat (n + 1))) := by
      have hdrop : List.drop (c :: u).length (c :: (u ++ Text.ofNat (n + 1)) ++ rest) =
          Text.ofNat (n + 1) ++ rest := by simp
      have hpre : Text.hasPrefix (c :: (u ++ Text.ofNat (n + 1)) ++ rest) (c :: u) = true := by
        simp [Text.hasPrefix]
      simp only [markAt?, hm, hlead, hdrop, hpre, takeWhile_digits hdigits hrest]
      simp [Text.ofNat_ne_nil]
    rw [hp, List.cons_append, signs_cons hc, if_neg (by simp [hsign]), ← List.cons_append, hmark,
      signs_inert hinert]
    rfl

/-- Whether a byte may stand in a plain name. -/
def isNameByte (b : UInt8) : Bool := Text.isLetterByte b || Text.isDigitByte b || b == byte '_'

theorem inert_of_nameBytes {t : Text} (h : t.all isNameByte = true) : Inert t := by
  intro b hb
  exact isInert_of_test (by decide) (List.all_eq_true.mp h b hb)

theorem all_isNameByte_ofNat (n : Nat) : (Text.ofNat n).all isNameByte = true := by
  refine List.all_eq_true.mpr fun b hb => ?_
  have hd := List.all_eq_true.mp (Text.all_isDigitByte_ofNat n) b hb
  simp [isNameByte, hd]

/-! ### Negation -/

/-- The second text is the first with some tokens replaced: bytes that open no quotes and quoted
segments are kept, and a replaced token and its replacement are inert and begin with a blank. -/
inductive Swapped : Text → Text → Prop
  | nil : Swapped [] []
  | copy {b : UInt8} {t t' : Text} (hb : closer? b = none) (h : Swapped t t') :
    Swapped (b :: t) (b :: t')
  | quoted {q t t' : Text} (hne : q ≠ []) (hq : quotedLength (q ++ t) = q.length)
    (h : Swapped t t') : Swapped (q ++ t) (q ++ t')
  | token {w w' t t' : Text} (hw : Inert (32 :: w)) (hw' : Inert (32 :: w')) (h : Swapped t t') :
    Swapped (32 :: w ++ t) (32 :: w' ++ t')

namespace Swapped

theorem head?_eq {t t' : Text} (h : Swapped t t') : t.head? = t'.head? := by
  cases h with
  | nil | copy | token => rfl
  | quoted hne =>
    obtain ⟨o, q, rfl⟩ := List.exists_cons_of_ne_nil hne
    rfl

/-- Swapped texts agree up to their first blank. -/
theorem takeWhile_eq {t t' : Text} (h : Swapped t t') (rest : Text) :
    (t ++ rest).takeWhile (· != 32) = (t' ++ rest).takeWhile (· != 32) := by
  induction h with
  | nil => rfl
  | @copy b _ _ _ _ ih =>
    rw [List.cons_append, List.cons_append, List.takeWhile_cons, List.takeWhile_cons, ih]
  | quoted _ _ _ ih => rw [List.append_assoc, List.append_assoc, List.takeWhile_append, ih,
      ← List.takeWhile_append]
  | token => rfl

end Swapped

theorem isPrefixOf_takeWhile {lead : Text} (h : 32 ∉ lead) (t : Text) :
    lead.isPrefixOf (t.takeWhile (· != 32)) = lead.isPrefixOf t := by
  induction lead generalizing t with
  | nil => simp
  | cons c lead ih =>
    rw [List.mem_cons, not_or] at h
    cases t with
    | nil => rfl
    | cons b t =>
      rw [List.takeWhile_cons]
      split
      · simp only [List.isPrefixOf, ih h.2]
      · rename_i hb
        have hb : b = 32 := by simpa using hb
        have hc : (c == b) = false := by simpa [hb] using fun hc => h.1 hc.symm
        simp [List.isPrefixOf, hc]

theorem takeWhile_digits_takeWhile (t : Text) :
    (t.takeWhile (· != 32)).takeWhile Text.isDigitByte = t.takeWhile Text.isDigitByte := by
  induction t with
  | nil => rfl
  | cons b t ih =>
    rw [List.takeWhile_cons]
    split
    · rw [List.takeWhile_cons, List.takeWhile_cons, ih]
    · rename_i hb
      have hb : b = 32 := by simpa using hb
      subst hb
      rfl

/-- A mark ends before the next blank. -/
theorem markAt?_takeWhile (d : Dialect) (t : Text) :
    markAt? d.profile t = markAt? d.profile (t.takeWhile (· != 32)) := by
  rcases marker_cases d with hm | ⟨lead, c, u, hm, hlead, -, -, -, hblank⟩
  · cases t with
    | nil => rfl
    | cons b t =>
      rw [List.takeWhile_cons]
      split
      · simp only [markAt?, hm]
        rfl
      · rename_i hb
        have hb : b = 32 := by simpa using hb
        subst hb
        simp only [markAt?, hm]
        rfl
  · have hpre := isPrefixOf_takeWhile hblank t
    simp only [markAt?, hm, hlead, Text.hasPrefix, hpre]
    cases hp : (c :: u).isPrefixOf t with
    | false => rfl
    | true =>
      obtain ⟨v, rfl⟩ := List.isPrefixOf_iff_prefix.mp hp
      have hlead' : ∀ b ∈ c :: u, (b != 32) = true := by
        intro b hb
        simp only [bne_iff_ne, ne_eq]
        rintro rfl
        exact hblank hb
      rw [List.takeWhile_append_of_pos hlead', List.drop_left, List.drop_left,
        takeWhile_digits_takeWhile]

/-- **Swapped texts have the same signs.** -/
theorem Swapped.signs_eq (d : Dialect) {t t' : Text} (h : Swapped t t') (rest : Text) :
    signs d.profile (t ++ rest) = signs d.profile (t' ++ rest) := by
  induction h with
  | nil => rfl
  | @copy b t t' hb h ih =>
    have hmark : markAt? d.profile (b :: (t ++ rest)) = markAt? d.profile (b :: (t' ++ rest)) := by
      rw [markAt?_takeWhile d (b :: (t ++ rest)), markAt?_takeWhile d (b :: (t' ++ rest)),
        List.takeWhile_cons, List.takeWhile_cons, h.takeWhile_eq]
    rw [List.cons_append, List.cons_append, signs_cons hb, signs_cons hb, ih, hmark]
  | @quoted q t t' hne hq h ih =>
    cases t with
    | nil =>
      cases h'' : t' with
      | nil => rfl
      | cons b u =>
        have := h.head?_eq
        rw [h''] at this
        cases this
    | cons b u =>
      obtain ⟨u', rfl⟩ : ∃ u', t' = b :: u' := by
        have hhead := h.head?_eq
        cases t' with
        | nil => cases hhead
        | cons b' u' =>
          cases hhead
          exact ⟨u', rfl⟩
      rw [List.append_assoc, List.append_assoc, List.cons_append, List.cons_append,
        signs_quoted hne (quotedLength_append_cons (u ++ rest) hne hq),
        signs_quoted hne (quotedLength_append_cons (u' ++ rest) hne hq)]
      exact ih
  | token hw hw' _ ih =>
    rw [List.append_assoc, List.append_assoc, signs_inert hw, signs_inert hw', ih]

/-! ### Tokens -/

/-- A byte that equals an inert one up to case is inert, unless the case marks a quote. -/
theorem isInert_of_lowerByte {b c : UInt8} (hc : isInert (Text.lowerByte c) = true)
    (h : Text.lowerByte b = Text.lowerByte c) : isInert b = true := by
  rw [← h] at hc
  exact isInert_of_test (f := fun b => isInert (Text.lowerByte b)) (by decide) hc

/-- A text that equals an inert one up to case is inert. -/
theorem inert_of_map_lowerByte {w u : Text} (h : w.map Text.lowerByte = u.map Text.lowerByte)
    (hu : Inert (u.map Text.lowerByte)) : Inert w := by
  intro b hb
  have hmem : Text.lowerByte b ∈ u.map Text.lowerByte := by
    rw [← h]
    exact List.mem_map_of_mem hb
  obtain ⟨c, hc, heq⟩ := List.mem_map.mp hmem
  exact isInert_of_lowerByte (hu _ (List.mem_map_of_mem hc)) heq.symm

/-- Tokens and their complements are inert and begin with a blank. -/
theorem negations_blank {x : Text × Text} (hx : x ∈ negations) :
    ∃ u u', x.1 = 32 :: u ∧ x.2 = 32 :: u' ∧ Inert (32 :: u') ∧
      Inert (x.1.map Text.lowerByte) := by
  have hall : ∀ x ∈ negations, x.1 = 32 :: x.1.tail ∧ x.2 = 32 :: x.2.tail ∧
      Inert (32 :: x.2.tail) ∧ Inert (x.1.map Text.lowerByte) := by decide
  exact ⟨_, _, hall x hx⟩

theorem eq_blank_of_lowerByte {b : UInt8} (h : Text.lowerByte b = Text.lowerByte 32) : b = 32 :=
  (Text.lowerByte_eq_iff (by decide)).mp h

theorem startsWithWord_blank {u t : Text} {b : UInt8}
    (h : startsWithWord (32 :: u) (b :: t) = true) : b = 32 := by
  have hmap := (map_lowerByte_of_startsWithWord h).2
  rw [List.length_cons, List.take_succ_cons, List.map_cons, List.map_cons, List.cons.injEq] at hmap
  exact eq_blank_of_lowerByte hmap.1

theorem rewriting_swapped : Rewriting Swapped where
  nil := .nil
  copy := .copy
  quoted := .quoted
  token := by
    intro x w t t' hx hw h
    obtain ⟨u, u', hu, hu', hinert', hbytes⟩ := negations_blank hx
    have hinert := inert_of_map_lowerByte hw hbytes
    rw [hu, List.map_cons] at hw
    obtain ⟨b, w, rfl⟩ : ∃ b v, w = b :: v :=
      List.exists_cons_of_ne_nil fun hnil => by simp [hnil] at hw
    rw [List.map_cons, List.cons.injEq] at hw
    obtain rfl := eq_blank_of_lowerByte hw.1
    rw [hu']
    exact .token hinert hinert' h

/-- **Negation swaps tokens only.** -/
theorem swapped_negate (t : Text) : Swapped t (negate t) := rewriting_swapped.negate t

end Sql

open Sql

/-- The lexicon of plain names: without quotes a name has letters, digits and underscores only. -/
def Lexicon.plain (quoted : Bool) : Lexicon where
  Name v := quoted = true ∨ v.all isNameByte = true
  Raw _ := True
  numbered v i h := by
    rcases h with rfl | h | h
    · exact .inr (all_isNameByte_ofNat (i + 1))
    · exact .inl h
    · exact .inr (by rw [List.all_append, h, all_isNameByte_ofNat]; rfl)

end QueryTree
