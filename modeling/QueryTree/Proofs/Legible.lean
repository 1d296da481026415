import QueryTree.Proofs.Grammar
import QueryTree.Proofs.Reading

/-!
# Legible formulas

The texts of values never look like anything else: no token starts in them or right before them.
A formula whose atoms compare such values is read back from its text, whatever its shape, and
negating its text gives the text of its dual with negated atoms.

## Main definitions

* `Sql.Valued`, `Sql.Atomic`: the texts of values and of comparisons
* `Sql.Formula.Legible`

## Main results

* `Sql.read_text`: a legible formula is read back from its text
* `Sql.negate_text`: negating the text of a legible formula
-/

namespace QueryTree.Sql

/-! ### Chunks of text -/

/-- The tokens that do not start in the texts of values. -/
def tokens : List Text := " NOT " :: negations.map Prod.fst

theorem negating_tokens : Negating tokens :=
  fun _ hx => List.mem_cons_of_mem _ (List.mem_map_of_mem hx)

/-- The text starts with a byte that ends a value, if with any. -/
def Ends (t : Text) : Prop := ∀ b ∈ t.head?, b = 32 ∨ b = byte ',' ∨ b = byte ')'

/-- No token starts with the blank before the text. -/
def Apart (t : Text) : Prop := ∀ k ∈ tokens, startsWithWord k (32 :: t) = false

variable {K I : List Text} {before : Option UInt8} {t rest : Text}

theorem ends_nil : Ends [] := nofun

theorem ends_cons {b : UInt8} (h : b = 32 ∨ b = byte ',' ∨ b = byte ')') : Ends (b :: t) := by
  simpa [Ends] using h

/-- Whether the text is plain wherever it stands, if `tail` follows it. -/
def isPlain (K : List Text) (before : Option UInt8) : (t tail : Text) → Bool
  | [], _ => true
  | b :: t, tail =>
    closer? b == none && b != byte '(' && b != byte ')' &&
      (!opensWord before ||
        (differ "CASE" (b :: (t ++ tail)) && differ "END" (b :: (t ++ tail)))) &&
      (K.all fun k => differ k (b :: (t ++ tail))) && isPlain K (some b) t tail

theorem runs_of_isPlain_from {tail : Text} (h : isPlain K before t tail = true) :
    Runs K I before t (tail ++ rest) := by
  induction t generalizing before with
  | nil => exact .nil
  | cons b t ih =>
    simp only [isPlain, Bool.and_eq_true, beq_iff_eq, bne_iff_ne, ne_eq, Bool.or_eq_true,
      Bool.not_eq_true', List.all_eq_true] at h
    obtain ⟨⟨⟨⟨⟨hq, ho⟩, hc⟩, hk⟩, htokens⟩, ht⟩ := h
    have hword :
        ∀ {word : Text}, (opensWord before = false ∨ differ word (b :: (t ++ tail)) = true) →
        keywordAt word before (b :: (t ++ (tail ++ rest))) = false := by
      intro word hw
      rcases hw with hw | hw
      · simp [keywordAt, hw]
      · simpa using keywordAt_of_differ hw rest before
    refine .plain ⟨hq, ho, hc, hword (hk.imp_right (·.1)), hword (hk.imp_right (·.2)),
      fun k hk => ?_⟩ (ih ht)
    simpa using startsWithWord_of_differ (htokens k hk) rest

/-- A text that is plain at the start of a text is plain wherever it stands. -/
theorem runs_of_isPlain {tail : Text} (h : isPlain K none t tail = true) :
    Runs K I before t (tail ++ rest) := by
  refine runs_of_isPlain_from ?_
  cases t with
  | nil => rfl
  | cons b t =>
    simp only [isPlain, opensWord, Bool.not_true, Bool.false_or, Bool.and_eq_true] at h
    simp only [isPlain, Bool.and_eq_true, Bool.or_eq_true]
    exact ⟨⟨⟨h.1.1.1, .inr h.1.1.2⟩, h.1.2⟩, h.2⟩

theorem runs_plain (h : isPlain K none t [] = true) : Runs K I before t rest := by
  have hr : Runs K I before t ([] ++ rest) := runs_of_isPlain h
  exact hr

theorem runs_blank (h : ∀ k ∈ K, startsWithWord k (32 :: rest) = false) :
    Runs K I before [32] rest :=
  .plain ⟨rfl, by decide, by decide, keywordAt_of_differ (t := [32]) (by decide) rest before,
    keywordAt_of_differ (t := [32]) (by decide) rest before, h⟩ .nil

/-- A plain text and a blank before a text where no token starts. -/
theorem runs_spaced (h : isPlain K none t " " = true)
    (hrest : ∀ k ∈ K, startsWithWord k (32 :: rest) = false) :
    Runs K I before (t ++ " ") rest :=
  (runs_of_isPlain h).append (runs_blank hrest)

theorem Runs.join {a b : Text} (ha : Runs K I before a (t ++ (b ++ rest)))
    (ht : Runs K I (lastByte before a) t (b ++ rest))
    (hb : Runs K I (lastByte (lastByte before a) t) b rest) :
    Runs K I before (a ++ t ++ b) rest := by
  refine Runs.append (Runs.append ha ht) ?_
  rwa [lastByte_append]

/-! ### Values and comparisons -/

/-- The texts that scanners get through wherever a value may stand. -/
structure Valued (t : Text) : Prop where
  runs : ∀ before rest, opensWord before = true → Ends rest → Runs tokens tokens before t rest
  apart : ∀ rest, Ends rest → Apart (t ++ rest)

/-- The texts of comparisons. -/
def Atomic (a : Text) : Prop :=
  ∃ x token y, token ∈ comparisonTokens ∧ Valued x ∧ Valued y ∧ a = x ++ token ++ y

/-- A comparison token between what scanners get through. -/
theorem token_cases {token : Text} (h : token ∈ comparisonTokens) :
    ∃ u, token = u ++ " " ∧ isPlain [" AND ", " OR "] none u " " = true ∧
      u.head? = some 32 := by
  have hall : ∀ token ∈ comparisonTokens, token = token.dropLast ++ " " ∧
      isPlain [" AND ", " OR "] none token.dropLast " " = true ∧
      token.dropLast.head? = some 32 := by decide
  exact ⟨_, hall token h⟩

theorem ends_append {u : Text} (h : u.head? = some 32) : Ends (u ++ t) := by
  cases u with
  | nil => cases h
  | cons b u =>
    simp only [List.head?_cons, Option.some.injEq] at h
    exact ends_cons (.inl h)

namespace Atomic

variable {a : Text}

theorem runs (h : Atomic a) (hb : opensWord before = true) (hrest : Ends rest) :
    Runs [" AND ", " OR "] [] before a rest := by
  obtain ⟨x, token, y, ht, hx, hy, rfl⟩ := h
  obtain ⟨u, rfl, hu, hhead⟩ := token_cases ht
  have hK : ([" AND ", " OR "] : List Text) ⊆ tokens := by decide
  have hxr := (hx.runs before (u ++ " " ++ (y ++ rest)) hb
    (by rw [List.append_assoc]; exact ends_append hhead)).mono hK (List.nil_subset _)
  have htr : Runs [" AND ", " OR "] [] (lastByte before x) (u ++ " ") (y ++ rest) :=
    runs_spaced hu fun k hk => hy.apart rest hrest k (hK hk)
  exact hxr.join htr ((hy.runs _ rest (by rw [lastByte_append]; rfl) hrest).mono hK
    (List.nil_subset _))

theorem apart (h : Atomic a) (rest : Text) : Apart (a ++ rest) := by
  obtain ⟨x, token, y, ht, hx, -, rfl⟩ := h
  obtain ⟨u, rfl, -, hhead⟩ := token_cases ht
  simpa using hx.apart (u ++ " " ++ y ++ rest) (by simpa using ends_append hhead)

end Atomic

/-! ### Formulas -/

theorem apart_paren (t : Text) : Apart (byte '(' :: t) := by
  have hall : ∀ k ∈ tokens, differ k [32, byte '('] = true := by decide
  exact fun k hk => startsWithWord_of_differ (hall k hk) t

theorem ends_paren (t : Text) : Ends (byte ')' :: t) := ends_cons (.inr (.inr rfl))

namespace Formula

/-- The formula is read back from its text. -/
structure Legible (f : Formula) : Prop where
  canonical : f.Canonical
  atomic : ∀ a ∈ f.atoms, Atomic a

variable {f g : Formula}

theorem Legible.group (h : f.Legible) : (group f).Legible := ⟨h.canonical, h.atomic⟩

theorem Legible.conj (hf : f.Legible) (hg : g.Legible) : (conj f g).Legible := by
  refine ⟨hf.canonical.conj hg.canonical, fun a ha => ?_⟩
  rw [atoms_conj] at ha
  exact (List.mem_append.mp ha).elim (hf.atomic a) (hg.atomic a)

theorem Legible.disj (hf : f.Legible) (hg : g.Legible) : (disj f g).Legible := by
  refine ⟨hf.canonical.disj hg.canonical, fun a ha => ?_⟩
  rw [atoms_disj] at ha
  exact (List.mem_append.mp ha).elim (hf.atomic a) (hg.atomic a)

theorem apart_text (h : ∀ a ∈ f.atoms, Atomic a) (rest : Text) : Apart (f.text ++ rest) := by
  induction f generalizing rest with
  | atom a => exact (h a (by simp [atoms])).apart rest
  | group f => exact apart_paren _
  | and f g ihf | or f g ihf =>
    simp only [text, List.append_assoc]
    exact ihf (fun a ha => h a (by simp [atoms, ha])) _

theorem ends_and (t : Text) : Ends (" AND " ++ t) := ends_cons (.inl rfl)

theorem ends_or (t : Text) : Ends (" OR " ++ t) := ends_cons (.inl rfl)

theorem runs_and (h : Apart t) : Runs [" OR "] [] before " AND " t :=
  runs_spaced (t := " AND") (by decide) fun k hk => by
    rw [List.mem_singleton] at hk
    exact h k (by rw [hk]; decide)

theorem runs_or : Runs [] [] before " OR " t := runs_plain (by decide)

/-- Scanners that look for no token get through every formula. -/
theorem runs_text (h : ∀ a ∈ f.atoms, Atomic a) (hb : opensWord before = true)
    (hrest : Ends rest) : Runs [] [] before f.text rest := by
  induction f generalizing before rest with
  | atom a =>
    exact ((h a (by simp [atoms])).runs hb hrest).mono (List.nil_subset _) (List.nil_subset _)
  | group f ih => exact .group (ih h rfl (ends_paren rest)) .nil
  | and f g ihf ihg =>
    simp only [atoms, List.mem_append] at h
    have hf := ihf (fun a ha => h a (.inl ha)) hb (ends_and (g.text ++ rest))
    have hand : Runs [" OR "] [] (lastByte before f.text) " AND " (g.text ++ rest) :=
      runs_and (apart_text (fun a ha => h a (.inr ha)) rest)
    exact hf.join (hand.mono (List.nil_subset _) (List.nil_subset _))
      (ihg (fun a ha => h a (.inr ha)) rfl hrest)
  | or f g ihf ihg =>
    simp only [atoms, List.mem_append] at h
    have hf := ihf (fun a ha => h a (.inl ha)) hb (ends_or (g.text ++ rest))
    exact hf.join runs_or (ihg (fun a ha => h a (.inr ha)) rfl hrest)

/-- Neither token is found outside of the units of an atom or a group. -/
theorem runs_unit (h : ∀ a ∈ f.atoms, Atomic a) (ha : f.isAnd = false) (ho : f.isOr = false)
    (hb : opensWord before = true) (hrest : Ends rest) :
    Runs [" AND ", " OR "] [] before f.text rest := by
  cases f with
  | atom a => exact (h a (by simp [atoms])).runs hb hrest
  | group f => exact .group (runs_text h rfl (ends_paren rest)) .nil
  | and f g => cases ha
  | or f g => cases ho

/-- No `OR` is found outside of the units of a conjunction. -/
theorem runs_conjunction (hf : f.Legible) (ho : f.isOr = false) (hb : opensWord before = true)
    (hrest : Ends rest) : Runs [" OR "] [] before f.text rest := by
  induction f generalizing before rest with
  | atom | group =>
    exact (runs_unit hf.atomic rfl rfl hb hrest).mono (by decide) (List.nil_subset _)
  | and f g _ ihg =>
    obtain ⟨⟨⟨hfa, hfo, hgo⟩, hfc, hgc⟩, h⟩ := hf
    simp only [atoms, List.mem_append] at h
    have hfr : Runs [" OR "] [] before f.text (" AND " ++ (g.text ++ rest)) :=
      (runs_unit (fun a ha => h a (.inl ha)) hfa hfo hb (ends_and _)).mono (by decide)
        (List.nil_subset _)
    have hg : g.Legible := ⟨hgc, fun a ha => h a (.inr ha)⟩
    exact hfr.join (runs_and (apart_text hg.atomic rest)) (ihg hg hgo rfl hrest)
  | or f g => cases ho

theorem text_ne_nil (h : ∀ a ∈ f.atoms, Atomic a) : f.text ≠ [] := by
  induction f with
  | atom a =>
    obtain ⟨x, token, y, ht, -, -, rfl⟩ := h a (by simp [atoms])
    obtain ⟨u, rfl, -, hu⟩ := token_cases ht
    have hne : u ≠ [] := fun h => by cases h; cases hu
    simp [text, hne]
  | group f => exact List.cons_ne_nil _ _
  | and f g ihf | or f g ihf =>
    simp [text, ihf fun a ha => h a (by simp [atoms, ha])]

/-- An atom does not consist of one group. -/
theorem groupLength_atom {a : Text} (h : Atomic a) : groupLength a ≠ a.length := by
  obtain ⟨x, token, y, ht, hx, -, rfl⟩ := h
  obtain ⟨u, rfl, -, hu⟩ := token_cases ht
  obtain ⟨w, rfl⟩ : ∃ w, u = 32 :: w := by
    cases u with
    | nil => cases hu
    | cons b w =>
      obtain rfl : b = 32 := by simpa using hu
      exact ⟨w, rfl⟩
  have hr := hx.runs none (32 :: (w ++ " " ++ y)) rfl (ends_cons (.inl rfl))
  simpa using hr.groupLength_ne (by decide)

theorem text_group (f : Formula) : (group f).text = byte '(' :: (f.text ++ [byte ')']) := rfl

theorem Legible.of_and (h : (and f g).Legible) : f.Legible ∧ g.Legible :=
  ⟨⟨h.canonical.2.1, fun a ha => h.atomic a (by simp [atoms, ha])⟩,
    h.canonical.2.2, fun a ha => h.atomic a (by simp [atoms, ha])⟩

theorem Legible.of_or (h : (or f g).Legible) : f.Legible ∧ g.Legible :=
  ⟨⟨h.canonical.2.1, fun a ha => h.atomic a (by simp [atoms, ha])⟩,
    h.canonical.2.2, fun a ha => h.atomic a (by simp [atoms, ha])⟩

theorem readTo_text (hf : f.Legible) {n : Nat} (hn : f.text.length ≤ n) :
    readTo n f.text = f := by
  induction n generalizing f with
  | zero => exact absurd (List.length_eq_zero_iff.mp (Nat.le_zero.mp hn)) (text_ne_nil hf.atomic)
  | succ n ih =>
    cases f with
    | atom a =>
      have ha : Atomic a := hf.atomic a (by simp [atoms])
      have hr : Runs [" AND ", " OR "] [] none a [] := ha.runs rfl ends_nil
      rw [text, readTo, split?_eq_none hr (by decide), split?_eq_none hr (by decide)]
      exact if_neg (groupLength_atom ha)
    | group f =>
      have hr : Runs [" AND ", " OR "] [] none (group f).text [] :=
        runs_unit hf.atomic rfl rfl rfl ends_nil
      have hinner : Runs [] [] none f.text [byte ')'] := runs_text hf.atomic rfl (ends_paren [])
      have hgroup : groupLength (group f).text = (group f).text.length := by
        rw [text_group, groupLength_group hinner]
        simp
      rw [readTo, split?_eq_none hr (by decide), split?_eq_none hr (by decide)]
      simp only [if_pos hgroup]
      rw [text_group, List.length_cons, List.length_append, List.length_singleton] at hn
      have hfl : f.Legible := ⟨hf.canonical, hf.atomic⟩
      rw [text_group, List.tail_cons, List.dropLast_concat, ih hfl (by omega)]
    | and f g =>
      obtain ⟨⟨hfa, hfo, hgo⟩, -⟩ := hf.canonical
      obtain ⟨hfl, hgl⟩ := hf.of_and
      have hnone : Runs [" OR "] [] none (and f g).text [] := runs_conjunction hf rfl rfl ends_nil
      have hsome : Runs [" AND ", " OR "] [] none f.text (" AND " ++ g.text) :=
        runs_unit hfl.atomic hfa hfo rfl (ends_and g.text)
      rw [readTo, split?_eq_none hnone (by decide), text,
        split?_eq_some hsome (by decide) (by decide)]
      simp only [text, List.length_append, show (Text.ofString " AND ").length = 5 from rfl] at hn
      simp only [ih hfl (by omega), ih hgl (by omega)]
    | or f g =>
      obtain ⟨hfl, hgl⟩ := hf.of_or
      have hsome : Runs [" OR "] [] none f.text (" OR " ++ g.text) :=
        runs_conjunction hfl hf.canonical.1 rfl (ends_or g.text)
      rw [readTo, text, split?_eq_some hsome (by decide) (by decide)]
      simp only [text, List.length_append, show (Text.ofString " OR ").length = 4 from rfl] at hn
      simp only [ih hfl (by omega), ih hgl (by omega)]

end Formula

/-- **A legible formula is read back from its text.** -/
theorem read_text {f : Formula} (hf : f.Legible) : read f.text = f :=
  Formula.readTo_text hf (Nat.le_refl _)

theorem holds_text {f : Formula} (hf : f.Legible) (v : Text → Bool) :
    holds v f.text = f.holds v := by
  have hne : f.text.isEmpty = false := by simpa using Formula.text_ne_nil hf.atomic
  rw [holds, read_text hf, hne, Bool.false_or]

/-! ### Negation -/

theorem startsWithWord_append_left (a w t : Text) :
    startsWithWord (a ++ w) (a ++ t) = startsWithWord w t := by
  rw [startsWithWord, startsWithWord, List.length_append, List.length_append,
    List.take_length_add_append, Text.equalIgnoringCase, Text.equalIgnoringCase, List.map_append,
    List.map_append]
  simp [Bool.beq_eq_decide_eq]

/-- A token is recognised as itself, unless `NOT` follows `IS`. -/
theorem negationAt?_token {x : Text × Text} (hx : x ∈ negations) (ht : Apart t) :
    negationAt? (x.1 ++ t) = some x := by
  rw [negationAt?, List.find?_eq_some_iff_getElem]
  obtain ⟨i, hi, rfl⟩ := List.getElem_of_mem hx
  refine ⟨by simp [startsWithWord, Text.equalIgnoringCase], i, hi, rfl, fun j hj => ?_⟩
  have hall : ∀ i j : Fin negations.length, j < i →
      differ (negations.get j).1 (negations.get i).1 = true ∨
        (negations.get j).1 = " IS" ++ " NOT " ∧ (negations.get i).1 = " IS" ++ " " := by decide
  have hfalse : startsWithWord (negations.get ⟨j, by omega⟩).1
      ((negations.get ⟨i, hi⟩).1 ++ t) = false := by
    rcases hall ⟨i, hi⟩ ⟨j, by omega⟩ hj with h | ⟨hj, hi⟩
    · exact startsWithWord_of_differ h t
    · rw [hj, hi, List.append_assoc, startsWithWord_append_left]
      exact ht _ (by decide)
  simpa using hfalse

theorem negationStep_token {x : Text × Text} (hx : x ∈ negations) (ht : Apart t) :
    negationStep before (x.1 ++ t) = (x.1.length, x.2) := by
  have hat := negationAt?_token hx ht
  obtain ⟨u, hu⟩ : ∃ u, x.1 = 32 :: u := by
    have hall : ∀ x ∈ negations, x.1 = 32 :: x.1.tail := by decide
    exact ⟨_, hall x hx⟩
  have hcase : keywordAt "CASE" before (32 :: (u ++ t)) = false :=
    keywordAt_of_differ (t := [32]) (by decide) _ _
  rw [hu, List.cons_append] at hat ⊢
  simp only [negationStep, quotedLength_of_closer? (b := 32) rfl,
    caseLength_of_not_keyword hcase, hat]
  rw [hu]

theorem negateFrom_token {x : Text × Text} (hx : x ∈ negations) (ht : Apart t) :
    negateFrom 0 before (x.1 ++ t) = x.2 ++ negateFrom 0 (some 32) t := by
  have hlast : ∀ x ∈ negations, x.1 = x.1.dropLast ++ [32] := by decide
  have hne : x.1 ≠ [] := by
    rw [hlast x hx]
    exact List.append_ne_nil_of_right_ne_nil _ (List.cons_ne_nil _ _)
  rw [negateFrom_step hne (negationStep_token hx ht), hlast x hx, lastByte_append]
  rfl

theorem Valued.negateFrom (h : Valued t) (hb : opensWord before = true) (hrest : Ends rest) :
    negateFrom 0 before (t ++ rest) = t ++ negateFrom 0 (lastByte before t) rest :=
  (h.runs before rest hb hrest).negateFrom negating_tokens negating_tokens

/-- The complement of a comparison token. -/
theorem exists_complement {token : Text} (h : token ∈ comparisonTokens) :
    ∃ u ∈ comparisonTokens, (token, u) ∈ negations ∧ (u, token) ∈ negations := by
  revert token
  decide

/-- A comparison token between two values is swapped. -/
theorem negateFrom_comparison {x y token u : Text} (ht : token ∈ comparisonTokens)
    (hu : (token, u) ∈ negations) (hx : Valued x) (hy : Valued y) (hb : opensWord before = true)
    (hrest : Ends rest) : negateFrom 0 before (x ++ token ++ y ++ rest) =
      x ++ u ++ y ++ negateFrom 0 (lastByte before (x ++ token ++ y)) rest := by
  obtain ⟨w, hw, -, hhead⟩ := token_cases ht
  have hends : Ends (token ++ (y ++ rest)) := by
    rw [hw, List.append_assoc]
    exact ends_append hhead
  have hlast : lastByte (lastByte before x) token = some 32 := by
    rw [hw, lastByte_append]
    rfl
  have hstep : negateFrom 0 (lastByte before x) (token ++ (y ++ rest)) = _ :=
    negateFrom_token hu (hy.apart rest hrest)
  rw [List.append_assoc, List.append_assoc, hx.negateFrom hb hends, hstep,
    hy.negateFrom rfl hrest, lastByte_append, lastByte_append, hlast]
  simp only [List.append_assoc]

theorem negate_comparison {x y token u : Text} (ht : token ∈ comparisonTokens)
    (hu : (token, u) ∈ negations) (hx : Valued x) (hy : Valued y) :
    negate (x ++ token ++ y) = x ++ u ++ y := by
  have h : negateFrom 0 none (x ++ token ++ y ++ []) = _ :=
    negateFrom_comparison ht hu hx hy rfl ends_nil
  rw [List.append_nil] at h
  rw [negate, h, negateFrom, List.append_nil]

/-- Two comparisons of the same values by complementary tokens. -/
def Complementary (a b : Text) : Prop :=
  ∃ x token u y, token ∈ comparisonTokens ∧ (token, u) ∈ negations ∧
    a = x ++ token ++ y ∧ b = x ++ u ++ y

namespace Atomic

variable {a : Text}

theorem complementary (h : Atomic a) : Complementary a (Sql.negate a) := by
  obtain ⟨x, token, y, ht, hx, hy, rfl⟩ := h
  obtain ⟨u, -, hu, -⟩ := exists_complement ht
  exact ⟨x, token, u, y, ht, hu, rfl, negate_comparison ht hu hx hy⟩

theorem negate (h : Atomic a) : Atomic (Sql.negate a) := by
  obtain ⟨x, token, y, ht, hx, hy, rfl⟩ := h
  obtain ⟨u, hu, hn, -⟩ := exists_complement ht
  exact ⟨x, u, y, hu, hx, hy, negate_comparison ht hn hx hy⟩

theorem negate_negate (h : Atomic a) : Sql.negate (Sql.negate a) = a := by
  obtain ⟨x, token, y, ht, hx, hy, rfl⟩ := h
  obtain ⟨u, hu, hn, hn'⟩ := exists_complement ht
  rw [negate_comparison ht hn hx hy, negate_comparison hu hn' hx hy]

theorem negateFrom (h : Atomic a) (hb : opensWord before = true) (hrest : Ends rest) :
    negateFrom 0 before (a ++ rest) =
      Sql.negate a ++ negateFrom 0 (lastByte before a) rest := by
  obtain ⟨x, token, y, ht, hx, hy, rfl⟩ := h
  obtain ⟨u, -, hu, -⟩ := exists_complement ht
  rw [negateFrom_comparison ht hu hx hy hb hrest, negate_comparison ht hu hx hy]

end Atomic

namespace Formula

variable {f g : Formula}

/-- The formula with every token swapped. -/
def swapped (f : Formula) : Formula := f.dual.map negate

theorem swapped_group (f : Formula) : (group f).swapped = group f.swapped := rfl

theorem swapped_and (f g : Formula) : (and f g).swapped = Formula.disj f.swapped g.swapped :=
  map_disj negate f.dual g.dual

theorem swapped_or (f g : Formula) : (or f g).swapped = Formula.conj f.swapped g.swapped :=
  map_conj negate f.dual g.dual

theorem atoms_swapped (f : Formula) : f.swapped.atoms = f.atoms.map negate := by
  rw [swapped, atoms_map, atoms_dual]

theorem Legible.swapped (h : f.Legible) : f.swapped.Legible := by
  refine ⟨h.canonical.dual.map _, fun a ha => ?_⟩
  rw [atoms_swapped] at ha
  obtain ⟨b, hb, rfl⟩ := List.mem_map.mp ha
  exact (h.atomic b hb).negate

theorem negateFrom_text (h : ∀ a ∈ f.atoms, Atomic a) (hb : opensWord before = true)
    (hrest : Ends rest) : negateFrom 0 before (f.text ++ rest) =
      f.swapped.text ++ negateFrom 0 (lastByte before f.text) rest := by
  have hand : ((" AND ", " OR ") : Text × Text) ∈ negations := by decide
  have hor : ((" OR ", " AND ") : Text × Text) ∈ negations := by decide
  induction f generalizing before rest with
  | atom a => exact (h a (by simp [atoms])).negateFrom hb hrest
  | group f ih =>
    have hopen : opensWord (some (byte '(')) = true := rfl
    show negateFrom 0 before (byte '(' :: (f.text ++ [byte ')'] ++ rest)) = _
    rw [List.append_assoc, List.singleton_append, negateFrom_paren (.inl rfl),
      ih h hopen (ends_paren rest), negateFrom_paren (.inr rfl), swapped_group, text_group,
      text_group, lastByte, lastByte_append]
    simp [lastByte]
  | and f g ihf ihg =>
    simp only [atoms, List.mem_append] at h
    have hg : ∀ a ∈ g.atoms, Atomic a := fun a ha => h a (.inr ha)
    rw [text, List.append_assoc, List.append_assoc, ihf (fun a ha => h a (.inl ha)) hb (ends_and _),
      negateFrom_token hand (apart_text hg rest), ihg hg rfl hrest, lastByte_append,
      lastByte_append, swapped_and, text_disj]
    simp only [List.append_assoc]
    rfl
  | or f g ihf ihg =>
    simp only [atoms, List.mem_append] at h
    have hg : ∀ a ∈ g.atoms, Atomic a := fun a ha => h a (.inr ha)
    rw [text, List.append_assoc, List.append_assoc, ihf (fun a ha => h a (.inl ha)) hb (ends_or _),
      negateFrom_token hor (apart_text hg rest), ihg hg rfl hrest, lastByte_append,
      lastByte_append, swapped_or, text_conj]
    simp only [List.append_assoc]
    rfl

end Formula

/-- **Negating the text of a formula swaps its tokens.** -/
theorem negate_text {f : Formula} (hf : f.Legible) : negate f.text = f.swapped.text := by
  have h : negateFrom 0 none (f.text ++ []) = _ := Formula.negateFrom_text hf.atomic rfl ends_nil
  rw [List.append_nil] at h
  rw [negate, h, negateFrom, List.append_nil]

end QueryTree.Sql
