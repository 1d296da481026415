import QueryTree.Proofs.Legible
import QueryTree.Proofs.Marks
import QueryTree.Proofs.Rendered
import QueryTree.Sample.Conditions

/-!
# Readable conditions

With names that are quoted or that cannot be taken for keywords, every condition that is emitted is
the text of a legible formula: it is read the way it was meant to be read, up to the grouping of
`AND` and `OR`, and negating it swaps its tokens and nothing else.

## Main definitions

* `Sql.reserved`: the words that scanners look for
* `Lexicon.readable`: names that are quoted or not reserved

## Main results

* `ValueText.valued`: the texts of values
* `ConditionText.legible`: the texts of conditions are those of legible formulas
-/

namespace QueryTree

namespace Sql

/-! ### Words -/

/-- The words that scanners look for. -/
def reserved : List Text := ["CASE", "END", "NOT", "IS", "IN", "LIKE", "AND", "OR"]

/-- Whether a word is reserved, in any case. -/
def isReserved (v : Text) : Bool := reserved.any fun w => Text.equalIgnoringCase v w

/-- Whether a byte belongs to a name, perhaps a qualified one. -/
def isWordByte (b : UInt8) : Bool := isNameByte b || b == byte '.'

variable {t rest word : Text} {before : Option UInt8}

theorem startsWithWord_cons (a b : UInt8) (word t : Text) :
    startsWithWord (a :: word) (b :: t) =
      (Text.lowerByte b == Text.lowerByte a && startsWithWord word t) := by
  simp only [startsWithWord, Text.equalIgnoringCase, List.length_cons, List.take_succ_cons,
    List.map_cons, Nat.add_le_add_iff_right]
  cases decide (word.length ≤ t.length) <;> cases hb : Text.lowerByte b == Text.lowerByte a <;>
    simp [hb]

theorem startsWithWord_nil (a : UInt8) (word : Text) : startsWithWord (a :: word) [] = false := rfl

/-- Neither a letter nor a digit can end a value. -/
theorem isNameByte_of_ends {b : UInt8} (h : Ends (b :: t)) : isNameByte b = false := by
  rcases h b rfl with rfl | rfl | rfl <;> rfl

theorem isLetterByte_of_lowerByte {b c : UInt8} (hc : Text.isLetterByte c = true)
    (h : Text.lowerByte b = Text.lowerByte c) : Text.isLetterByte b = true := by
  rw [← Text.isLetterByte_lowerByte, h, Text.isLetterByte_lowerByte, hc]

/-- A word that is found where a name stands, and that no byte of a name follows, is the first part
of the name. -/
theorem equalIgnoringCase_of_startsWithWord (hw : word.all Text.isLetterByte = true)
    (hrest : Ends rest) (h : startsWithWord word (t ++ rest) = true)
    (hnext : ∀ b ∈ ((t ++ rest).drop word.length).head?, isNameByte b = false) :
    Text.equalIgnoringCase (t.takeWhile isNameByte) word = true := by
  induction word generalizing t with
  | nil =>
    cases t with
    | nil => rfl
    | cons b t => simp [hnext b rfl, Text.equalIgnoringCase]
  | cons c word ih =>
    simp only [List.all_cons, Bool.and_eq_true] at hw
    have letter : ∀ {b : UInt8}, Text.lowerByte b = Text.lowerByte c → isNameByte b = true :=
      fun hb => by simp [isNameByte, isLetterByte_of_lowerByte hw.1 hb]
    cases t with
    | nil =>
      cases rest with
      | nil => simp [startsWithWord_nil] at h
      | cons b rest =>
        simp only [List.nil_append, startsWithWord_cons, Bool.and_eq_true, beq_iff_eq] at h
        exact absurd (letter h.1) (by simp [isNameByte_of_ends hrest])
    | cons b t =>
      simp only [List.cons_append, startsWithWord_cons, Bool.and_eq_true, beq_iff_eq] at h
      have ih := ih hw.2 h.2 hnext
      simp only [Text.equalIgnoringCase, beq_iff_eq] at ih ⊢
      rw [List.takeWhile_cons, if_pos (letter h.1), List.map_cons, List.map_cons, h.1, ih]

theorem isReserved_of_startsWithWord (hw : word ∈ reserved) (hrest : Ends rest)
    (h : startsWithWord word (t ++ rest) = true)
    (hnext : ∀ b ∈ ((t ++ rest).drop word.length).head?, isNameByte b = false) :
    isReserved (t.takeWhile isNameByte) = true := by
  have hall : ∀ w ∈ reserved, w.all Text.isLetterByte = true := by decide
  rw [isReserved, List.any_eq_true]
  exact ⟨word, hw, equalIgnoringCase_of_startsWithWord (hall word hw) hrest h hnext⟩

theorem keywordAt_word (hr : isReserved (t.takeWhile isNameByte) = false) (hw : word ∈ reserved)
    (hrest : Ends rest) : keywordAt word before (t ++ rest) = false := by
  rw [Bool.eq_false_iff]
  intro hk
  simp only [keywordAt, Bool.and_eq_true, Bool.not_eq_true'] at hk
  obtain ⟨⟨hs, -⟩, hnext⟩ := hk
  rw [isReserved_of_startsWithWord hw hrest hs fun b hb => ?_] at hr
  · cases hr
  · rw [Option.mem_def] at hb
    rw [hb, Option.any_some] at hnext
    simp only [isIdentByte, Bool.or_eq_false_iff] at hnext
    simp only [isNameByte, hnext, Bool.or_false]

/-- A token starts with a reserved word between blanks, or with a byte that stands neither in names
nor behind them. -/
theorem token_word {k : Text} (hk : k ∈ tokens) :
    (∃ w ∈ reserved, ∃ more, k = 32 :: (w ++ 32 :: more)) ∨
      ∃ b more, k = 32 :: b :: more ∧
        ∀ x, isWordByte x = true ∨ Ends [x] → Text.lowerByte x ≠ Text.lowerByte b := by
  have hall : ∀ k ∈ tokens, (∃ w ∈ reserved, (32 :: (w ++ [32])).isPrefixOf k = true) ∨
      ∃ b ∈ ([60, 61, 62] : List UInt8), [32, b].isPrefixOf k = true := by decide +kernel
  have hbyte : ∀ x : UInt8, (!(isWordByte x || x == 32 || x == byte ',' || x == byte ')') ||
      ([60, 61, 62] : List UInt8).all fun b => Text.lowerByte x != Text.lowerByte b) = true :=
    Text.forall_byte (by decide +kernel)
  rcases hall k hk with ⟨w, hw, hp⟩ | ⟨b, hb, hp⟩
  · obtain ⟨more, rfl⟩ := List.isPrefixOf_iff_prefix.mp hp
    exact .inl ⟨w, hw, more, by simp⟩
  · obtain ⟨more, rfl⟩ := List.isPrefixOf_iff_prefix.mp hp
    refine .inr ⟨b, more, rfl, fun x hx => ?_⟩
    have hx' : (isWordByte x || x == 32 || x == byte ',' || x == byte ')') = true := by
      rcases hx with hx | hx
      · simp [hx]
      · rcases hx x rfl with rfl | rfl | rfl <;> rfl
    have h := hbyte x
    rw [hx', Bool.not_true, Bool.false_or, List.all_eq_true] at h
    exact bne_iff_ne.mp (h b hb)

theorem startsWithWord_append {a b : Text} (h : startsWithWord (a ++ b) t = true) :
    startsWithWord a t = true ∧ startsWithWord b (t.drop a.length) = true := by
  induction a generalizing t with
  | nil => exact ⟨by simp [startsWithWord, Text.equalIgnoringCase], h⟩
  | cons c a ih =>
    cases t with
    | nil => simp [startsWithWord_nil] at h
    | cons x t =>
      simp only [List.cons_append, startsWithWord_cons, Bool.and_eq_true] at h ⊢
      exact ⟨⟨h.1, (ih h.2).1⟩, (ih h.2).2⟩

/-- No token starts with the blank before a name. -/
theorem apart_word (ht : t.all isWordByte = true) (hr : isReserved (t.takeWhile isNameByte) = false)
    (hrest : Ends rest) : Apart (t ++ rest) := by
  intro k hk
  rw [Bool.eq_false_iff]
  intro hs
  rcases token_word hk with ⟨w, hw, more, rfl⟩ | ⟨b, more, rfl, hb⟩
  · rw [startsWithWord_cons, Bool.and_eq_true] at hs
    obtain ⟨hstart, hblank⟩ := startsWithWord_append hs.2
    rw [isReserved_of_startsWithWord hw hrest hstart fun x hx => ?_] at hr
    · cases hr
    · obtain ⟨u, hu⟩ : ∃ u, (t ++ rest).drop w.length = x :: u := List.head?_eq_some_iff.mp hx
      rw [hu] at hblank
      obtain rfl := startsWithWord_blank hblank
      rfl
  · rw [startsWithWord_cons, Bool.and_eq_true] at hs
    cases t with
    | nil =>
      cases rest with
      | nil => simp [startsWithWord_nil] at hs
      | cons x rest =>
        rw [List.nil_append, startsWithWord_cons, Bool.and_eq_true] at hs
        exact hb x (.inr hrest) (beq_iff_eq.mp hs.2.1)
    | cons x t =>
      rw [List.cons_append, startsWithWord_cons, Bool.and_eq_true] at hs
      rw [List.all_cons, Bool.and_eq_true] at ht
      exact hb x (.inl ht.1) (beq_iff_eq.mp hs.2.1)

theorem wordByte_facts {b : UInt8} (h : isWordByte b = true) :
    closer? b = none ∧ b ≠ byte '(' ∧ b ≠ byte ')' ∧ Text.lowerByte b ≠ Text.lowerByte 32 ∧
      opensWord (some b) = false := by
  have hrange : b = 46 ∨ b = 95 ∨ 48 ≤ b ∧ b ≤ 57 ∨ 65 ≤ b ∧ b ≤ 90 ∨ 97 ≤ b ∧ b ≤ 122 := by
    grind [isWordByte, isNameByte, Text.isLetterByte, Text.isDigitByte]
  refine ⟨?_, ?_, ?_, ?_, ?_⟩
  · grind [closer?]
  · grind
  · grind
  · grind [Text.lowerByte]
  · grind [opensWord, isIdentByte, Text.isLetterByte, Text.isDigitByte]

/-- Names look like nothing else, whatever stands before them. -/
theorem runs_word (ht : t.all isWordByte = true) (hrest : Ends rest)
    (hr : opensWord before = true → isReserved (t.takeWhile isNameByte) = false) :
    Runs tokens tokens before t rest := by
  induction t generalizing before with
  | nil => exact .nil
  | cons b t ih =>
    rw [List.all_cons, Bool.and_eq_true] at ht
    obtain ⟨hq, ho, hc, hblank, hnext⟩ := wordByte_facts ht.1
    have hword : ∀ w ∈ reserved, keywordAt w before (b :: (t ++ rest)) = false := by
      intro w hw
      cases hopen : opensWord before with
      | false => simp [keywordAt, hopen]
      | true => exact keywordAt_word (hr hopen) hw hrest
    refine .plain ⟨hq, ho, hc, hword _ (by decide), hword _ (by decide), fun k hk => ?_⟩
      (ih ht.2 (by simp [hnext]))
    obtain ⟨u, rfl⟩ : ∃ u, k = 32 :: u := by
      have hall : ∀ k ∈ tokens, k = 32 :: k.tail := by decide
      exact ⟨_, hall k hk⟩
    rw [startsWithWord_cons, beq_eq_false_iff_ne.mpr hblank, Bool.false_and]

theorem valued_word (ht : t.all isWordByte = true)
    (hr : isReserved (t.takeWhile isNameByte) = false) : Valued t :=
  ⟨fun _ _ _ hrest => runs_word ht hrest fun _ => hr, fun _ hrest => apart_word ht hr hrest⟩

/-! ### Values -/

section Quoted

variable {q : Text} (hq : q ≠ []) (h : quotedLength (q ++ rest) = q.length)
include hq h

theorem runs_quoted {K I : List Text} : Runs K I before q rest := by
  have hr : Runs K I before (q ++ []) rest := .quoted hq h .nil
  rwa [List.append_nil] at hr

/-- A word that differs from all quotes does not start with the blank before a quoted segment. -/
theorem not_startsWithWord_quoted (hword : ([39, byte '"', 96, byte '['] : List UInt8).all
    (fun b => differ word [32, b]) = true) : startsWithWord word (32 :: (q ++ rest)) = false := by
  obtain ⟨b, q, rfl⟩ := List.exists_cons_of_ne_nil hq
  have hopen : closer? b ≠ none := by
    intro hnone
    rw [List.cons_append, quotedLength_of_closer? hnone] at h
    cases h
  have hmem : b ∈ ([39, byte '"', 96, byte '['] : List UInt8) := by
    simp only [closer?] at hopen
    grind
  exact startsWithWord_of_differ (List.all_eq_true.mp hword b hmem) (q ++ rest)

theorem apart_quoted : Apart (q ++ rest) := by
  have hall : ∀ k ∈ tokens, ([39, byte '"', 96, byte '['] : List UInt8).all
      (fun b => differ k [32, b]) = true := by decide
  exact fun k hk => not_startsWithWord_quoted hq h (hall k hk)

end Quoted

/-- A quoted segment looks like nothing else. -/
theorem valued_quoted {q : Text} (hq : q ≠ [])
    (h : ∀ rest, Ends rest → quotedLength (q ++ rest) = q.length) : Valued q :=
  ⟨fun _ rest _ hrest => runs_quoted hq (h rest hrest),
    fun rest hrest => apart_quoted hq (h rest hrest)⟩

theorem Ends.fresh (h : Ends t) : Fresh t := by
  intro b hb
  rcases h b hb with rfl | rfl | rfl <;> rfl

theorem valued_literal (u : Text) : Valued (enclose 39 39 u) :=
  valued_quoted (List.cons_ne_nil _ _) fun _ hrest =>
    quotedLength_enclose (by decide) u (hrest.fresh.head?_ne (by decide))

/-- A plain text that differs from every token. -/
theorem valued_of_isPlain (h : isPlain tokens none t [] = true)
    (hd : ∀ k ∈ tokens, differ k (32 :: t) = true) : Valued t :=
  ⟨fun _ _ _ _ => runs_plain h, fun rest _ k hk => startsWithWord_of_differ (hd k hk) rest⟩

theorem valued_valueWord (h : t ∈ valueWords) : Valued t := by
  have hall : ∀ t ∈ valueWords, (isPlain tokens none t [] = true ∧
      ∀ k ∈ tokens, differ k (32 :: t) = true) ∨ t = enclose 39 39 [37] ∨ t = enclose 39 39 [] := by
    decide
  rcases hall t h with ⟨hp, hd⟩ | rfl | rfl
  · exact valued_of_isPlain hp hd
  · exact valued_literal [37]
  · exact valued_literal []

theorem differ_append (u : Text) (h : differ word t = true) : differ word (t ++ u) = true := by
  induction word generalizing t with
  | nil => simp [differ] at h
  | cons a word ih =>
    cases t with
    | nil => simp [differ] at h
    | cons b t =>
      simp only [differ, List.cons_append, Bool.or_eq_true] at h ⊢
      exact h.imp_right ih

/-- A number behind a text that looks like nothing else. -/
theorem valued_numbered {lead digits : Text} (hd : digits.all Text.isDigitByte = true)
    (hlead : isPlain tokens none lead [] = true) (hk : ∀ k ∈ tokens, differ k (32 :: lead) = true) :
    Valued (lead ++ digits) := by
  have hbyte : ∀ b : UInt8, (!Text.isDigitByte b || isPlain tokens none [b] []) = true :=
    Text.forall_byte (by decide)
  refine ⟨fun before rest _ _ => (runs_plain hlead).append ?_, fun rest _ k hmem => ?_⟩
  · generalize lastByte before lead = b
    induction digits generalizing b with
    | nil => exact .nil
    | cons x digits ih =>
      rw [List.all_cons, Bool.and_eq_true] at hd
      have hx := hbyte x
      rw [hd.1, Bool.not_true, Bool.false_or] at hx
      exact (runs_plain hx).append (ih hd.2 (some x))
  · rw [← List.cons_append, ← List.cons_append]
    exact startsWithWord_of_differ (differ_append digits (hk k hmem)) rest

theorem valued_placeholder (d : Dialect) (n : Nat) : Valued (d.profile.placeholder (n + 1)) := by
  have hdigits := Text.all_isDigitByte_ofNat (n + 1)
  cases d with
  | sqlServer =>
    show Valued ("@p" ++ Text.ofNat (n + 1))
    exact valued_numbered hdigits (by decide) (by decide)
  | postgres =>
    show Valued ("$" ++ Text.ofNat (n + 1))
    exact valued_numbered hdigits (by decide) (by decide)
  | oracle =>
    show Valued (":" ++ Text.ofNat (n + 1))
    exact valued_numbered hdigits (by decide) (by decide)
  | mySql | sqlite =>
    show Valued "?"
    exact valued_of_isPlain (by decide) (by decide)

end Sql

/-! ### The lexicon -/

open Sql

/-- Reserved words have letters only. -/
theorem Sql.isLetterByte_of_isReserved {v : Text} (h : isReserved v = true) {b : UInt8}
    (hb : b ∈ v) : Text.isLetterByte b = true := by
  have hall : ∀ w ∈ reserved, w.all Text.isLetterByte = true := by decide
  obtain ⟨w, hw, heq⟩ := List.any_eq_true.mp h
  have hmem : Text.lowerByte b ∈ w.map Text.lowerByte := by
    rw [← eq_of_beq heq]
    exact List.mem_map_of_mem hb
  obtain ⟨c, hc, hlow⟩ := List.mem_map.mp hmem
  exact isLetterByte_of_lowerByte (List.all_eq_true.mp (hall w hw) c hc) hlow.symm

theorem Sql.isReserved_numbered (v : Text) (n : Nat) : isReserved (v ++ Text.ofNat n) = false := by
  rw [Bool.eq_false_iff]
  intro h
  obtain ⟨b, digits, hd⟩ := List.exists_cons_of_ne_nil (Text.ofNat_ne_nil n)
  have hmem : b ∈ Text.ofNat n := by simp [hd]
  have hdigit := List.all_eq_true.mp (Text.all_isDigitByte_ofNat n) b hmem
  have hletter := isLetterByte_of_isReserved h (List.mem_append_right v hmem)
  grind [Text.isDigitByte, Text.isLetterByte]

/-- The lexicon of names that no scanner takes for anything else: without quotes a name has letters,
digits and underscores only and is not reserved. A raw item is a star or such a name, perhaps with
another one behind a point. -/
def Lexicon.readable (quoted : Bool) : Lexicon where
  Name v := quoted = true ∨ v.all isNameByte = true ∧ isReserved v = false
  Raw t := t = "*" ∨ t.all isWordByte = true ∧ isReserved (t.takeWhile isNameByte) = false
  numbered v i h := by
    have hfree := isReserved_numbered v (i + 1)
    rcases h with rfl | h | h
    · exact .inr ⟨all_isNameByte_ofNat (i + 1), hfree⟩
    · exact .inl h
    · exact .inr ⟨by rw [List.all_append, h.1, all_isNameByte_ofNat]; rfl, hfree⟩

variable {st : Settings} {n m : Nat} {t : Text}

theorem all_isWordByte_of_names {v : Text} (h : v.all isNameByte = true) :
    v.all isWordByte = true := by
  rw [List.all_eq_true] at h ⊢
  intro b hb
  rw [isWordByte, h b hb, Bool.true_or]

theorem takeWhile_isNameByte {v : Text} (h : v.all isNameByte = true) :
    v.takeWhile isNameByte = v := by
  have htake : (v ++ []).takeWhile isNameByte = v ++ [].takeWhile isNameByte :=
    List.takeWhile_append_of_pos (List.all_eq_true.mp h)
  simpa using htake

theorem valued_ident {v : Text} (h : (Lexicon.readable st.quoted).Name v) :
    Valued (st.ident v) := by
  unfold Settings.ident
  split
  · exact valued_quoted (quoteIdent_ne_nil st.dialect v) fun rest hrest =>
      quotedLength_quoteIdent st.dialect v hrest.fresh
  · rename_i hq
    rcases h with h | ⟨hv, hr⟩
    · exact absurd h hq
    · exact valued_word (all_isWordByte_of_names hv) (by rwa [takeWhile_isNameByte hv])

/-- Quoted names with a point between them. -/
theorem runs_quotedNames {K I : List Text} {before : Option UInt8} (d : Dialect) (a c : Text)
    {rest : Text} (hK : isPlain K none "." [] = true) (hrest : Ends rest) :
    Runs K I before (d.profile.quoteIdent a ++ "." ++ d.profile.quoteIdent c) rest := by
  have hlen : ∀ v rest, Fresh rest → quotedLength (d.profile.quoteIdent v ++ rest) =
      (d.profile.quoteIdent v).length := fun v _ => quotedLength_quoteIdent d v
  have hne := quoteIdent_ne_nil d
  exact (runs_quoted (hne a) (hlen a _ (fresh_cons.mpr rfl))).join (runs_plain hK)
    (runs_quoted (hne c) (hlen c rest hrest.fresh))

/-- A column behind its alias. -/
theorem valued_column {a c : Text} (ha : (Lexicon.readable st.quoted).Alias a)
    (hc : (Lexicon.readable st.quoted).Name c) : Valued (st.ident a ++ "." ++ st.ident c) := by
  cases hq : st.quoted with
  | true =>
    have hident : ∀ v, st.ident v = st.profile.quoteIdent v := fun v => by
      rw [Settings.ident, if_pos hq]
    rw [hident, hident]
    refine ⟨fun before rest _ hrest => runs_quotedNames st.dialect a c (by decide) hrest,
      fun rest hrest => ?_⟩
    rw [List.append_assoc, List.append_assoc]
    exact apart_quoted (quoteIdent_ne_nil st.dialect a)
      (quotedLength_quoteIdent st.dialect a (fresh_cons.mpr rfl))
  | false =>
    have hplain : ∀ v, st.ident v = v := fun v => by rw [Settings.ident, hq]; rfl
    obtain ⟨hcn, -⟩ := hc.resolve_left (by simp [hq])
    have han : a.all isNameByte = true ∧ isReserved a = false := by
      rcases ha with rfl | h | h
      · exact ⟨rfl, rfl⟩
      · exact absurd h (by simp [hq])
      · exact h
    have hlead : (a ++ "." ++ c).takeWhile isNameByte = a := by
      rw [List.append_assoc, List.takeWhile_append_of_pos (List.all_eq_true.mp han.1)]
      exact List.append_nil a
    rw [hplain, hplain]
    refine valued_word ?_ (by rw [hlead, han.2])
    rw [List.all_append, List.all_append, all_isWordByte_of_names han.1,
      all_isWordByte_of_names hcn]
    rfl

theorem valued_raw {t : Text} (h : (Lexicon.readable st.quoted).Raw t) : Valued t := by
  rcases h with rfl | ⟨ht, hr⟩
  · exact valued_valueWord (by decide)
  · exact valued_word ht hr

/-- A call of a function, or a value in parentheses. -/
theorem runs_call {K I : List Text} {f : Text} (hf : isPlain K none f "(" = true)
    (h : Runs I I (some (byte '(')) t (byte ')' :: rest)) :
    Runs K I before (f ++ "(" ++ t ++ ")") rest := by
  have hname : Runs K I before f ("(" ++ (t ++ byte ')' :: rest)) := runs_of_isPlain hf
  have hgroup : Runs K I (lastByte before f) ("(" ++ (t ++ byte ')' :: [])) rest := .group h .nil
  have hr := Runs.append (by simpa using hname) hgroup
  rw [List.append_assoc, List.append_assoc]
  exact hr

theorem valued_call {f : Text} (hf : f ∈ functionNames) (h : Valued t) :
    Valued (f ++ "(" ++ t ++ ")") := by
  have hall : ∀ f ∈ functionNames, isPlain tokens none f "(" = true ∧
      ∀ k ∈ tokens, differ k (32 :: (f ++ "(")) = true := by decide +kernel
  obtain ⟨hp, hd⟩ := hall f hf
  refine ⟨fun before rest _ _ => runs_call hp (h.runs _ _ rfl (ends_paren rest)),
    fun rest _ k hk => ?_⟩
  have hs := startsWithWord_of_differ (hd k hk) (t ++ ")" ++ rest)
  simpa using hs

/-- Two values with a separator between them. -/
theorem valued_op {a sep b : Text} (hs : sep ∈ valueSeparators) (ha : Valued a) (hb : Valued b) :
    Valued (a ++ sep ++ b) := by
  have hall : ∀ sep ∈ valueSeparators, sep = "," ∨ sep = sep.dropLast ++ " " ∧
      sep.dropLast.head? = some 32 ∧ isPlain tokens none sep.dropLast " " = true := by decide
  have valued : ∀ {sep : Text}, (∀ t, Ends (sep ++ t)) →
      (∀ before, opensWord (lastByte before sep)) →
      (∀ before rest, Apart rest → Runs tokens tokens before sep rest) →
      Valued (a ++ sep ++ b) := by
    intro sep hends hlast hruns
    refine ⟨fun before rest hbefore hrest => ?_, fun rest _ => ?_⟩
    · exact (ha.runs before _ hbefore (hends _)).join (hruns _ _ (hb.apart rest hrest))
        (hb.runs _ rest (hlast _) hrest)
    · rw [List.append_assoc, List.append_assoc]
      exact ha.apart _ (hends _)
  rcases hall sep hs with rfl | ⟨hsep, hhead, hp⟩
  · exact valued (fun t => ends_cons (.inr (.inl rfl))) (fun _ => rfl)
      fun _ _ _ => runs_plain (by decide)
  · rw [hsep]
    refine valued (fun t => ?_) (fun before => ?_) fun before rest h => runs_spaced hp h
    · rw [List.append_assoc]
      exact ends_append hhead
    · rw [lastByte_append]
      rfl

theorem valued_minus (h : Valued t) : Valued ("-" ++ t) := by
  have hall : ∀ k ∈ tokens, differ k [32, byte '-'] = true := by decide
  refine ⟨fun before rest _ hrest => ?_, fun rest _ k hk => ?_⟩
  · exact Runs.append (runs_plain (by decide)) (h.runs _ rest rfl hrest)
  · exact startsWithWord_of_differ (hall k hk) (t ++ rest)

theorem keywordAt_append {word rest : Text} {before : Option UInt8}
    (hb : opensWord before = true) (hrest : Ends rest) :
    keywordAt word before (word ++ rest) = true := by
  have hnext : (rest.head?).any isIdentByte = false := by
    cases rest with
    | nil => rfl
    | cons b rest => rcases hrest b rfl with rfl | rfl | rfl <;> rfl
  simp [keywordAt, startsWithWord, Text.equalIgnoringCase, hb, hnext]

/-- Scanners get through a `CASE` expression, whatever they look for, if they get through what is
inside of it. -/
theorem runs_case {K I : List Text} {c : Text}
    (h : ∀ rest, Runs [] [] (some (byte 'E')) (" WHEN " ++ c) (" " ++ rest))
    (hbefore : opensWord before = true) (hrest : Ends rest) :
    Runs K I before ("CASE WHEN " ++ c ++ " END") rest := by
  have htext : ("CASE WHEN " ++ c ++ " END" : Text) =
      ("CASE" : Text) ++ ((" WHEN " ++ c ++ " " : Text) ++ (("END" : Text) ++ ([] : Text))) := by
    have h₁ : ("CASE WHEN " : Text) = "CASE" ++ " WHEN " := by decide
    have h₂ : (" END" : Text) = " " ++ "END" := by decide
    rw [h₁, h₂]
    simp
  rw [htext]
  refine .choice (keywordAt_append hbefore (ends_cons (.inl rfl)))
    ((h _).append (runs_plain (by decide))) ?_ .nil
  refine keywordAt_append ?_ hrest
  rw [lastByte_append]
  rfl

theorem valued_case {c : Text}
    (h : ∀ rest, Runs [] [] (some (byte 'E')) (" WHEN " ++ c) (" " ++ rest)) :
    Valued ("CASE WHEN " ++ c ++ " END") := by
  have hall : ∀ k ∈ tokens, differ k (32 :: "CASE WHEN ") = true := by decide
  refine ⟨fun before rest hbefore hrest => runs_case h hbefore hrest, fun rest _ k hk => ?_⟩
  rw [List.append_assoc, List.append_assoc]
  exact startsWithWord_of_differ (hall k hk) _

/-! ### The grammar -/

theorem legible_atom {a : Text} (h : Atomic a) : (Formula.atom a).Legible :=
  ⟨trivial, fun b hb => by
    obtain rfl := List.mem_singleton.mp hb
    exact h⟩

/-- Inside of a choice between two values. -/
theorem runs_choice {f : Formula} {a b : Text} (hf : f.Legible) (ha : Valued a) (hb : Valued b)
    (rest : Text) : Runs [] [] (some (byte 'E'))
      (" WHEN " ++ (f.text ++ " THEN " ++ a ++ " ELSE " ++ b)) (" " ++ rest) := by
  have hwhen : Runs [] [] (some (byte 'E')) (" WHEN " ++ f.text)
      (" THEN " ++ (a ++ (" ELSE " ++ (b ++ (" " ++ rest))))) :=
    Runs.append (runs_plain (by decide)) (Formula.runs_text hf.atomic rfl (ends_cons (.inl rfl)))
  have hthen := hwhen.join (runs_plain (by decide))
    ((ha.runs _ _ rfl (ends_cons (.inl rfl))).mono (List.nil_subset _) (List.nil_subset _))
  have helse := hthen.join (runs_plain (by decide))
    ((hb.runs _ _ rfl (ends_cons (.inl rfl))).mono (List.nil_subset _) (List.nil_subset _))
  simpa only [List.append_assoc] using helse

/-- Inside of a count of the rows for which a condition holds. -/
theorem runs_counted {f : Formula} (hf : f.Legible) (rest : Text) :
    Runs [] [] (some (byte 'E')) (" WHEN " ++ (f.text ++ " THEN 1")) (" " ++ rest) := by
  have hwhen : Runs [] [] (some (byte 'E')) (" WHEN " ++ f.text) (" THEN 1" ++ (" " ++ rest)) :=
    Runs.append (runs_plain (by decide)) (Formula.runs_text hf.atomic rfl (ends_cons (.inl rfl)))
  simpa only [List.append_assoc] using hwhen.append (runs_plain (by decide))

theorem counted_eq (c : Text) :
    ("CASE WHEN " ++ c ++ " THEN 1 END" : Text) = "CASE WHEN " ++ (c ++ " THEN 1") ++ " END" := by
  have htail : (" THEN 1 END" : Text) = " THEN 1" ++ " END" := by decide
  rw [htail]
  simp only [List.append_assoc]

theorem valued_choice {f : Formula} {a b : Text} (hf : f.Legible) (ha : Valued a) (hb : Valued b) :
    Valued ("CASE WHEN " ++ f.text ++ " THEN " ++ a ++ " ELSE " ++ b ++ " END") := by
  simpa only [List.append_assoc] using valued_case (runs_choice hf ha hb)

theorem valued_counted {f : Formula} (hf : f.Legible) :
    Valued ("CASE WHEN " ++ f.text ++ " THEN 1 END") :=
  counted_eq f.text ▸ valued_case (runs_counted hf)

mutual

/-- **Scanners get through the texts of values.** -/
theorem ValueText.valued {n m : Nat} {t : Text} :
    ValueText st (.readable st.quoted) n m t → Valued t
  | .word h => valued_valueWord h
  | .mark => valued_placeholder st.dialect _
  | .column ha hc => valued_column ha hc
  | .bare hc => valued_ident hc
  | .raw hf _ ht => valued_call hf (valued_raw ht)
  | .call hf h => valued_call hf h.valued
  | .op hs ha hb => valued_op hs ha.valued hb.valued
  | .minus h => valued_minus h.valued
  | .choice hc ha hb => by
    obtain ⟨f, hf, rfl⟩ := hc.legible
    exact valued_choice hf ha.valued hb.valued
  | .counted hc => by
    obtain ⟨f, hf, rfl⟩ := hc.legible
    exact valued_counted hf

/-- **The texts of conditions are those of legible formulas.** -/
theorem ConditionText.legible {n m : Nat} {t : Text} :
    ConditionText st (.readable st.quoted) n m t → ∃ f : Formula, f.Legible ∧ f.text = t
  | .compare ht ha hb => ⟨.atom _, legible_atom ⟨_, _, _, ht, ha.valued, hb.valued, rfl⟩, rfl⟩
  | .group hc => by
    obtain ⟨f, hf, rfl⟩ := hc.legible
    exact ⟨.group f, hf.group, rfl⟩
  | .join ht ha hb => by
    obtain ⟨f, hf, rfl⟩ := ha.legible
    obtain ⟨g, hg, rfl⟩ := hb.legible
    have hall : ∀ token ∈ logicalTokens, token = " AND " ∨ token = " OR " := by decide
    rcases hall _ ht with rfl | rfl
    · exact ⟨f.conj g, hf.conj hg, Formula.text_conj f g⟩
    · exact ⟨f.disj g, hf.disj hg, Formula.text_disj f g⟩
  | .negate hc => by
    obtain ⟨f, hf, rfl⟩ := hc.legible
    exact ⟨f.swapped, hf.swapped, (negate_text hf).symm⟩

end

/-- A condition that has a text has that of a legible formula. -/
theorem Expr.legible_of_yields {e : Expr} {c : Clause} {s s' : Slate} {t : Text}
    (he : e.Named st (.readable st.quoted)) (hs : s.aliases.Within (.readable st.quoted))
    (h : Emit.Yields ((e.render st).condition c) s t s') (ht : t ≠ []) :
    ∃ f : Formula, f.Legible ∧ f.text = t := by
  obtain ⟨-, ho⟩ := (lawful_render he).condition c s t s' hs h
  exact (ho.of_ne_nil ht).legible

/-! ### Texts in parentheses -/

namespace Sql

/-- The formula in parentheses if asked for. -/
def Formula.grouped (parens : Bool) (f : Formula) : Formula := if parens then group f else f

namespace Formula

variable {f g : Formula} {v : Text → Bool}

@[simp]
theorem atoms_grouped (parens : Bool) (f : Formula) : (f.grouped parens).atoms = f.atoms := by
  cases parens <;> rfl

@[simp]
theorem holds_grouped (parens : Bool) (f : Formula) :
    (f.grouped parens).holds v = f.holds v := by
  cases parens <;> rfl

theorem isOr_grouped (parens : Bool) (f : Formula) :
    (f.grouped parens).isOr = (!parens && f.isOr) := by
  cases parens <;> rfl

theorem Legible.grouped (h : f.Legible) (parens : Bool) : (f.grouped parens).Legible := by
  cases parens with
  | true => exact h.group
  | false => exact h

theorem Legible.text_grouped (h : f.Legible) (parens : Bool) :
    (f.grouped parens).text = Emit.parenthesised parens f.text := by
  have hne : f.text.isEmpty = false := by simpa using text_ne_nil h.atomic
  cases parens <;> simp [Formula.grouped, Emit.parenthesised, hne, text]

end Formula

end Sql

open Sample in
/-- The names of customers need no quotes. -/
theorem Sample.customerRow_readable_of (hr : st.registry = .standard) :
    customerRow.Named st (.readable false) := by
  have columns : ∀ v ∈ customerColumns, v.all isNameByte = true ∧ isReserved v = false := by
    decide
  exact customerRow_named_of hr (.inr (by decide)) (.inr (by decide))
    fun v hv => .inr (columns v hv)

theorem Sample.customerRow_readable (d : Dialect) :
    customerRow.Named (.standard d world) (.readable false) :=
  customerRow_readable_of rfl

end QueryTree
