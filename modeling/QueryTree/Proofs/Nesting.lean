import QueryTree.Proofs.Pieces
import QueryTree.Proofs.RawNames
import QueryTree.Proofs.Rendered

/-!
# Texts of the grammar nest

Every text of the grammar is neat: its parentheses, its quoted segments and the words `CASE` and
`END` nest, and they are found wherever the text stands among others. That is an induction on the
grammar, and each of its rules puts neat texts together with a text that ends the one before it and
opens the one behind it.

Names and raw items are the leaves. The lexicon is `Lexicon.wordless`: without quotes a name has
letters, digits and underscores only and is neither of the words, and no raw item holds one.

## Main definitions

* `Sql.Neat`
* `Sql.holdsWord`, `Lexicon.wordless`

## Main results

* `Sql.Neat.balanced`
* `ValueText.neat`, `ConditionText.neat`
-/

namespace QueryTree

namespace Sql

variable {before : Option UInt8} {a c t v w x y rest word : Text}

/-! ### Neat texts -/

/-- The pieces of the text nest, and these are its pieces wherever it stands. -/
def Neat (t : Text) : Prop := ∃ ps, Reads t ps ∧ Nested ps

theorem Neat.balanced (h : Neat t) : Balanced t := by
  obtain ⟨ps, hreads, hps⟩ := h
  exact Nested.balanced (hreads.pieces_eq ▸ hps)

/-- Whether the text has no quotes and holds no pieces. -/
def isBlank (w : Text) : Bool := isUnquoted w && decide (pieces w = [])

theorem neat_of_isBlank (hw : isBlank w = true) : Neat w := by
  simp only [isBlank, Bool.and_eq_true, decide_eq_true_eq] at hw
  have hreads := reads_unquoted hw.1
  rw [hw.2] at hreads
  exact ⟨[], hreads, .nil⟩

theorem neat_nil : Neat [] := neat_of_isBlank rfl

theorem neat_literal (u : Text) : Neat (Sql.enclose 39 39 u) :=
  ⟨_, reads_quoted (List.cons_ne_nil _ _) fun _ hrest =>
    quotedLength_enclose (by decide) u (hrest.head?_ne (show closer? 39 = some 39 by decide)),
    .quoted u (by decide) .nil⟩

/-- Whether the text can stand between two others. -/
def isBetween (w : Text) : Bool := isBlank w && isClosing w && isOpening w

theorem Neat.join (ha : Neat a) (hw : isBetween w = true) (hc : Neat c) : Neat (a ++ w ++ c) := by
  simp only [isBetween, isBlank, Bool.and_eq_true, decide_eq_true_eq] at hw
  obtain ⟨ps, hps, hn⟩ := ha
  obtain ⟨qs, hqs, hn'⟩ := hc
  have hreads := hps.join (w := w) (by rw [hw.1.2, hw.2]; rfl) hqs
  rw [hw.1.1.2, List.nil_append] at hreads
  exact ⟨_, hreads, hn.append hn'⟩

/-- What can stand before and behind a text: nothing that nests, parentheses, or the two words. -/
def brackets : List (List Piece × List Piece) :=
  [([], []), ([.openParen], [.closeParen]), ([.caseWord], [.endWord])]

/-- Whether a text can stand between the two. -/
def isAround (x y : Text) : Bool :=
  isOpening x && isClosing y && decide ((pieces x, pieces y) ∈ brackets)

theorem Neat.enclose (h : Neat a) (hxy : isAround x y = true) : Neat (x ++ a ++ y) := by
  simp only [isAround, Bool.and_eq_true, decide_eq_true_eq] at hxy
  obtain ⟨ps, hps, hn⟩ := h
  have hreads := hps.enclose hxy.1.1 hxy.1.2
  refine ⟨_, hreads, ?_⟩
  have hmem := hxy.2
  simp only [brackets, List.mem_cons, Prod.mk.injEq, List.not_mem_nil, or_false] at hmem
  rcases hmem with ⟨hx, hy⟩ | ⟨hx, hy⟩ | ⟨hx, hy⟩
  · rw [hx, hy, List.append_nil, List.nil_append]
    exact hn
  · rw [hx, hy]
    exact .group hn .nil
  · rw [hx, hy]
    exact .choice hn .nil

theorem Neat.after (h : Neat a) (hx : (isBlank x && isOpening x) = true) : Neat (x ++ a) := by
  simp only [isBlank, Bool.and_eq_true, decide_eq_true_eq] at hx
  obtain ⟨ps, hps, hn⟩ := h
  have hreads := hps.after hx.2
  rw [hx.1.2, List.nil_append] at hreads
  exact ⟨ps, hreads, hn⟩

theorem Neat.negate (h : Neat c) : Neat (negate c) := by
  obtain ⟨ps, hps, hn⟩ := h
  exact ⟨ps, hps.negate hn.terminated, hn⟩

/-! ### Words -/

/-- Whether the text is one of the words that nest, in any case. -/
def isWord (v : Text) : Bool := v.equalIgnoringCase "CASE" || v.equalIgnoringCase "END"

theorem isWord_of_mem {b : UInt8} (hb : b ∈ v) (h : Text.isLetterByte b = false) :
    isWord v = false := by
  have hword : ∀ word : Text, word.all Text.isLetterByte = true →
      v.equalIgnoringCase word = false := by
    intro word hword
    rw [Bool.eq_false_iff]
    intro heq
    rw [Text.equalIgnoringCase, beq_iff_eq] at heq
    have hmem : Text.lowerByte b ∈ word.map Text.lowerByte := heq ▸ List.mem_map_of_mem hb
    obtain ⟨a, ha, hab⟩ := List.mem_map.mp hmem
    rw [isLetterByte_of_lowerByte (List.all_eq_true.mp hword a ha) hab.symm] at h
    cases h
  rw [isWord, hword "CASE" (by decide), hword "END" (by decide), Bool.or_false]

theorem ident_facts {b : UInt8} (h : isIdentByte b = true) :
    closer? b = none ∧ b ≠ byte '(' ∧ b ≠ byte ')' ∧ opensWord (some b) = false := by
  have hb := Text.not_mem_of_test (l := openers ++ [byte '(', byte ')']) (by decide) h
  have hopens : opensWord (some b) = false := by simp [opensWord, h]
  simpa [closer?_eq_none_iff, hopens, and_assoc] using hb

theorem pieceAt?_eq_none {b : UInt8} (hopen : b ≠ byte '(') (hclose : b ≠ byte ')')
    (hcase : keywordAt "CASE" before (b :: t) = false)
    (hend : keywordAt "END" before (b :: t) = false) : pieceAt? before (b :: t) = none := by
  unfold pieceAt?
  rw [List.head?_cons, if_neg (mt Option.some.inj hopen), if_neg (mt Option.some.inj hclose), hcase,
    hend]
  rfl

/-- Inside of a word nothing is found. -/
theorem piecesFrom_inside (hv : v.all isIdentByte = true) (hb : opensWord before = false) :
    piecesFrom 0 before v = [] := by
  induction v generalizing before with
  | nil => rfl
  | cons b v ih =>
    rw [List.all_cons, Bool.and_eq_true] at hv
    obtain ⟨hclose, hopen, hparen, hnext⟩ := ident_facts hv.1
    rw [piecesFrom_byte hclose, pieceAt?_eq_none hopen hparen (keywordAt_inside hb)
      (keywordAt_inside hb), ih hv.2 hnext]
    rfl

/-- A word that starts a text of identifier bytes and goes no further is the text. -/
theorem equalIgnoringCase_of_startsWithWhole (hv : v.all isIdentByte = true)
    (h : startsWithWhole word v = true) : v.equalIgnoringCase word = true := by
  simp only [startsWithWhole, startsWithWord, Bool.and_eq_true, decide_eq_true_eq,
    Bool.not_eq_true'] at h
  have hdrop : v.drop word.length = [] := by
    cases hd : v.drop word.length with
    | nil => rfl
    | cons b u =>
      have hident := List.all_eq_true.mp hv b (List.mem_of_mem_drop (hd ▸ List.mem_cons_self))
      rw [hd, List.head?_cons, Option.any_some, hident] at h
      cases h.2
  have htake : v.take word.length = v := by
    rw [List.take_of_length_le (List.drop_eq_nil_iff.mp hdrop)]
  rw [← htake]
  exact h.1.2

/-- **A name without quotes holds no piece, unless it is one of the words.** -/
theorem piecesFrom_name (hv : v.all isIdentByte = true) (hword : isWord v = false)
    (before : Option UInt8) : piecesFrom 0 before v = [] := by
  cases v with
  | nil => rfl
  | cons b v =>
    rw [isWord, Bool.or_eq_false_iff] at hword
    have hall := hv
    rw [List.all_cons, Bool.and_eq_true] at hv
    obtain ⟨hclose, hopen, hparen, hnext⟩ := ident_facts hv.1
    have hkeyword : ∀ word, Text.equalIgnoringCase (b :: v) word = false →
        keywordAt word before (b :: v) = false := by
      intro word hne
      rw [keywordAt_eq, Bool.and_eq_false_iff]
      refine .inl (Bool.eq_false_iff.mpr fun hs => ?_)
      rw [equalIgnoringCase_of_startsWithWhole hall hs] at hne
      cases hne
    rw [piecesFrom_byte hclose, pieceAt?_eq_none hopen hparen (hkeyword _ hword.1)
      (hkeyword _ hword.2), piecesFrom_inside hv.2 hnext]
    rfl

theorem isBlank_of_ident (hv : v.all isIdentByte = true) (hword : isWord v = false) :
    isBlank v = true := by
  simp only [isBlank, Bool.and_eq_true, decide_eq_true_eq]
  refine ⟨isUnquoted_iff.mpr fun b hb => ?_, piecesFrom_name hv hword none⟩
  exact (ident_facts (List.all_eq_true.mp hv b hb)).1

theorem all_isIdentByte_of_names (hv : v.all isNameByte = true) : v.all isIdentByte = true := by
  rw [List.all_eq_true] at hv ⊢
  intro b hb
  have hname := hv b hb
  simp only [isNameByte, Bool.or_eq_true] at hname
  rcases hname with (h | h) | h <;> simp only [isIdentByte, h, Bool.true_or, Bool.or_true]

theorem isLetterByte_of_isDigitByte {b : UInt8} (h : Text.isDigitByte b = true) :
    Text.isLetterByte b = false := by
  grind [Text.isDigitByte, Text.isLetterByte]

/-- A numbered name is neither of the words. -/
theorem isWord_numbered (v : Text) (i : Nat) : isWord (v ++ Text.ofNat i) = false := by
  obtain ⟨b, u, hu⟩ := List.exists_cons_of_ne_nil (Text.ofNat_ne_nil i)
  have hdigit := List.all_eq_true.mp (Text.all_isDigitByte_ofNat i) b (hu ▸ List.mem_cons_self)
  exact isWord_of_mem (b := b) (by simp [hu]) (isLetterByte_of_isDigitByte hdigit)

theorem neat_placeholder (d : Dialect) (n : Nat) : Neat (d.profile.placeholder n) := by
  have hdigits := all_isIdentByte_of_names (all_isNameByte_ofNat n)
  have numbered : ∀ lead : Text, lead.all isIdentByte = true → Neat (lead ++ Text.ofNat n) := by
    intro lead hlead
    refine neat_of_isBlank (isBlank_of_ident ?_ (isWord_numbered lead n))
    rw [List.all_append, hlead, hdigits]
    rfl
  cases d with
  | sqlServer => exact numbered "@p" (by decide)
  | postgres => exact numbered "$" (by decide)
  | oracle => exact (numbered [] rfl).after (x := ":") (by decide)
  | mySql | sqlite => exact neat_of_isBlank (w := "?") (by decide)

/-- Whether the text holds one of the words outside of quotes. -/
def holdsWord (t : Text) : Bool := (pieces t).any fun p => p == .caseWord || p == .endWord

/-- The pieces of a text without quotes and parentheses are words. -/
theorem piecesFrom_words (h : ∀ b ∈ t, closer? b = none ∧ b ≠ byte '(' ∧ b ≠ byte ')') {p : Piece}
    (hp : p ∈ piecesFrom 0 before t) : p = .caseWord ∨ p = .endWord := by
  induction t generalizing before with
  | nil => cases hp
  | cons b t ih =>
    obtain ⟨hclose, hopen, hparen⟩ := h b List.mem_cons_self
    rw [piecesFrom_byte hclose, List.mem_append] at hp
    rcases hp with hp | hp
    · simp only [pieceAt?, List.head?_cons, Option.some.injEq, hopen, hparen, if_false] at hp
      grind
    · exact ih (fun c hc => h c (List.mem_cons_of_mem b hc)) hp

/-- A raw item that holds neither of the words holds no piece. -/
theorem neat_of_native (h : Raw.Native t) (hword : holdsWord t = false) : Neat t := by
  have hbytes : ∀ b ∈ t, closer? b = none ∧ b ≠ byte '(' ∧ b ≠ byte ')' := by
    intro b hb
    have hb := Text.not_mem_of_test (f := fun b => !Raw.isForeign b)
      (l := openers ++ [byte '(', byte ')']) (by decide) (by rw [h b hb]; rfl)
    simpa [closer?_eq_none_iff] using hb
  refine neat_of_isBlank ?_
  simp only [isBlank, Bool.and_eq_true, decide_eq_true_eq]
  refine ⟨isUnquoted_iff.mpr fun b hb => (hbytes b hb).1, List.eq_nil_iff_forall_not_mem.mpr ?_⟩
  intro p hp
  have hno := List.any_eq_false.mp hword p hp
  rcases piecesFrom_words hbytes hp with rfl | rfl <;> exact hno rfl

end Sql

/-! ### Names -/

open Sql

/-- The lexicon of names and raw items without the words that nest: in quotes every name is
permitted, and without them a name that has letters, digits and underscores only and is neither of
the words. -/
def Lexicon.wordless (quoted : Bool) : Lexicon where
  Name v := quoted = true ∨ v.all isNameByte = true ∧ isWord v = false
  Raw t := holdsWord t = false
  Table _ := True
  numbered v i h := by
    have hword := isWord_numbered v (i + 1)
    rcases h with rfl | h | h
    · exact .inr ⟨all_isNameByte_ofNat (i + 1), hword⟩
    · exact .inl h
    · exact .inr ⟨by rw [List.all_append, h.1, all_isNameByte_ofNat]; rfl, hword⟩

variable {st : Settings} {n m : Nat} {a c t v rest : Text} {before : Option UInt8}

/-- The pieces of a name. -/
def Settings.namePieces (st : Settings) (v : Text) : List Piece :=
  if st.quoted then [.quoted (st.profile.quoteIdent v)] else []

theorem nested_namePieces (st : Settings) (v : Text) : Nested (st.namePieces v) := by
  unfold Settings.namePieces
  split
  · show Nested [.quoted (st.dialect.profile.quoteIdent v)]
    cases st.dialect <;> exact .quoted v (by decide) .nil
  · exact .nil

/-- A name is read on its own, wherever it stands, if what follows does not go on from it. -/
theorem piecesFrom_ident (hv : (Lexicon.wordless st.quoted).Alias v) (hfresh : Fresh rest)
    (hcut : ∀ b ∈ rest.head?, isIdentByte b = false) (before : Option UInt8) :
    piecesFrom 0 before (st.ident v ++ rest) =
      st.namePieces v ++ piecesFrom 0 (lastByte before (st.ident v)) rest := by
  unfold Settings.ident Settings.namePieces
  split
  · exact piecesFrom_quoted (quoteIdent_ne_nil st.dialect v)
      (quotedLength_quoteIdent st.dialect v hfresh)
  · rename_i hquoted
    have hname : v.all isIdentByte = true ∧ isWord v = false := by
      rcases hv with rfl | h | h
      · exact ⟨rfl, rfl⟩
      · exact absurd h hquoted
      · exact ⟨all_isIdentByte_of_names h.1, h.2⟩
    rw [piecesFrom_append (fun b hb => (ident_facts (List.all_eq_true.mp hname.1 b hb)).1)
      (.inr hcut), piecesFrom_name hname.1 hname.2]

theorem Sql.Ends.cut_head (h : Ends rest) : ∀ b ∈ rest.head?, isIdentByte b = false := by
  intro b hb
  rcases h b hb with rfl | rfl | rfl <;> rfl

theorem neat_ident (hv : (Lexicon.wordless st.quoted).Alias v) : Neat (st.ident v) := by
  refine ⟨st.namePieces v, fun before rest _ hrest => ?_, nested_namePieces st v⟩
  rw [piecesFrom_ident hv hrest.fresh hrest.cut_head, piecesFrom_of_ends hrest]

/-- What stands behind a point is no word. -/
theorem piecesFrom_point (before : Option UInt8) (t : Text) :
    piecesFrom 0 before ("." ++ t) = piecesFrom 0 (some (byte '.')) t := by
  have hword : ∀ word : Text, differ word "." = true →
      keywordAt word before (byte '.' :: t) = false := fun _ h => keywordAt_of_differ h t before
  show piecesFrom 0 before (byte '.' :: t) = _
  rw [piecesFrom_byte rfl, pieceAt?_eq_none (by decide) (by decide) (hword _ (by decide))
    (hword _ (by decide))]
  rfl

theorem piecesFrom_qualified (ha : (Lexicon.wordless st.quoted).Alias a) (before : Option UInt8)
    (t : Text) : piecesFrom 0 before (st.ident a ++ "." ++ t) =
      st.namePieces a ++ piecesFrom 0 (some (byte '.')) t := by
  have hfresh : Fresh (("." : Text) ++ t) := fresh_cons.mpr rfl
  have hpoint : ∀ b ∈ (("." : Text) ++ t).head?, isIdentByte b = false := by
    rintro b hb
    cases hb
    rfl
  rw [List.append_assoc, piecesFrom_ident ha hfresh hpoint, piecesFrom_point]

theorem neat_column (ha : (Lexicon.wordless st.quoted).Alias a)
    (hc : (Lexicon.wordless st.quoted).Name c) : Neat (st.ident a ++ "." ++ st.ident c) := by
  refine ⟨st.namePieces a ++ st.namePieces c, fun before rest _ hrest => ?_,
    (nested_namePieces st a).append (nested_namePieces st c)⟩
  rw [List.append_assoc _ (st.ident c), piecesFrom_qualified ha,
    piecesFrom_ident (.inr hc) hrest.fresh hrest.cut_head, piecesFrom_of_ends hrest,
    List.append_assoc]

theorem neat_allColumns (ha : (Lexicon.wordless st.quoted).Alias a) :
    Neat (st.ident a ++ ".*") := by
  refine ⟨st.namePieces a, fun before rest _ hrest => ?_, nested_namePieces st a⟩
  have hstar : st.ident a ++ ".*" ++ rest = st.ident a ++ "." ++ ("*" ++ rest) := by
    simp only [List.append_assoc]
    rfl
  have hplain : ∀ b ∈ ("*" : Text), closer? b = none := List.all_iff_forall_prop.mp (by decide)
  rw [hstar, piecesFrom_qualified ha, piecesFrom_append hplain (hrest.cut _),
    piecesFrom_of_ends hrest]
  rfl

/-! ### The grammar -/

theorem neat_word (h : t ∈ valueWords) : Neat t := by
  have hall : ∀ t ∈ valueWords, isBlank t = true ∨ t = Sql.enclose 39 39 [37] ∨
      t = Sql.enclose 39 39 [] := by
    decide
  rcases hall t h with hblank | rfl | rfl
  · exact neat_of_isBlank hblank
  · exact neat_literal [37]
  · exact neat_literal []

theorem Sql.Neat.call {f : Text} (h : Neat t) (hf : f ∈ functionNames) :
    Neat (f ++ "(" ++ t ++ ")") := by
  have hall : ∀ f ∈ functionNames, isAround (f ++ "(") ")" = true := by decide
  exact h.enclose (hall f hf)

mutual

/-- The texts of values nest. -/
theorem ValueText.neat {n m : Nat} {t : Text} :
    ValueText st (.wordless st.quoted) n m t → Neat t
  | .word h => neat_word h
  | .mark => neat_placeholder st.dialect _
  | .column ha hc => neat_column ha hc
  | .bare hc => neat_ident (.inr hc)
  | .raw hf hraw ht =>
    (neat_of_native (Raw.native_of_isField (Emit.isField_of_isItem hraw)) ht).call hf
  | .call hf h => h.neat.call hf
  | .op hs ha hb => by
    have hall : ∀ sep ∈ valueSeparators, isBetween sep = true := by decide
    exact ha.neat.join (hall _ hs) hb.neat
  | .minus h => h.neat.after (x := "-") (by decide)
  | .choice hc ha hb => by
    have hinner := (hc.neat.join (w := " THEN ") (by decide) ha.neat).join
      (w := " ELSE ") (by decide) hb.neat
    have h := hinner.enclose (x := "CASE WHEN ") (y := " END") (by decide)
    simpa only [List.append_assoc] using h
  | .counted hc => hc.neat.enclose (by decide)

/-- The texts of conditions nest. -/
theorem ConditionText.neat {n m : Nat} {t : Text} :
    ConditionText st (.wordless st.quoted) n m t → Neat t
  | .compare ht ha hb => by
    have hall : ∀ token ∈ comparisonTokens, isBetween token = true := by decide
    exact ha.neat.join (hall _ ht) hb.neat
  | .group hc => hc.neat.enclose (by decide)
  | .join ht ha hb => by
    have hall : ∀ token ∈ logicalTokens, isBetween token = true := by decide
    exact ha.neat.join (hall _ ht) hb.neat
  | .negate hc => hc.neat.negate

end

end QueryTree
