import QueryTree.Proofs.Woven

/-!
# Quotes, parentheses and `CASE`

What nests in a text are its parentheses and the words `CASE` and `END`, and only outside of quoted
segments. `Sql.pieces` lists all of these from left to right, the quoted segments included, and
`Sql.Nested` says of such a list that every segment is terminated and that what is opened is closed
in the right order. `Sql.Balanced` is what follows for the text.

Pieces can be read part by part. A word is found or not found depending on the bytes around it, so a
part is read for any rest that ends it; texts that end with a blank, a comma or a parenthesis may be
followed by anything.

Negation replaces tokens that hold none of this, and it finds them in any case.

## Main definitions

* `Sql.Piece`, `Sql.pieces`
* `Sql.Nested`, `Sql.Balanced`
* `Sql.Reads`: the pieces of a part of a text

## Main results

* `Sql.Nested.balanced`
* `Sql.Reads.join`, `Sql.Reads.enclose`: parts put together
* `Sql.Reads.negate`: negation keeps the pieces
-/

namespace QueryTree.Sql

/-! ### Pieces -/

/-- What a reader who looks for nesting finds in a text. -/
inductive Piece where
  | quoted (segment : Text)
  | openParen
  | closeParen
  | caseWord
  | endWord
  deriving DecidableEq, Repr

/-- The piece at the start of a text that stands after the byte `before`, quoted segments apart. -/
def pieceAt? (before : Option UInt8) (t : Text) : Option Piece :=
  if t.head? = some (byte '(') then some .openParen
  else if t.head? = some (byte ')') then some .closeParen
  else if keywordAt "CASE" before t then some .caseWord
  else if keywordAt "END" before t then some .endWord
  else none

/-- The pieces of a text after its first `skip` bytes. -/
def piecesFrom : (skip : Nat) → (before : Option UInt8) → Text → List Piece
  | _, _, [] => []
  | skip + 1, _, b :: rest => piecesFrom skip (some b) rest
  | 0, before, b :: rest =>
    match quotedLength (b :: rest) with
    | n + 1 => .quoted ((b :: rest).take (n + 1)) :: piecesFrom n (some b) rest
    | 0 => (pieceAt? before (b :: rest)).toList ++ piecesFrom 0 (some b) rest

/-- The quoted segments of a text and, outside of them, its parentheses and the words `CASE` and
`END`, from left to right. -/
def pieces (t : Text) : List Piece := piecesFrom 0 none t

example : pieces "(CASE WHEN [a(].b = ')' THEN c.end ELSE 1 END)" =
    [.openParen, .caseWord, .quoted "[a(]", .quoted "')'", .endWord, .closeParen] := by
  decide

/-- Every quoted segment is terminated. -/
def Terminated (ps : List Piece) : Prop := ∀ q, .quoted q ∈ ps → ∃ opener closer u,
  closer? opener = some closer ∧ q = enclose opener closer u

/-- Quoted segments that are terminated, and parentheses and the words `CASE` and `END` that are
closed in the order opposite to the one in which they were opened. -/
inductive Nested : List Piece → Prop
  | nil : Nested []
  | quoted {opener closer : UInt8} {ps : List Piece} (t : Text) (h : closer? opener = some closer)
    (hps : Nested ps) : Nested (.quoted (enclose opener closer t) :: ps)
  | group {ps qs : List Piece} (hps : Nested ps) (hqs : Nested qs) :
    Nested (.openParen :: (ps ++ .closeParen :: qs))
  | choice {ps qs : List Piece} (hps : Nested ps) (hqs : Nested qs) :
    Nested (.caseWord :: (ps ++ .endWord :: qs))

/-- Every quoted segment of the text is terminated, and outside of them no prefix closes more
parentheses than it opens, all that are opened are closed, and the words `CASE` and `END` nest with
each other and with the parentheses. -/
structure Balanced (t : Text) : Prop where
  terminated : Terminated (pieces t)
  prefixes : ∀ ps, ps <+: pieces t → ps.count .closeParen ≤ ps.count .openParen
  closed : (pieces t).count .closeParen = (pieces t).count .openParen
  nested : Nested (pieces t)

namespace Nested

variable {ps qs : List Piece}

theorem append (h : Nested ps) (hqs : Nested qs) : Nested (ps ++ qs) := by
  induction h with
  | nil => exact hqs
  | quoted t h _ ih => exact .quoted t h ih
  | group hps _ _ ih =>
    rw [List.cons_append, List.append_assoc]
    exact .group hps ih
  | choice hps _ _ ih =>
    rw [List.cons_append, List.append_assoc]
    exact .choice hps ih

theorem terminated (h : Nested ps) : Terminated ps := by
  intro q hq
  induction h with
  | nil => cases hq
  | quoted t h _ ih =>
    rcases List.mem_cons.mp hq with heq | hq
    · cases heq
      exact ⟨_, _, t, h, rfl⟩
    · exact ih hq
  | group _ _ ihp ihq =>
    simp only [List.mem_cons, List.mem_append, reduceCtorEq, false_or] at hq
    exact hq.elim ihp ihq
  | choice _ _ ihp ihq =>
    simp only [List.mem_cons, List.mem_append, reduceCtorEq, false_or] at hq
    exact hq.elim ihp ihq

theorem count_eq (h : Nested ps) : ps.count .closeParen = ps.count .openParen := by
  induction h with
  | nil => rfl
  | quoted _ _ _ ih => simpa using ih
  | group _ _ ihp ihq =>
    simp only [List.count_cons, List.count_append, ihp, ihq, beq_iff_eq, reduceCtorEq, if_false,
      if_true]
    omega
  | choice _ _ ihp ihq => simp [List.count_append, ihp, ihq]

/-- A prefix of a list put together from two ends in the first or is the first with a prefix of the
second. -/
theorem prefix_append_cases {r : List Piece} (h : r <+: ps ++ qs) :
    r <+: ps ∨ ∃ u, r = ps ++ u ∧ u <+: qs := by
  rcases List.prefix_or_prefix_of_prefix h (List.prefix_append ps qs) with h' | ⟨u, rfl⟩
  · exact .inl h'
  · exact .inr ⟨u, rfl, (List.prefix_append_right_inj ps).mp h⟩

theorem count_le_of_prefix (h : Nested ps) {r : List Piece} (hr : r <+: ps) :
    r.count .closeParen ≤ r.count .openParen := by
  induction h generalizing r with
  | nil =>
    rw [List.prefix_nil.mp hr]
    exact Nat.le_refl 0
  | quoted _ _ _ ih =>
    rcases List.prefix_cons_iff.mp hr with rfl | ⟨u, rfl, hu⟩
    · exact Nat.le_refl 0
    · simpa using ih hu
  | group hps _ ihp ihq =>
    rcases List.prefix_cons_iff.mp hr with rfl | ⟨u, rfl, hu⟩
    · exact Nat.le_refl 0
    · rcases prefix_append_cases hu with hu | ⟨v, rfl, hv⟩
      · have := ihp hu
        simp only [List.count_cons, beq_iff_eq, reduceCtorEq, if_false, if_true]
        omega
      · have hps := hps.count_eq
        rcases List.prefix_cons_iff.mp hv with rfl | ⟨w, rfl, hw⟩
        · simp only [List.count_cons, List.count_append, List.count_nil, beq_iff_eq, reduceCtorEq,
            if_false, if_true]
          omega
        · have := ihq hw
          simp only [List.count_cons, List.count_append, beq_iff_eq, reduceCtorEq, if_false,
            if_true]
          omega
  | choice hps _ ihp ihq =>
    rcases List.prefix_cons_iff.mp hr with rfl | ⟨u, rfl, hu⟩
    · exact Nat.le_refl 0
    · rcases prefix_append_cases hu with hu | ⟨v, rfl, hv⟩
      · simpa using ihp hu
      · have hps := hps.count_eq
        rcases List.prefix_cons_iff.mp hv with rfl | ⟨w, rfl, hw⟩
        · simp [hps]
        · have := ihq hw
          simp only [List.count_cons, List.count_append, beq_iff_eq, reduceCtorEq, if_false]
          omega

theorem balanced {t : Text} (h : Nested (pieces t)) : Balanced t :=
  ⟨h.terminated, fun _ => h.count_le_of_prefix, h.count_eq, h⟩

end Nested

/-! ### Reading pieces -/

variable {before before' : Option UInt8} {b : UInt8} {t w q rest word : Text}

theorem piecesFrom_skip (before : Option UInt8) (q t : Text) :
    piecesFrom q.length before (q ++ t) = piecesFrom 0 (lastByte before q) t := by
  induction q generalizing before with
  | nil => rfl
  | cons b q ih => exact ih (some b)

theorem piecesFrom_quoted (hq : q ≠ []) (h : quotedLength (q ++ t) = q.length) :
    piecesFrom 0 before (q ++ t) = .quoted q :: piecesFrom 0 (lastByte before q) t := by
  obtain ⟨b, q, rfl⟩ := List.exists_cons_of_ne_nil hq
  rw [List.cons_append, piecesFrom, ← List.cons_append, h]
  simp only [List.length_cons]
  rw [piecesFrom_skip, ← List.length_cons (a := b), List.take_left, lastByte]

theorem piecesFrom_byte (hb : closer? b = none) (before : Option UInt8) (t : Text) :
    piecesFrom 0 before (b :: t) =
      (pieceAt? before (b :: t)).toList ++ piecesFrom 0 (some b) t := by
  rw [piecesFrom]
  simp only [quotedLength_of_closer? hb]

theorem pieceAt?_congr (h : opensWord before = opensWord before') (t : Text) :
    pieceAt? before t = pieceAt? before' t := by
  unfold pieceAt? keywordAt
  rw [h]

/-- Of the byte before a text it only matters whether a word can follow it. -/
theorem piecesFrom_congr (h : opensWord before = opensWord before') (t : Text) :
    piecesFrom 0 before t = piecesFrom 0 before' t := by
  cases t with
  | nil => rfl
  | cons b t => rw [piecesFrom, piecesFrom, pieceAt?_congr h]

theorem piecesFrom_of_ends (h : Ends t) (before : Option UInt8) :
    piecesFrom 0 before t = pieces t := by
  cases t with
  | nil => rfl
  | cons b t =>
    have hkeyword : ∀ before, keywordAt "CASE" before (b :: t) = false ∧
        keywordAt "END" before (b :: t) = false := by
      intro before
      have hdiffer : differ "CASE" [b] = true ∧ differ "END" [b] = true := by
        rcases h b rfl with rfl | rfl | rfl <;> decide
      exact ⟨keywordAt_of_differ (t := [b]) hdiffer.1 t before,
        keywordAt_of_differ (t := [b]) hdiffer.2 t before⟩
    have hpiece : pieceAt? before (b :: t) = pieceAt? none (b :: t) := by
      unfold pieceAt?
      rw [(hkeyword before).1, (hkeyword before).2, (hkeyword none).1, (hkeyword none).2]
    rw [pieces, piecesFrom, piecesFrom, hpiece]

/-- A word does not go on from one text into the other. -/
def Cut (w rest : Text) : Prop :=
  (∀ b ∈ w.getLast?, isIdentByte b = false) ∨ ∀ b ∈ rest.head?, isIdentByte b = false

theorem isIdentByte_of_isLetterByte (h : Text.isLetterByte b = true) : isIdentByte b = true := by
  simp [isIdentByte, h]

/-- Whether the text starts with the word and no word goes on from there. -/
def startsWithWhole (word t : Text) : Bool :=
  startsWithWord word t && !((t.drop word.length).head?).any isIdentByte

theorem keywordAt_eq (word : Text) (before : Option UInt8) (t : Text) :
    keywordAt word before t = (startsWithWhole word t && opensWord before) := by
  rw [keywordAt, startsWithWhole, Bool.and_assoc, Bool.and_comm (opensWord before),
    ← Bool.and_assoc]

theorem startsWithWhole_append (hword : word.all Text.isLetterByte = true) (hcut : Cut w rest)
    (hne : w = [] → ∀ b ∈ rest.head?, isIdentByte b = false) :
    startsWithWhole word (w ++ rest) = startsWithWhole word w := by
  induction word generalizing w with
  | nil =>
    cases w with
    | nil =>
      have hany : rest.head?.any isIdentByte = false := by
        cases rest with
        | nil => rfl
        | cons c rest => simpa using hne rfl c rfl
      simp [startsWithWhole, startsWithWord, hany]
    | cons b w => simp [startsWithWhole, startsWithWord, Text.equalIgnoringCase]
  | cons a word ih =>
    rw [List.all_cons, Bool.and_eq_true] at hword
    have letter : ∀ {c : UInt8}, isIdentByte c = false →
        (Text.lowerByte c == Text.lowerByte a) = false := by
      intro c hc
      rw [beq_eq_false_iff_ne]
      intro heq
      have := isIdentByte_of_isLetterByte (isLetterByte_of_lowerByte hword.1 heq)
      rw [hc] at this
      cases this
    cases w with
    | nil =>
      cases rest with
      | nil => rfl
      | cons c rest =>
        simp only [List.nil_append, startsWithWhole, startsWithWord_cons, startsWithWord_nil,
          letter (hne rfl c rfl), Bool.false_and]
    | cons b w =>
      simp only [List.cons_append, startsWithWhole, startsWithWord_cons, List.length_cons,
        List.drop_succ_cons, Bool.and_assoc]
      cases hb : Text.lowerByte b == Text.lowerByte a with
      | false => rfl
      | true =>
        refine congrArg (true && ·) (ih hword.2 ?_ fun hw => ?_)
        · refine hcut.imp_left fun hlast c hc => hlast c ?_
          cases w with
          | nil => cases hc
          | cons d w => exact hc
        · refine hcut.resolve_left fun hlast => ?_
          subst hw
          rw [letter (hlast b rfl)] at hb
          cases hb

theorem keywordAt_append (hword : word.all Text.isLetterByte = true) (hcut : Cut (b :: w) rest) :
    keywordAt word before (b :: w ++ rest) = keywordAt word before (b :: w) := by
  rw [keywordAt_eq, keywordAt_eq, startsWithWhole_append hword hcut nofun]

/-- A text without quotes is read on its own where no word goes on. -/
theorem piecesFrom_append (hq : ∀ b ∈ w, closer? b = none) (hcut : Cut w rest)
    (before : Option UInt8) : piecesFrom 0 before (w ++ rest) =
      piecesFrom 0 before w ++ piecesFrom 0 (lastByte before w) rest := by
  induction w generalizing before with
  | nil => rfl
  | cons b w ih =>
    have hb := hq b List.mem_cons_self
    have hpiece : pieceAt? before (b :: (w ++ rest)) = pieceAt? before (b :: w) := by
      have hword : ∀ word : Text, word.all Text.isLetterByte = true →
          keywordAt word before (b :: (w ++ rest)) = keywordAt word before (b :: w) :=
        fun _ hword => keywordAt_append hword hcut
      unfold pieceAt?
      rw [hword "CASE" (by decide), hword "END" (by decide)]
      rfl
    have hcut' : Cut w rest := hcut.imp_left fun hlast c hc => hlast c (by
      cases w with
      | nil => cases hc
      | cons d w => exact hc)
    rw [List.cons_append, piecesFrom_byte hb, piecesFrom_byte hb, hpiece,
      ih (fun c hc => hq c (List.mem_cons_of_mem b hc)) hcut', lastByte, List.append_assoc]

theorem Ends.cut (h : Ends rest) (w : Text) : Cut w rest := by
  refine .inr fun b hb => ?_
  rcases h b hb with rfl | rfl | rfl <;> rfl

/-! ### Parts of a text -/

/-- These are the pieces of the text wherever it stands, if words can follow what stands before it
and what follows ends it. -/
def Reads (t : Text) (ps : List Piece) : Prop :=
  ∀ before rest, opensWord before = true → Ends rest →
    piecesFrom 0 before (t ++ rest) = ps ++ pieces rest

/-- Whether the text has no quotes. -/
def isUnquoted (w : Text) : Bool := w.all fun b => closer? b == none

/-- Whether the text has no quotes and anything may follow it. -/
def isOpening (w : Text) : Bool := isUnquoted w && opensWord (lastByte none w)

/-- Whether the text has no quotes and ends a value. -/
def isClosing (w : Text) : Bool :=
  isUnquoted w && w.head?.any fun b => b == 32 || b == byte ',' || b == byte ')'

theorem isUnquoted_iff : isUnquoted w = true ↔ ∀ b ∈ w, closer? b = none := by
  simp [isUnquoted]

theorem ends_of_isClosing (h : isClosing w = true) (rest : Text) : Ends (w ++ rest) := by
  simp only [isClosing, Bool.and_eq_true] at h
  cases w with
  | nil => cases h.2
  | cons b w =>
    refine ends_cons ?_
    simpa [or_assoc] using h.2

theorem piecesFrom_of_opensWord (h : opensWord before = true) (t : Text) :
    piecesFrom 0 before t = pieces t := piecesFrom_congr h t

theorem getLast?_eq_lastByte (w : Text) : w.getLast? = lastByte none w := by
  have hall : ∀ before, lastByte before w = w.getLast?.or before := by
    induction w with
    | nil => intro before; simp [lastByte]
    | cons b w ih =>
      intro before
      rw [lastByte, ih, List.getLast?_cons]
      cases w.getLast? <;> rfl
  rw [hall, Option.or_none]

/-- Anything may follow an opening text. -/
theorem piecesFrom_opening (hw : isOpening w = true) (hb : opensWord before = true)
    (rest : Text) : piecesFrom 0 before (w ++ rest) = pieces w ++ pieces rest := by
  simp only [isOpening, Bool.and_eq_true] at hw
  have hcut : Cut w rest := by
    refine .inl fun b hlast => ?_
    rw [getLast?_eq_lastByte] at hlast
    rw [hlast] at hw
    have hopen := hw.2
    simp only [opensWord, Bool.not_eq_true', Bool.or_eq_false_iff] at hopen
    exact hopen.1
  have hlast : opensWord (lastByte before w) = true := by
    cases w with
    | nil => exact hb
    | cons c w => exact hw.2
  rw [piecesFrom_append (isUnquoted_iff.mp hw.1) hcut, piecesFrom_of_opensWord hb,
    piecesFrom_of_opensWord hlast]

theorem Reads.pieces_eq {ps : List Piece} (h : Reads t ps) : pieces t = ps := by
  have hnil := h none [] rfl ends_nil
  rwa [List.append_nil, show pieces [] = [] from rfl, List.append_nil] at hnil

theorem reads_unquoted (hw : isUnquoted w = true) : Reads w (pieces w) := by
  intro before rest hb hrest
  rw [piecesFrom_append (isUnquoted_iff.mp hw) (hrest.cut w), piecesFrom_of_opensWord hb,
    piecesFrom_of_ends hrest]

theorem reads_quoted (hq : q ≠ []) (h : ∀ rest, Ends rest → quotedLength (q ++ rest) = q.length) :
    Reads q [.quoted q] := by
  intro before rest _ hrest
  rw [piecesFrom_quoted hq (h rest hrest), piecesFrom_of_ends hrest]
  rfl

variable {a c x y : Text} {ps qs : List Piece}

/-- Two parts with a text between them that ends the first and opens the second. -/
theorem Reads.join (ha : Reads a ps) (hw : (isClosing w && isOpening w) = true)
    (hc : Reads c qs) : Reads (a ++ w ++ c) (ps ++ (pieces w ++ qs)) := by
  rw [Bool.and_eq_true] at hw
  intro before rest hb hrest
  have hright : pieces (c ++ rest) = qs ++ pieces rest := hc none rest rfl hrest
  have hmiddle : pieces (w ++ (c ++ rest)) = pieces w ++ pieces (c ++ rest) :=
    piecesFrom_opening hw.2 rfl _
  rw [List.append_assoc, List.append_assoc, ha before _ hb (ends_of_isClosing hw.1 _), hmiddle,
    hright]
  simp only [List.append_assoc]

/-- A part between a text that opens it and one that ends it. -/
theorem Reads.enclose (ha : Reads a ps) (hx : isOpening x = true) (hy : isClosing y = true) :
    Reads (x ++ a ++ y) (pieces x ++ (ps ++ pieces y)) := by
  intro before rest hb hrest
  have hleft : pieces (a ++ (y ++ rest)) = ps ++ pieces (y ++ rest) :=
    ha none (y ++ rest) rfl (ends_of_isClosing hy rest)
  have hright : pieces (y ++ rest) = pieces y ++ pieces rest :=
    reads_unquoted (Bool.and_eq_true_iff.mp hy).1 none rest rfl hrest
  rw [List.append_assoc, List.append_assoc, piecesFrom_opening hx hb, hleft, hright]
  simp only [List.append_assoc]

/-- A part behind a text that opens it. -/
theorem Reads.after (ha : Reads a ps) (hx : isOpening x = true) :
    Reads (x ++ a) (pieces x ++ ps) := by
  intro before rest hb hrest
  have hright : pieces (a ++ rest) = ps ++ pieces rest := ha none rest rfl hrest
  rw [List.append_assoc, piecesFrom_opening hx hb, hright, List.append_assoc]

/-! ### Negation -/

theorem lowerByte_lowerByte (b : UInt8) :
    Text.lowerByte (Text.lowerByte b) = Text.lowerByte b := by
  grind -ring -linarith [Text.lowerByte]

theorem isIdentByte_lowerByte (b : UInt8) : isIdentByte (Text.lowerByte b) = isIdentByte b := by
  cases hletter : Text.isLetterByte b with
  | true => simp [isIdentByte, Text.isLetterByte_lowerByte, hletter]
  | false => rw [Text.lowerByte_of_not_letter hletter]

theorem opensWord_lowerByte (b : UInt8) :
    opensWord (some (Text.lowerByte b)) = opensWord (some b) := by
  have hpoint : (Text.lowerByte b == byte '.') = (b == byte '.') :=
    Bool.eq_iff_iff.mpr (by simpa using Text.lowerByte_eq_iff (by decide))
  rw [opensWord, opensWord, isIdentByte_lowerByte, hpoint]

theorem startsWithWhole_map (word t : Text) :
    startsWithWhole word (t.map Text.lowerByte) = startsWithWhole word t := by
  have hstart : startsWithWord word (t.map Text.lowerByte) = startsWithWord word t := by
    simp only [startsWithWord, Text.equalIgnoringCase, List.length_map, List.map_take,
      List.map_map]
    have hcomp : Text.lowerByte ∘ Text.lowerByte = Text.lowerByte := funext lowerByte_lowerByte
    rw [hcomp]
  have hnext : (((t.map Text.lowerByte).drop word.length).head?).any isIdentByte =
      ((t.drop word.length).head?).any isIdentByte := by
    rw [← List.map_drop, List.head?_map, Option.any_map]
    congr 1
    exact funext isIdentByte_lowerByte
  rw [startsWithWhole, startsWithWhole, hstart, hnext]

/-- The case of letters does not matter. -/
theorem piecesFrom_map (hq : ∀ b ∈ t, closer? b = none)
    (hb : opensWord before' = opensWord before) :
    piecesFrom 0 before' (t.map Text.lowerByte) = piecesFrom 0 before t := by
  induction t generalizing before before' with
  | nil => rfl
  | cons b t ih =>
    have hclose := hq b List.mem_cons_self
    have hword : ∀ word, keywordAt word before' ((b :: t).map Text.lowerByte) =
        keywordAt word before (b :: t) := fun word => by
      rw [keywordAt_eq, keywordAt_eq, startsWithWhole_map, hb]
    have hpiece : pieceAt? before' ((b :: t).map Text.lowerByte) = pieceAt? before (b :: t) := by
      simp only [pieceAt?, hword]
      have hparens :
          Text.isLetterByte (byte '(') = false ∧ Text.isLetterByte (byte ')') = false := by
        decide
      simp only [List.map_cons, List.head?_cons, Option.some.injEq,
        Text.lowerByte_eq_iff hparens.1, Text.lowerByte_eq_iff hparens.2]
    rw [List.map_cons, piecesFrom_byte (by rw [closer?_lowerByte, hclose]), ← List.map_cons,
      hpiece, piecesFrom_byte hclose, ih (fun c hc => hq c (List.mem_cons_of_mem b hc))
        (opensWord_lowerByte b)]

/-- A token and its complement hold no pieces, and they start and end with a blank. -/
theorem pieces_negations : ∀ x ∈ negations, ∀ y ∈ [x.1, x.2],
    isUnquoted y = true ∧ pieces y = [] ∧ y.head? = some 32 ∧ y.getLast? = some 32 := by
  decide

/-- Nothing is found in a token, whatever its case. -/
theorem piecesFrom_token {z : Text × Text} (hz : z ∈ negations) (hy : y ∈ [z.1, z.2])
    (hw : w.map Text.lowerByte = y.map Text.lowerByte) (before : Option UInt8) (rest : Text) :
    piecesFrom 0 before (w ++ rest) = pieces rest := by
  obtain ⟨hunquoted, hnil, hhead, hlast⟩ := pieces_negations z hz y hy
  have hquotes : ∀ b ∈ w, closer? b = none := by
    intro b hb
    have hmem : Text.lowerByte b ∈ y.map Text.lowerByte := hw ▸ List.mem_map_of_mem hb
    obtain ⟨c, hc, heq⟩ := List.mem_map.mp hmem
    rw [← closer?_lowerByte, ← heq, closer?_lowerByte, isUnquoted_iff.mp hunquoted c hc]
  have hblank : w.getLast? = some 32 := by
    have hmap : w.getLast?.map Text.lowerByte = some (Text.lowerByte 32) := by
      rw [← List.getLast?_map, hw, List.getLast?_map, hlast]
      rfl
    obtain ⟨b, hb, heq⟩ := Option.map_eq_some_iff.mp hmap
    rw [hb, eq_blank_of_lowerByte heq]
  have hcut : Cut w rest := .inl fun b hb => by
    rw [hblank] at hb
    cases hb
    rfl
  have hends : Ends y := fun b hb => .inl (by
    rw [hhead] at hb
    exact (Option.some.inj hb).symm)
  have hw' : piecesFrom 0 before w = [] := by
    have hlower : piecesFrom 0 before (w.map Text.lowerByte) = piecesFrom 0 before w :=
      piecesFrom_map hquotes rfl
    have hlower' : piecesFrom 0 before (y.map Text.lowerByte) = piecesFrom 0 before y :=
      piecesFrom_map (isUnquoted_iff.mp hunquoted) rfl
    rw [← hlower, hw, hlower', piecesFrom_of_ends hends, hnil]
  have hopens : opensWord (lastByte before w) = true := by
    obtain ⟨u, rfl⟩ := List.getLast?_eq_some_iff.mp hblank
    rw [lastByte_append]
    rfl
  rw [piecesFrom_append hquotes hcut, hw', piecesFrom_of_opensWord hopens, List.nil_append]

/-- Both texts have the same pieces, whatever ends them, if the first ends its segments. They agree
up to a blank, so that what stands before them is read alike. -/
def SamePieces (t t' : Text) : Prop :=
  Alike t t' ∧ ∀ before rest, Terminated (piecesFrom 0 before t) → Ends rest →
    piecesFrom 0 before (t ++ rest) = piecesFrom 0 before (t' ++ rest)

theorem pieceAt?_of_alike {t' : Text} (h : Alike t t') (before : Option UInt8) :
    pieceAt? before t = pieceAt? before t' := by
  unfold pieceAt?
  rw [h.head?_eq, h.keywordAt_eq (by decide), h.keywordAt_eq (by decide)]

theorem Ends.head?_ne (h : Ends rest) {opener closer : UInt8} (ho : closer? opener = some closer) :
    rest.head? ≠ some closer := by
  have hclosers : ∀ closer, closer = 32 ∨ closer = byte ',' ∨ closer = byte ')' →
      closer? opener ≠ some closer := by
    rintro _ (rfl | rfl | rfl) <;> grind [closer?]
  exact fun hhead => hclosers closer (h closer hhead) ho

theorem rewriting_samePieces : Rewriting SamePieces where
  nil := ⟨rfl, fun _ _ _ _ => rfl⟩
  copy := by
    rintro b t t' hb ⟨halike, hpieces⟩
    have halike' : Alike (b :: t) (b :: t') := alike_cons fun _ => halike
    refine ⟨halike', fun before rest hterm hrest => ?_⟩
    rw [piecesFrom_byte hb] at hterm
    have hhead := pieceAt?_of_alike (halike'.append_right rest) before
    rw [List.cons_append, List.cons_append] at hhead
    rw [List.cons_append, List.cons_append, piecesFrom_byte hb, piecesFrom_byte hb, hhead,
      hpieces (some b) rest (fun q hq => hterm q (List.mem_append_right _ hq)) hrest]
  quoted := by
    rintro q t t' hq hlength ⟨halike, hpieces⟩
    refine ⟨halike.append_left q, fun before rest hterm hrest => ?_⟩
    rw [piecesFrom_quoted hq hlength] at hterm
    obtain ⟨opener, closer, u, hcloser, rfl⟩ := hterm q List.mem_cons_self
    -- the segment is terminated, so it ends with the text if nothing follows it there
    have hends : ∀ {u' : Text}, Alike t u' →
        quotedLength (Sql.enclose opener closer u ++ (u' ++ rest)) =
          (Sql.enclose opener closer u).length := by
      intro u' hu'
      cases u' with
      | nil => exact quotedLength_enclose hcloser u (hrest.head?_ne hcloser)
      | cons b u' =>
        obtain ⟨t, rfl⟩ := List.head?_eq_some_iff.mp hu'.head?_eq
        exact quotedLength_append_cons (u' ++ rest) hq hlength
    rw [List.append_assoc, List.append_assoc, piecesFrom_quoted hq (hends rfl),
      piecesFrom_quoted hq (hends halike),
      hpieces _ rest (fun q hq => hterm q (List.mem_cons_of_mem _ hq)) hrest]
  token := by
    rintro z w t t' hz hw ⟨-, hpieces⟩
    have halike : Alike (w ++ t) (z.2 ++ t') := by
      obtain ⟨h₁, h₂, -⟩ := token_eq_blank_cons hz
      rw [h₁] at hw
      obtain ⟨b, w, rfl, hb, -⟩ := List.map_eq_cons_iff.mp hw
      rw [eq_blank_of_lowerByte hb, h₂]
      rfl
    refine ⟨halike, fun before rest hterm hrest => ?_⟩
    rw [piecesFrom_token hz (by simp) hw] at hterm
    rw [List.append_assoc, List.append_assoc, piecesFrom_token hz (by simp) hw,
      piecesFrom_token hz (by simp) rfl]
    exact hpieces none rest hterm hrest

/-- **Negation keeps the pieces.** -/
theorem Reads.negate (h : Reads c ps) (hps : Terminated ps) : Reads (negate c) ps := by
  intro before rest hb hrest
  rw [← h before rest hb hrest]
  refine ((rewriting_samePieces.negate c).2 before rest ?_ hrest).symm
  rwa [piecesFrom_of_opensWord hb, h.pieces_eq]

end QueryTree.Sql
