import QueryTree.Proofs.Interpolated
import QueryTree.Proofs.Literals
import QueryTree.Proofs.Woven

/-!
# Quotations are opaque

A text is put in quotes in five ways, and all of them have to be undone by one scanner that does not
know which way was used. It goes by the opening byte only, and by the rule that a closing byte which
is written twice does not close.

The literals of MySQL have a second escape, the backslash, of which the scanner knows nothing. It
need not: every backslash of the text is written twice, so behind an even number of them a quote
means the same with and without the escape. That is why the scanner and the reader of MySQL, which
takes a backslash together with the byte behind it, end at the same byte.

What follows a quotation must not begin with its closing byte. Nothing else is asked of it: the
scanners look back by one byte to see whether a keyword may start, and a closing quote lets it start
as the beginning of the text does.

## Main definitions

* `Sql.Quotation`, `Sql.Quotation.write`: the ways to put a text in quotes
* `Sql.Quotation.read?`: the reader, with or without the backslash escape
* `Dialect.quotation`: how a dialect quotes its names

## Main results

* `Sql.Quotation.read?_write`: what is written is read back, whatever follows
* `Sql.Quotation.write_spec`: the scanner ends where the reader ends, and writing loses nothing
* `Sql.quoteIdent_opaque`: negation and interpolation pass over a quoted name
-/

namespace QueryTree

namespace Sql

/-- A way to put a text in quotes: one of the three for names, or a string literal, in which
backslashes may have to be escaped. -/
inductive Quotation where
  | double
  | backtick
  | bracket
  | literal (backslashes : Bool)
  deriving DecidableEq, Repr

namespace Quotation

/-- The text in quotes. -/
def write : Quotation → Text → Text
  | double, t => doubleQuote t
  | backtick, t => Sql.backtick t
  | bracket, t => Sql.bracket t
  | literal backslashes, t => stringLiteral t backslashes

/-- The byte that opens a quotation. -/
def opener : Quotation → UInt8
  | double => byte '"'
  | backtick => 96
  | bracket => byte '['
  | literal _ => 39

/-- The byte that closes a quotation. -/
def closer : Quotation → UInt8
  | double => byte '"'
  | backtick => 96
  | bracket => byte ']'
  | literal _ => 39

/-- Whether a backslash escapes the byte behind it. -/
def escapes : Quotation → Bool
  | literal backslashes => backslashes
  | _ => false

/-- What a backslash and a byte stand for in a literal of MySQL. Before the two wildcards of
patterns the backslash stays, and before any byte without a meaning it is dropped. -/
def escaped (b : UInt8) : Text :=
  if b = byte '0' then [0]
  else if b = byte 'b' then [8]
  else if b = byte 't' then [9]
  else if b = byte 'n' then [10]
  else if b = byte 'r' then [13]
  else if b = byte 'Z' then [26]
  else if b = byte '%' ∨ b = byte '_' then [byte '\\', b]
  else [b]

/-- Reads a quotation from behind its opening byte: the text that it stands for and what follows
it. A quotation that is not closed is none. -/
def readFrom? (closer : UInt8) (escapes : Bool) : Text → Option (Text × Text)
  | [] => none
  | [b] => if b = closer then some ([], []) else none
  | b :: c :: rest =>
    if b = closer then
      if c = closer then (readFrom? closer escapes rest).map fun (t, after) => (closer :: t, after)
      else some ([], c :: rest)
    else if escapes && b == byte '\\' then
      (readFrom? closer escapes rest).map fun (t, after) => (escaped c ++ t, after)
    else (readFrom? closer escapes (c :: rest)).map fun (t, after) => (b :: t, after)

/-- Reads the quotation at the start of a text. -/
def read? (k : Quotation) : Text → Option (Text × Text)
  | [] => none
  | b :: rest => if b = k.opener then readFrom? k.closer k.escapes rest else none

/-- What stands between the quotes before closing bytes are doubled. -/
def content (k : Quotation) (t : Text) : Text := if k.escapes then t.double (byte '\\') else t

theorem write_eq_enclose (k : Quotation) (t : Text) :
    k.write t = enclose k.opener k.closer (k.content t) := by
  cases k <;> rfl

theorem closer?_opener (k : Quotation) : closer? k.opener = some k.closer := by
  cases k <;> rfl

theorem closer_ne_backslash (k : Quotation) : k.closer ≠ byte '\\' := by
  cases k <;> simp [closer]

variable {k : Quotation} {b closer : UInt8} {t rest : Text}

/-! ### Reading what was written -/

theorem readFrom?_closer (h : rest.head? ≠ some closer) (escapes : Bool) :
    readFrom? closer escapes (closer :: rest) = some ([], rest) := by
  cases rest with
  | nil => rw [readFrom?, if_pos rfl]
  | cons b rest =>
    have hb : b ≠ closer := by simpa using h
    rw [readFrom?, if_pos rfl, if_neg hb]

/-- A byte that neither closes nor escapes stands for itself. -/
theorem readFrom?_plain (hb : b ≠ closer) {escapes : Bool}
    (he : (escapes && b == byte '\\') = false) (ht : t ≠ []) : readFrom? closer escapes (b :: t) =
      (readFrom? closer escapes t).map fun (u, after) => (b :: u, after) := by
  obtain ⟨c, t, rfl⟩ := List.exists_cons_of_ne_nil ht
  rw [readFrom?, if_neg hb, he]
  rfl

theorem readFrom?_content (k : Quotation) (t : Text) (h : rest.head? ≠ some k.closer) :
    readFrom? k.closer k.escapes ((k.content t).double k.closer ++ k.closer :: rest) =
      some (t, rest) := by
  have hne : byte '\\' ≠ k.closer := k.closer_ne_backslash.symm
  induction t with
  | nil =>
    have hnil : (k.content []).double k.closer = [] := by simp [content, Text.double]
    rw [hnil, List.nil_append]
    exact readFrom?_closer h k.escapes
  | cons b t ih =>
    by_cases hescape : (k.escapes && b == byte '\\') = true
    · -- a backslash that is written twice
      obtain ⟨he, hb⟩ := Bool.and_eq_true _ _ ▸ hescape
      obtain rfl := beq_iff_eq.mp hb
      have hcontent : (k.content (byte '\\' :: t)).double k.closer =
          byte '\\' :: byte '\\' :: (k.content t).double k.closer := by
        simp only [content, he, if_true, Text.double, if_neg hne]
      rw [hcontent, List.cons_append, List.cons_append, readFrom?, if_neg hne, hescape, ih]
      rfl
    · rw [Bool.not_eq_true] at hescape
      have hcontent : k.content (b :: t) = b :: k.content t := by
        unfold content
        cases he : k.escapes with
        | false => rfl
        | true =>
          rw [he, Bool.true_and, beq_eq_false_iff_ne] at hescape
          rw [if_pos rfl, if_pos rfl, Text.double, if_neg hescape]
      rw [hcontent, Text.double]
      split
      · -- a closing byte that is written twice
        rename_i hb
        rw [List.cons_append, List.cons_append, readFrom?, if_pos rfl, if_pos rfl, ih, hb]
        rfl
      · rename_i hb
        rw [List.cons_append, readFrom?_plain hb hescape (by simp), ih]
        rfl

/-- **What is written is read back, whatever follows.** -/
theorem read?_write (k : Quotation) (t : Text) (h : rest.head? ≠ some k.closer) :
    k.read? (k.write t ++ rest) = some (t, rest) := by
  rw [write_eq_enclose, enclose, List.cons_append, List.append_assoc, read?, if_pos rfl]
  exact readFrom?_content k t h

theorem write_injective (k : Quotation) : Function.Injective k.write := by
  intro t u h
  have hnil : ([] : Text).head? ≠ some k.closer := by simp
  have ht := k.read?_write t hnil
  rw [h, k.read?_write u hnil] at ht
  exact (congrArg Prod.fst (Option.some.inj ht)).symm

/-- What stands between the quotes, with doubled closing bytes written once. -/
theorem undouble_write (k : Quotation) (t : Text) :
    Text.undouble k.closer (k.write t).tail.dropLast = k.content t := by
  rw [write_eq_enclose, enclose, List.tail_cons, List.dropLast_concat, Text.undouble_double]

theorem quotedLength_write (k : Quotation) (t : Text) (h : rest.head? ≠ some k.closer) :
    quotedLength (k.write t ++ rest) = (k.write t).length := by
  rw [write_eq_enclose]
  exact quotedLength_enclose k.closer?_opener _ h

/-- **The scanner ends where the reader ends, and writing loses nothing.** Where backslashes are not
escaped, it is enough to write the doubled closing bytes once again. -/
theorem write_spec (k : Quotation) (t rest : Text) (h : rest.head? ≠ some k.closer) :
    skipQuoted (k.write t ++ rest) 0 = (k.write t).length ∧
      k.read? (k.write t ++ rest) = some (t, rest) ∧
      (k.escapes = false → Text.undouble k.closer (k.write t).tail.dropLast = t) ∧
      Function.Injective k.write := by
  refine ⟨?_, k.read?_write t h, fun he => ?_, k.write_injective⟩
  · rw [skipQuoted, List.drop_zero, Nat.zero_add, k.quotedLength_write t h]
  · rw [undouble_write, content, he]
    rfl

/-- A literal of quotes and backslashes, before a quote of another kind. -/
theorem write_spec_literal :
    (literal true).write "\\''\\" = "'\\\\''''\\\\'" ∧
      (literal true).read? ((literal true).write "\\''\\" ++ ("\"" : Text)) =
        some (("\\''\\" : Text), ("\"" : Text)) :=
  ⟨by decide, ((literal true).write_spec "\\''\\" "\"" (by decide)).2.1⟩

end Quotation

/-! ### Scanners that start in the middle -/

variable {before before' : Option UInt8} {q t : Text}

/-- What negation finds depends on the byte before only by whether a word may start. -/
theorem negationStep_congr (h : opensWord before = opensWord before') (t : Text) :
    negationStep before t = negationStep before' t := by
  have hkeyword : ∀ word, keywordAt word before t = keywordAt word before' t := fun word => by
    rw [keywordAt, keywordAt, h]
  have hend : lengthToEnd 1 4 before t = lengthToEnd 1 4 before' t := by
    cases t <;> rfl
  have hcase : caseLength before t = caseLength before' t := by
    rw [caseLength, caseLength, hkeyword, hend]
  unfold negationStep
  rw [hcase]

theorem negateFrom_congr (h : opensWord before = opensWord before') (t : Text) :
    negateFrom 0 before t = negateFrom 0 before' t := by
  cases t with
  | nil => rfl
  | cons b t => rw [negateFrom, negateFrom, negationStep_congr h]

/-- Negation passes over a quoted segment that ends in no byte of a word. -/
theorem negate_quoted (hq : q ≠ []) (hl : quotedLength (q ++ t) = q.length)
    (hlast : opensWord (lastByte none q) = true) : negate (q ++ t) = q ++ negate t := by
  have hscan : scan 0 none (q ++ t) = q ++ scan 0 (lastByte none q) t := scan_quoted 0 hq hl
  have hopens : opensWord (lastByte none q) = opensWord none := hlast
  rw [scan_zero, scan_zero, negateFrom_congr hopens] at hscan
  exact hscan

/-- Interpolation passes over a quoted segment, and counts no marks in it. -/
theorem interpolate_quoted (pre : Prelude) (d : Dialect) (params : List Value) (hq : q ≠ [])
    (hl : quotedLength (q ++ t) = q.length) :
    interpolate pre d (q ++ t) params = (q ++ ·) <$> interpolate pre d t params := by
  obtain ⟨b, q, rfl⟩ := List.exists_cons_of_ne_nil hq
  rw [interpolate, List.cons_append, interpolateFrom]
  rw [List.cons_append, List.length_cons] at hl
  rw [hl]
  have htake : (b :: (q ++ t)).take (q.length + 1) = b :: q := by
    rw [← List.cons_append, ← List.length_cons, List.take_left]
  simp only [interpolateFrom_eq pre _ params q.length, List.drop_left, htake]
  rfl

end Sql

/-! ### Quoted names -/

/-- How a dialect quotes its names. -/
def Dialect.quotation : Dialect → Sql.Quotation
  | .sqlServer => .bracket
  | .mySql => .backtick
  | .postgres | .oracle | .sqlite => .double

theorem Dialect.quoteIdent_eq_write (d : Dialect) (name : Text) :
    d.profile.quoteIdent name = d.quotation.write name := by
  cases d <;> rfl

namespace Sql

theorem opensWord_quoteIdent (d : Dialect) (name : Text) :
    opensWord (lastByte none (d.profile.quoteIdent name)) = true := by
  have hcloser : opensWord (some d.quotation.closer) = true := by cases d <;> decide
  rw [d.quoteIdent_eq_write, Quotation.write_eq_enclose, enclose, ← List.cons_append,
    lastByte_append]
  exact hcloser

/-- **A quoted name is opaque.** Whatever its bytes are and whatever follows, unless that goes on
with the closing quote, negation and interpolation keep the name and treat the rest as a text of its
own. -/
theorem quoteIdent_opaque (pre : Prelude) (d : Dialect) (name rest : Text) (params : List Value)
    (h : rest.head? ≠ some d.quotation.closer) :
    negate (d.profile.quoteIdent name ++ rest) = d.profile.quoteIdent name ++ negate rest ∧
      interpolate pre d (d.profile.quoteIdent name ++ rest) params =
        (d.profile.quoteIdent name ++ ·) <$> interpolate pre d rest params := by
  have hne := quoteIdent_ne_nil d name
  have hlength : quotedLength (d.profile.quoteIdent name ++ rest) =
      (d.profile.quoteIdent name).length := by
    rw [d.quoteIdent_eq_write]
    exact d.quotation.quotedLength_write name h
  exact ⟨negate_quoted hne hlength (opensWord_quoteIdent d name),
    interpolate_quoted pre d params hne hlength⟩

/-- A name of quotes, operators and marks, before a `CASE` expression and a mark. -/
theorem quoteIdent_opaque_case :
    let rest : Text := "CASE WHEN 1 = 1 THEN 'x' END = @p1"
    negate (Dialect.sqlServer.profile.quoteIdent "] AND CASE @p1" ++ rest) =
        "[]] AND CASE @p1]CASE WHEN 1 = 1 THEN 'x' END <> @p1" ∧
      interpolate .empty .sqlServer
          (Dialect.sqlServer.profile.quoteIdent "] AND CASE @p1" ++ rest) [.bool true] =
        .ok "[]] AND CASE @p1]CASE WHEN 1 = 1 THEN 'x' END = 1" := by
  intro rest
  have h := quoteIdent_opaque .empty .sqlServer "] AND CASE @p1" rest [.bool true] (by decide)
  rw [h.1, h.2]
  exact ⟨by rfl, by rfl⟩

end Sql

end QueryTree
