import QueryTree.Sql.Quoting

/-!
# Textual negation

A rendered condition is negated by swapping every operator token for its complement. Quoted
segments and `CASE ... END` expressions are values and are copied unchanged. Tokens and keywords
are recognised in any case; a keyword only where no identifier byte touches it.

## Main definitions

* `Sql.negations`: the tokens and their complements
* `Sql.keywordAt`: a keyword between identifier boundaries
* `Sql.caseLength`: the length of the `CASE` expression at the start of a text
* `Sql.negate`
-/

namespace QueryTree.Sql

/-- The operator tokens and their complements. Longer tokens stand before the tokens they start
with. -/
def negations : List (Text × Text) :=
  [(" IS NOT ", " IS "), (" NOT LIKE ", " LIKE "), (" NOT IN ", " IN "), (" <> ", " = "),
    (" >= ", " < "), (" <= ", " > "), (" LIKE ", " NOT LIKE "), (" AND ", " OR "),
    (" IS ", " IS NOT "), (" IN ", " NOT IN "), (" OR ", " AND "), (" = ", " <> "),
    (" > ", " <= "), (" < ", " >= ")]

/-- Whether the byte belongs to an identifier. -/
def isIdentByte (b : UInt8) : Bool :=
  b == byte '_' || b == byte '@' || b == byte '$' || b == byte '#' || Text.isLetterByte b
    || Text.isDigitByte b

/-- Whether `t` starts with `word`, in any case. -/
def startsWithWord (word t : Text) : Bool :=
  word.length ≤ t.length && Text.equalIgnoringCase (t.take word.length) word

/-- Whether the byte before a word lets it be a keyword. -/
def opensWord : Option UInt8 → Bool
  | none => true
  | some b => !(isIdentByte b || b == byte '.')

/-- Whether `t`, which stands after the byte `before`, starts with the keyword `word`. -/
def keywordAt (word : Text) (before : Option UInt8) (t : Text) : Bool :=
  startsWithWord word t && opensWord before && !(((t.drop word.length).head?).any isIdentByte)

/-- The number of bytes to the end of the `CASE` expression that is `depth` levels deep; all of
them if it does not end. The first `skip` bytes belong to what was found before. -/
def lengthToEnd : (depth skip : Nat) → (before : Option UInt8) → Text → Nat
  | _, _, _, [] => 0
  | depth, skip + 1, _, b :: rest => lengthToEnd depth skip (some b) rest + 1
  | depth, 0, before, b :: rest =>
    match quotedLength (b :: rest) with
    | n + 1 => lengthToEnd depth n (some b) rest + 1
    | 0 =>
      if keywordAt "CASE" before (b :: rest) then lengthToEnd (depth + 1) 3 (some b) rest + 1
      else if keywordAt "END" before (b :: rest) then
        if depth ≤ 1 then 3 else lengthToEnd (depth - 1) 2 (some b) rest + 1
      else lengthToEnd depth 0 (some b) rest + 1

/-- The length of the `CASE` expression at the start of a text; zero if none starts there. -/
def caseLength (before : Option UInt8) (t : Text) : Nat :=
  if keywordAt "CASE" before t then lengthToEnd 1 4 before t else 0

/-- The token at the start of a text and its complement. -/
def negationAt? (t : Text) : Option (Text × Text) :=
  negations.find? fun (token, _) => startsWithWord token t

/-- What is copied or replaced at the start of a text that is not empty: the number of bytes read
and the text written for them. -/
def negationStep (before : Option UInt8) (t : Text) : Nat × Text :=
  match quotedLength t with
  | n + 1 => (n + 1, t.take (n + 1))
  | 0 =>
    match caseLength before t with
    | n + 1 => (n + 1, t.take (n + 1))
    | 0 =>
      match negationAt? t with
      | some (token, complement) => (token.length, complement)
      | none => (1, t.take 1)

/-- Negates a text after its first `skip` bytes. -/
def negateFrom : (skip : Nat) → (before : Option UInt8) → Text → Text
  | _, _, [] => []
  | skip + 1, _, b :: rest => negateFrom skip (some b) rest
  | 0, before, b :: rest =>
    let (read, written) := negationStep before (b :: rest)
    written ++ negateFrom (read - 1) (some b) rest

/-- The complement of a rendered condition. -/
def negate (t : Text) : Text := negateFrom 0 none t

end QueryTree.Sql
