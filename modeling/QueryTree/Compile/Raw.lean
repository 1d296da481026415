import QueryTree.Compile.Error

/-!
# Raw lists of names

A text constant in a select or order list is SQL text. It is taken only when every item is a plain
name: an identifier, perhaps qualified, perhaps renamed or with a direction.

## Main definitions

* `Raw.isField`, `Raw.isOrder`: the items that are taken
* `Raw.items`: the items of a list
-/

namespace QueryTree.Raw

/-- The blanks that separate the words of an item. -/
def isBlankByte (b : UInt8) : Bool := b == 32 || b == 9 || b == 10 || b == 12 || b == 13

/-- The words of an item. -/
def words (t : Text) : List Text :=
  let step := fun (b : UInt8) ((cur, done) : Text × List Text) =>
    if isBlankByte b then ([], if cur.isEmpty then done else cur :: done) else (b :: cur, done)
  let (cur, done) := t.foldr step ([], [])
  if cur.isEmpty then done else cur :: done

/-- Whether the text is an identifier: a letter or underscore, then letters, digits and
underscores. -/
def isIdentifier : Text → Bool
  | [] => false
  | b :: rest =>
    (Text.isLetterByte b || b == byte '_')
      && rest.all fun b => Text.isLetterByte b || Text.isDigitByte b || b == byte '_'

/-- Whether the text is an identifier, perhaps after another one and a point. -/
def isQualified (t : Text) : Bool :=
  match t.cut? (byte '.') with
  | none => isIdentifier t
  | some (table, column) => isIdentifier table && isIdentifier column

/-- Whether the text names a column or all columns, of one table or of every table. -/
def isColumn (t : Text) : Bool :=
  t == ("*" : Text) || isQualified t
    || match t.cut? (byte '.') with
      | some (table, column) => isIdentifier table && column == ("*" : Text)
      | none => false

/-- Whether the word is the keyword in any case. -/
def isKeyword (keyword word : Text) : Bool := Text.equalFold keyword word

/-- Whether the text is an item of a select list. -/
def isField (t : Text) : Bool :=
  match words t with
  | [column] => isColumn column
  | [column, keyword, name] => isColumn column && isKeyword "AS" keyword && isIdentifier name
  | _ => false

/-- Whether the text is an item of an order list. -/
def isOrder (t : Text) : Bool :=
  match words t with
  | [column] => isQualified column
  | [column, keyword] => isQualified column && (isKeyword "ASC" keyword || isKeyword "DESC" keyword)
  | _ => false

/-- The parts of a list between its commas, without blanks around them, empty ones left out. -/
def parts (t : Text) : List Text :=
  ((t.splitByte (byte ',')).map Text.trimSpace).filter fun part => !part.isEmpty

/-- The items of a raw list, or the first part that is none. -/
def items (t : Text) (ordered : Bool) : Except CompileError (List Text) :=
  match (parts t).find? fun part => !(if ordered then isOrder part else isField part) with
  | some part => .error (.unsafeIdentifier part)
  | none => .ok (parts t)

end QueryTree.Raw
