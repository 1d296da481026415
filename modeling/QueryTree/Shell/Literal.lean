import QueryTree.Decimal.Notation
import QueryTree.Shell.Token
import QueryTree.Value.Basic

/-!
# Literals

A token stands for a value if it is one of the words `true`, `false` and `null` in any case, a
quoted text, an integer of 64 bits, or a number. Integers that do not fit are read as numbers.

## Main definitions

* `Token.value?`: the value of a literal
* `Token.isLiteral`, `Token.isIdentifier`: the two kinds of words
-/

namespace QueryTree.Shell

namespace Token

/-- What stands between the quotes of a quoted text, with doubled quotes written once. -/
def unquoted? (t : Token) : Option Text :=
  if 2 ≤ t.length && t.head? == some quote && t.getLast? == some quote then
    some (Text.undouble quote (t.drop 1).dropLast)
  else none

/-- The value of a number. -/
def number? (t : Token) : Option Value :=
  match t.toInt64? with
  | some n => some (.int .int64 n)
  | none => (Double.read? t).map (Value.float false)

/-- The value that a token stands for. -/
def value? (t : Token) : Option Value :=
  let word := t.toLower
  if word = ("true" : Text) then some (.bool true)
  else if word = ("false" : Text) then some (.bool false)
  else if word = ("null" : Text) then some .nil
  else match unquoted? t with
    | some s => some (.string s)
    | none => number? t

/-- The value that a token stands for, or the message that it stands for none. -/
def value (t : Token) : Except Text Value :=
  match value? t with
  | some v => .ok v
  | none => .error ("cannot parse value: " ++ t)

/-- Whether the token stands for a value. -/
def isLiteral (t : Token) : Bool := (value? t).isSome

/-- Whether the token begins like a name. -/
def isIdentifier (t : Token) : Bool :=
  t.head?.any fun b => Text.isLetterByte b || b == byte '_'

end Token

end QueryTree.Shell
