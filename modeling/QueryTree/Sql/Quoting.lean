import QueryTree.Text.Basic

/-!
# Quoted segments of SQL

Identifiers and string literals are quoted by doubling the closing byte inside. `skipQuoted` finds
the end of a quoted segment, whichever of the four quotes it uses, so that scanners can step over
it. A segment that is never closed runs to the end of the text.

## Main definitions

* `Sql.doubleQuote`, `Sql.backtick`, `Sql.bracket`, `Sql.stringLiteral`
* `Sql.closer?`: the byte that closes a quote
* `Sql.quotedLength`: the length of the quoted segment at the start of a text
* `Sql.skipQuoted`: the offset after the quoted segment that starts at an offset
-/

namespace QueryTree.Sql

/-- The text between an opening and a closing byte, with the closing byte doubled inside. -/
def enclose (opener closer : UInt8) (t : Text) : Text := opener :: (t.double closer ++ [closer])

/-- An identifier in double quotes. -/
def doubleQuote (t : Text) : Text := enclose (byte '"') (byte '"') t

/-- An identifier in backticks. -/
def backtick (t : Text) : Text := enclose 96 96 t

/-- An identifier in square brackets. -/
def bracket (t : Text) : Text := enclose (byte '[') (byte ']') t

/-- A string literal in single quotes; with `backslashes`, a backslash is doubled too. -/
def stringLiteral (t : Text) (backslashes : Bool) : Text :=
  enclose 39 39 (if backslashes then t.double (byte '\\') else t)

/-- The byte that closes a quoted segment opened by `b`, if `b` opens one. -/
def closer? (b : UInt8) : Option UInt8 :=
  if b = 39 then some 39
  else if b = byte '"' then some (byte '"')
  else if b = 96 then some 96
  else if b = byte '[' then some (byte ']')
  else none

/-- The number of bytes up to and including the first closing byte that is not doubled, or all of
them if there is none. -/
def lengthToCloser (closer : UInt8) : Text → Nat
  | [] => 0
  | [_] => 1
  | b :: c :: rest =>
    if b = closer then
      if c = closer then lengthToCloser closer rest + 2 else 1
    else lengthToCloser closer (c :: rest) + 1

/-- The length of the quoted segment at the start of a text; zero if none starts there. -/
def quotedLength : Text → Nat
  | [] => 0
  | b :: rest =>
    match closer? b with
    | some closer => lengthToCloser closer rest + 1
    | none => 0

/-- The offset after the quoted segment that starts at offset `i`; `i` if none starts there. -/
def skipQuoted (t : Text) (i : Nat) : Nat := i + quotedLength (t.drop i)

end QueryTree.Sql
