import QueryTree.Text.Class
import QueryTree.Text.Number

/-!
# Quoted texts

A text between double quotes with escapes: a quote and a backslash are escaped, printable
characters stand for themselves, the usual control characters have letters, and everything else is
written by number. Malformed bytes are written as single bytes, so the quoted form loses nothing.
-/

namespace QueryTree.Text

/-- A rune as it stands inside double quotes. -/
def quotedRune : Rune → Text
  | .stray b => "\\x" ++ hexPadded 2 b.toNat
  | .char c =>
    let n := c.toNat
    if c = '"' then "\\\""
    else if c = '\\' then "\\\\"
    else if CharClass.isPrint c then ofChar c
    else if n = 7 then "\\a"
    else if n = 8 then "\\b"
    else if n = 12 then "\\f"
    else if n = 10 then "\\n"
    else if n = 13 then "\\r"
    else if n = 9 then "\\t"
    else if n = 11 then "\\v"
    else if n < 32 || n = 127 then "\\x" ++ hexPadded 2 n
    else if n < 0x10000 then "\\u" ++ hexPadded 4 n
    else "\\U" ++ hexPadded 8 n

/-- The text between double quotes, with escapes. -/
def quoted (t : Text) : Text := "\"" ++ t.runes.flatMap quotedRune ++ "\""

/-- The value of an escape inside double quotes after its backslash, and the rest. -/
def unescape? : Text → Option (Text × Text)
  | [] => none
  | b :: rest =>
    let byNumber := fun (digits : Nat) (encode : Nat → Option Text) =>
      let shown := rest.take digits
      if shown.length < digits then none
      else do
        let values ← shown.mapM hexValue?
        let t ← encode (values.foldl (fun n d => 16 * n + d) 0)
        return (t, rest.drop digits)
    let char := fun n => if n < 0x110000 && !(0xd800 ≤ n && n < 0xe000) then
      some (ofChar (Char.ofNat n)) else none
    if b = byte 'a' then some ([7], rest)
    else if b = byte 'b' then some ([8], rest)
    else if b = byte 'f' then some ([12], rest)
    else if b = byte 'n' then some ([10], rest)
    else if b = byte 'r' then some ([13], rest)
    else if b = byte 't' then some ([9], rest)
    else if b = byte 'v' then some ([11], rest)
    else if b = byte '\\' then some ([b], rest)
    else if b = byte '"' then some ([b], rest)
    else if b = byte 'x' then byNumber 2 fun n => some [n.toUInt8]
    else if b = byte 'u' then byNumber 4 char
    else if b = byte 'U' then byNumber 8 char
    else if 48 ≤ b && b ≤ 55 then
      let shown := (b :: rest).take 3
      let value := shown.foldl (fun n d => 8 * n + (d.toNat - 48)) 0
      if shown.length = 3 && shown.all (fun d => 48 ≤ d && d ≤ 55) && value < 256 then
        some ([value.toUInt8], rest.drop 2)
      else none
    else none

/-- The contents of a text between double quotes, read to the closing quote, with at most `fuel`
runes. -/
def unquoteBody? : (fuel : Nat) → Text → Option Text
  | 0, _ => none
  | _ + 1, [] => none
  | fuel + 1, b :: rest =>
    if b = byte '"' then if rest.isEmpty then some [] else none
    else if b = 10 then none
    else if b = byte '\\' then do
      let (t, rest) ← unescape? rest
      return t ++ (← unquoteBody? fuel rest)
    else (unquoteBody? fuel rest).map (b :: ·)

/-- The text that `t` is the quoted form of. -/
def unquote? : Text → Option Text
  | [] => none
  | b :: rest => if b = byte '"' then unquoteBody? (rest.length + 1) rest else none

end QueryTree.Text
