import QueryTree.Text.Number

/-!
# Percent escapes

In the parts of a URL most bytes stand for themselves and the others are written as a percent sign
and two hexadecimal digits. Which bytes are kept depends on the part.

## Main definitions

* `Part`, `Part.keeps`: the parts of a URL and the bytes they keep
* `Part.escape`, `Part.unescape?`
-/

namespace QueryTree.Dsn

/-- A part of a URL. -/
inductive Part where
  | userInfo
  | host
  | path
  /-- One segment of a path. -/
  | segment
  /-- A value in a query, where a space is a plus sign. -/
  | query
  deriving DecidableEq, Repr

/-- The punctuation that a part keeps, besides `-_.~`. -/
def Part.punctuation : Part → Text
  | userInfo => "$&+,;="
  | host => "!$&'()*+,;=:[]<>\""
  | path => "$&+,/:;=@"
  | segment => "$&+:=@"
  | query => ""

/-- Whether a part keeps the byte. -/
def Part.keeps (p : Part) (b : UInt8) : Bool :=
  Text.isLetterByte b || Text.isDigitByte b || List.elem b (Text.ofString "-_.~")
    || List.elem b p.punctuation

/-- The text as it is written in a part. -/
def Part.escape (p : Part) (t : Text) : Text :=
  t.flatMap fun b =>
    if p.keeps b then [b]
    else if p = .query && b = byte ' ' then [byte '+']
    else [byte '%', Text.hexDigitUpper (b.toNat / 16), Text.hexDigitUpper (b.toNat % 16)]

/-- The byte that a byte outside escapes stands for. A host holds no other ASCII bytes than those it
keeps. -/
def Part.single? (p : Part) (b : UInt8) : Option UInt8 :=
  if b = byte '%' then none
  else if p = .query && b = byte '+' then some (byte ' ')
  else if p = .host && b < 0x80 && !p.keeps b then none
  else some b

/-- The text that is written in a part; none if a percent sign begins no escape. -/
def Part.unescape? (p : Part) : Text → Option Text
  | [] => some []
  | [b] => (p.single? b).map ([·])
  | [b, c] => do return [← p.single? b, ← p.single? c]
  | b :: c :: d :: rest =>
    if b = byte '%' then do
      let high ← Text.hexValue? c
      let low ← Text.hexValue? d
      let value := (16 * high + low).toUInt8
      if p = .host && high < 8 && value ≠ byte '%' then none
      else return value :: (← p.unescape? rest)
    else do return (← p.single? b) :: (← p.unescape? (c :: d :: rest))
end QueryTree.Dsn
