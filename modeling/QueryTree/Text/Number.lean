import QueryTree.Text.Utf8

/-!
# Decimal integers

Decimal text of integers and its readers. A reader takes an optional sign and digits, nothing
else, and refuses numbers outside 64 bits.
-/

namespace QueryTree.Text

/-- The decimal digits of a natural number. -/
def ofNat (n : Nat) : Text := (Nat.toDigits 10 n).map fun c => byte c

/-- The decimal text of an integer, with a minus sign when it is negative. -/
def ofInt : Int → Text
  | .ofNat n => ofNat n
  | .negSucc n => byte '-' :: ofNat (n + 1)

/-- The value of a run of digits, or `none` if it is empty or holds anything else. -/
def toNat? (t : Text) : Option Nat :=
  if t.isEmpty || !t.all isDigitByte then none
  else some (t.foldl (fun n b => 10 * n + (b.toNat - 48)) 0)

/-- The value of an optional sign and digits. -/
def toInt? : Text → Option Int
  | [] => none
  | b :: rest =>
    if b = byte '-' then (toNat? rest).map fun n => -(n : Int)
    else if b = byte '+' then (toNat? rest).map fun n => (n : Int)
    else (toNat? (b :: rest)).map fun n => (n : Int)

/-- The value of an optional sign and digits, if it fits into a signed 64-bit word. -/
def toInt64? (t : Text) : Option Int :=
  (toInt? t).filter fun n => -(Nat.pow 2 63 : Int) ≤ n && n < Nat.pow 2 63

/-- The lower case hexadecimal digit of a number below sixteen. -/
def hexDigit (n : Nat) : UInt8 := if n < 10 then (48 + n).toUInt8 else (87 + n).toUInt8

/-- The upper case hexadecimal digit of a number below sixteen. -/
def hexDigitUpper (n : Nat) : UInt8 := if n < 10 then (48 + n).toUInt8 else (55 + n).toUInt8

/-- The lower case hexadecimal digits of `n`, with leading zeros up to `width`. -/
def hexPadded (width n : Nat) : Text :=
  (List.range width).reverse.map fun i => hexDigit (n / Nat.pow 16 i % 16)

/-- The value of a hexadecimal digit. -/
def hexValue? (b : UInt8) : Option Nat :=
  if 48 ≤ b && b ≤ 57 then some (b.toNat - 48)
  else if 97 ≤ b && b ≤ 102 then some (b.toNat - 87)
  else if 65 ≤ b && b ≤ 70 then some (b.toNat - 55)
  else none

/-- The lower case hexadecimal digits of bytes. -/
def toHex (t : Text) : Text :=
  t.flatMap fun b => [hexDigit (b.toNat / 16), hexDigit (b.toNat % 16)]

/-- The bytes that pairs of hexadecimal digits stand for. -/
def ofHex? : Text → Option Text
  | [] => some []
  | [_] => none
  | a :: b :: rest => do
    let high ← hexValue? a
    let low ← hexValue? b
    return (16 * high + low).toUInt8 :: (← ofHex? rest)

end QueryTree.Text
