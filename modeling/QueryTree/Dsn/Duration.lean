import QueryTree.Text.Number

/-!
# Durations

Durations are written as numbers with units, such as `1h30m` or `250ms`, and printed with the
largest units that fit. A duration is a number of nanoseconds.

## Main definitions

* `Duration.read?`, `Duration.text`
-/

namespace QueryTree.Dsn.Duration

/-- The units that durations are written with, in nanoseconds. -/
def units : List (Text × Nat) :=
  [("ns", 1), ("us", 1000), ("µs", 1000), ("ms", 1000000), ("s", 1000000000),
    ("m", 60000000000), ("h", 3600000000000)]

/-- The value of digits, zero for none. -/
def number (digits : Text) : Nat := (Text.toNat? digits).getD 0

/-- The sum of numbers with units, read in at most `fuel` steps. -/
def terms? : (fuel : Nat) → Text → Option Nat
  | 0, _ => none
  | _, [] => some 0
  | fuel + 1, t => do
    let whole := t.takeWhile Text.isDigitByte
    let rest := t.drop whole.length
    let dotted := rest.head? = some (byte '.')
    let fraction := if dotted then (rest.drop 1).takeWhile Text.isDigitByte else []
    let rest := if dotted then rest.drop (1 + fraction.length) else rest
    if whole.isEmpty && fraction.isEmpty then none
    let name := rest.takeWhile fun b => !Text.isDigitByte b && b != byte '.'
    let unit ← units.lookup name
    let more ← terms? fuel (rest.drop name.length)
    return number whole * unit + number fraction * unit / Nat.pow 10 fraction.length + more

/-- The duration that a text stands for. -/
def read? (t : Text) : Option Int :=
  let sign := t.head?.any fun b => b == byte '-' || b == byte '+'
  let body := if sign then t.drop 1 else t
  if body = ("0" : Text) then some 0
  else if body.isEmpty then none
  else (terms? (body.length + 1) body).map fun n =>
    if t.head? = some (byte '-') then -(n : Int) else n

/-- A number of units with the digits of a fraction of `scale` behind a point, as few as needed. -/
def scaled (n scale : Nat) : Text :=
  let width := (Nat.toDigits 10 scale).length - 1
  let digits := Text.ofNat (n % scale)
  let fraction := Text.dropEndWhile (· == byte '0')
    (Text.replicateByte (width - digits.length) (byte '0') ++ digits)
  Text.ofNat (n / scale) ++ (if fraction.isEmpty then [] else byte '.' :: fraction)

/-- The text of a duration that is not negative. -/
def text (n : Nat) : Text :=
  if n = 0 then "0s"
  else if n < 1000 then Text.ofNat n ++ "ns"
  else if n < 1000000 then scaled n 1000 ++ "µs"
  else if n < 1000000000 then scaled n 1000000 ++ "ms"
  else
    let minutes := n / 60000000000
    let seconds := scaled (n % 60000000000) 1000000000 ++ "s"
    if minutes = 0 then seconds
    else if minutes < 60 then Text.ofNat minutes ++ "m" ++ seconds
    else Text.ofNat (minutes / 60) ++ "h" ++ Text.ofNat (minutes % 60) ++ "m" ++ seconds

end QueryTree.Dsn.Duration
