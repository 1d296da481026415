import QueryTree.Decimal.Shortest
import QueryTree.Text.Number

/-!
# Written floating point numbers

How numbers appear in output: the shortest digits, positional notation for decimal exponents from
-4 to 5 and scientific notation with a signed exponent of at least two digits outside, names for
the values that are no numbers, and a sign on negative zero. The reader accepts decimal and
hexadecimal fractions with an exponent, underscores between digits, and the names of infinity and
not-a-number in any case.

## Main definitions

* `Double.text`: the written form, of a double or of a single precision number
* `Double.read?`: the number a text denotes, `none` when it denotes none or is out of range
-/

namespace QueryTree

namespace Decimal

/-- The digits `c` with the decimal point `shift` places to the left. -/
def positional (digits : Text) (shift : Int) : Text :=
  if shift ≤ 0 then digits ++ Text.replicateByte (-shift).toNat (byte '0')
  else if shift.toNat < digits.length then
    let whole := digits.length - shift.toNat
    digits.take whole ++ [byte '.'] ++ digits.drop whole
  else "0." ++ Text.replicateByte (shift.toNat - digits.length) (byte '0') ++ digits

/-- The digits with one digit before the point, and the exponent after it. -/
def scientific (digits : Text) (exponent : Int) : Text :=
  let mantissa := match digits with
    | [] => []
    | [d] => [d]
    | d :: rest => d :: byte '.' :: rest
  let size := Text.ofNat exponent.natAbs
  let size := if size.length < 2 then byte '0' :: size else size
  mantissa ++ (if exponent < 0 then "e-" else "e+") ++ size

/-- The decimal `c * 10 ^ k` in positional or scientific notation. -/
def written (c : Nat) (k : Int) : Text :=
  let digits := Text.ofNat c
  let exponent := k + (digits.length : Int) - 1
  if exponent < -4 || exponent ≥ 6 then scientific digits exponent
  else positional digits (-k)

/-- The rounding interval of a double, or of a single precision number kept as a double. -/
def intervalOf (single : Bool) (m : Nat) (q : Int) : Interval :=
  if single then
    let shift := max 29 (-149 - q)
    let m' := m / Nat.pow 2 shift.toNat
    Interval.ofBinary m' (q + shift) (m' == Nat.pow 2 23 && q + shift > -149)
  else Interval.ofBinary m q (m == Nat.pow 2 52 && q > -1074)

end Decimal

/-- The written form of a number: as few digits as read back, for its own precision. -/
def Double.text (single : Bool) (x : Double) : Text :=
  match x.decode with
  | .nan => "NaN"
  | .infinite negative => if negative then "-Inf" else "+Inf"
  | .finite negative m q =>
    let size : Text :=
      if m = 0 then "0"
      else
        let (c, k) := (Decimal.intervalOf single m q).shortest
        Decimal.written c k
    if negative then byte '-' :: size else size

/-! ### Reading -/

namespace Decimal

/-- The digits and point of a mantissa, read up to the first other byte: value of the digits,
number of digits after the point, whether there was a point, and whether there was a digit. -/
structure Mantissa where
  value : Nat
  places : Nat
  pointSeen : Bool
  digitSeen : Bool

/-- Reads digits, one point and underscores in the given base. -/
def readMantissa (base : Nat) : Mantissa → Text → Mantissa × Text
  | acc, [] => (acc, [])
  | acc, b :: rest =>
    if b = byte '_' then readMantissa base acc rest
    else if b = byte '.' then
      if acc.pointSeen then (acc, b :: rest)
      else readMantissa base { acc with pointSeen := true } rest
    else
      match (Text.hexValue? b).filter (· < base) with
      | some d =>
        readMantissa base
          { acc with
            value := acc.value * base + d
            places := if acc.pointSeen then acc.places + 1 else acc.places
            digitSeen := true } rest
      | none => (acc, b :: rest)

/-- Whether every underscore stands between two digits, or between the base mark and a digit.
`after` tells what came before: nothing, a digit, an underscore or something else. -/
def underscoresFit (hex : Bool) : (after : Char) → Text → Bool
  | after, [] => after != '_'
  | after, b :: rest =>
    if Text.isDigitByte b || (hex && (Text.hexValue? b).isSome) then underscoresFit hex '0' rest
    else if b = byte '_' then after == '0' && underscoresFit hex '_' rest
    else after != '_' && underscoresFit hex '!' rest

/-- Whether the underscores of an unsigned number stand where they may. -/
def underscoresOk (t : Text) : Bool :=
  match t with
  | a :: b :: rest =>
    if a = byte '0' && Text.lowerByte b = byte 'x' then underscoresFit true '0' rest
    else underscoresFit false '^' t
  | _ => underscoresFit false '^' t

/-- The exponent after its mark: a sign, then digits and underscores to the end. -/
def readExponent? (t : Text) : Option Int :=
  let (negative, t) := match t with
    | b :: rest =>
      if b = byte '-' then (true, rest) else if b = byte '+' then (false, rest) else (false, t)
    | [] => (false, [])
  match t with
  | b :: _ =>
    if !Text.isDigitByte b then none
    else
      (Text.toNat? (t.filter (· != byte '_'))).map fun n =>
        let n : Int := (min n 100000 : Nat)
        if negative then -n else n
  | [] => none

/-- The fraction that a well formed unsigned number denotes. -/
def readUnsigned? (t : Text) : Option (Nat × Int × Bool) :=
  let hex := match t with
    | a :: b :: _ :: _ => a = byte '0' && Text.lowerByte b = byte 'x'
    | _ => false
  let base := if hex then 16 else 10
  let mark := if hex then byte 'p' else byte 'e'
  let (mantissa, rest) := readMantissa base ⟨0, 0, false, false⟩ (if hex then t.drop 2 else t)
  let places : Int := if hex then 4 * mantissa.places else mantissa.places
  if !mantissa.digitSeen || (t.any (· == byte '_') && !underscoresOk t) then none
  else match rest with
    | [] => if hex then none else some (mantissa.value, -places, false)
    | b :: rest =>
      if Text.lowerByte b != mark then none
      else (readExponent? rest).map fun e => (mantissa.value, e - places, hex)

/-- The double nearest to `value * base ^ exponent`, `none` when it is too large. Exponents far
outside the range of doubles are not computed. -/
def nearestScaled? (value : Nat) (exponent : Int) (binary : Bool) : Option Double :=
  if value = 0 then some ⟨0⟩
  else
    let size : Int := if binary then value.log2 else (value.log2 : Int) * 3 / 10
    let bound : Int := if binary then 1100 else 400
    if exponent + size > bound then none
    else if exponent + size < -3 * bound then some ⟨0⟩
    else if binary then
      let (n, d) := scaleByTwo value exponent
      nearestDouble? n d
    else
      let (n, d) := tenTo exponent
      nearestDouble? (value * n) d

end Decimal

/-- The number that a text denotes; `none` when it denotes none or the number is too large. -/
def Double.read? (t : Text) : Option Double :=
  let (negative, signed, body) := match t with
    | b :: rest =>
      if b = byte '-' then (true, true, rest)
      else if b = byte '+' then (false, true, rest)
      else (false, false, t)
    | [] => (false, false, [])
  let name := body.map Text.lowerByte
  if name = ("inf" : Text) || name = ("infinity" : Text) then some (infinity.withSign negative)
  else if name = ("nan" : Text) && !signed then some nan
  else do
    let (value, exponent, binary) ← Decimal.readUnsigned? body
    let size ← Decimal.nearestScaled? value exponent binary
    return size.withSign negative

end QueryTree
