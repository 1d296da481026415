/-!
# Binary floating point numbers

A double is its 64 bits. A finite double is `m * 2 ^ q` for a natural number `m` and an integer
`q`, and every positive fraction has a nearest double; all rounding here goes to the nearest
representable number, ties to the even one. Single precision numbers are kept as the doubles of
the same value.

## Main definitions

* `Double`, `Double.decode`: the bits and what they stand for
* `nearestDouble?`: the double nearest to a fraction, `none` on overflow
* `Double.toSingle`: rounding to single precision
* `Double.mod`: the remainder with the sign of the dividend, exact
-/

namespace QueryTree

/-- A double precision number, as its bits. -/
structure Double where
  bits : UInt64
  deriving DecidableEq, Inhabited, Repr

/-- What the bits of a double stand for. -/
inductive Decoded where
  | nan
  | infinite (negative : Bool)
  /-- The number `m * 2 ^ q`, negated when `negative`. -/
  | finite (negative : Bool) (m : Nat) (q : Int)
  deriving DecidableEq, Repr

namespace Double

/-- The host's number with these bits. -/
def toFloat (x : Double) : Float := Float.ofBits x.bits

/-- The bits of a host number. -/
def ofFloat (x : Float) : Double := ⟨x.toBits⟩

/-- What the bits stand for. -/
def decode (x : Double) : Decoded :=
  let n := x.bits.toNat
  let negative := n / Nat.pow 2 63 == 1
  let exponent : Nat := n / Nat.pow 2 52 % Nat.pow 2 11
  let fraction := n % Nat.pow 2 52
  if exponent == 2047 then
    if fraction == 0 then .infinite negative else .nan
  else if exponent == 0 then .finite negative fraction (-1074)
  else .finite negative (Nat.pow 2 52 + fraction) ((exponent : Int) - 1075)

/-- The same number with the given sign. -/
def withSign (negative : Bool) (x : Double) : Double :=
  if negative then ⟨(x.bits.toNat % Nat.pow 2 63 + Nat.pow 2 63).toUInt64⟩
  else ⟨(x.bits.toNat % Nat.pow 2 63).toUInt64⟩

/-- The number with the other sign. -/
def opposite (x : Double) : Double := ⟨x.bits ^^^ 0x8000000000000000⟩

/-- Positive infinity. -/
def infinity : Double := ⟨0x7ff0000000000000⟩

/-- Not a number. -/
def nan : Double := ⟨0x7ff8000000000001⟩

end Double

/-- `num / den` rounded to the nearest integer, ties to even. -/
def roundHalfEven (num den : Nat) : Nat :=
  let quotient := num / den
  let twice := 2 * (num % den)
  if twice > den || (twice == den && quotient % 2 == 1) then quotient + 1 else quotient

/-- `n * 2 ^ k` as a fraction, for an integer `k`. -/
def scaleByTwo (n : Nat) (k : Int) : Nat × Nat :=
  if k < 0 then (n, Nat.pow 2 (-k).toNat) else (n * Nat.pow 2 k.toNat, 1)

/-- The largest `e` with `2 ^ e ≤ num / den`, for positive `num` and `den`. -/
def floorLog2 (num den : Nat) : Int :=
  let e : Int := (num.log2 : Int) - den.log2
  let (n, d) := scaleByTwo 1 e
  if num * d < den * n then e - 1 else e

/-- `num / den` as `m * 2 ^ q` rounded to `precision` bits, with `q` at least `least`. -/
def roundBinary (precision : Nat) (least : Int) (num den : Nat) : Nat × Int :=
  if num = 0 then (0, least)
  else
    let q := max (floorLog2 num den - (precision - 1 : Nat)) least
    let (n, d) := scaleByTwo 1 q
    let m := roundHalfEven (num * d) (den * n)
    if m = Nat.pow 2 precision then (Nat.pow 2 (precision - 1), q + 1) else (m, q)

/-- The double `m * 2 ^ q` for a rounded pair, `none` when it is too large. -/
def encodeBinary? (m : Nat) (q : Int) : Option Double :=
  if m < Nat.pow 2 52 then some ⟨m.toUInt64⟩
  else if q > 971 then none
  else some ⟨((q + 1075).toNat * Nat.pow 2 52 + (m - Nat.pow 2 52)).toUInt64⟩

/-- The double nearest to `num / den`, `none` when it is too large. -/
def nearestDouble? (num den : Nat) : Option Double :=
  let (m, q) := roundBinary 53 (-1074) num den
  encodeBinary? m q

namespace Double

/-- The double nearest to an integer. -/
def ofInt (n : Int) : Double :=
  ((nearestDouble? n.natAbs 1).getD infinity).withSign (n < 0)

/-- `m * 2 ^ q` with a sign, infinite when it is too large. -/
def ofScaled (negative : Bool) (m : Nat) (q : Int) : Double :=
  let (n, d) := scaleByTwo m q
  ((nearestDouble? n d).getD infinity).withSign negative

/-- The double of the nearest single precision number, infinite past the largest. -/
def toSingle (x : Double) : Double :=
  match x.decode with
  | .finite negative m q =>
    let (n, d) := scaleByTwo m q
    let (m', q') := roundBinary 24 (-149) n d
    if m' ≥ Nat.pow 2 23 && q' > 104 then infinity.withSign negative else ofScaled negative m' q'
  | _ => x

/-- The integer part, toward zero; `none` for numbers that are not finite. -/
def truncate? (x : Double) : Option Int :=
  match x.decode with
  | .finite negative m q =>
    let (n, d) := scaleByTwo m q
    some (if negative then -((n / d : Nat) : Int) else ((n / d : Nat) : Int))
  | _ => none

/-- The remainder of `x / y` with the sign of `x`. -/
def mod (x y : Double) : Double :=
  match x.decode, y.decode with
  | .finite negative m q, .finite _ m' q' =>
    if m' = 0 then nan
    else
      let low := min q q'
      let a := m * Nat.pow 2 (q - low).toNat
      let b := m' * Nat.pow 2 (q' - low).toNat
      ofScaled negative (a % b) low
  | .finite .., .infinite _ => x
  | _, _ => nan

end Double

end QueryTree
