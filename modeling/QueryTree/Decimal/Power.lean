import QueryTree.Decimal.Binary

/-!
# Powers

Powers of doubles by repeated squaring of the mantissa, with the exponents kept apart so that
nothing overflows on the way. Fractional exponents go through logarithms, a half exponent through
the square root.
-/

namespace QueryTree.Double

/-- A finite number other than zero as a mantissa of size one half to one, and an exponent. -/
def split (x : Double) : Float × Int :=
  match x.decode with
  | .finite negative m q =>
    let bits : Int := m.log2 + 1
    ((ofScaled negative m (-bits)).toFloat, q + bits)
  | _ => (x.toFloat, 0)

/-- `x * 2 ^ k`. -/
def scale (x : Float) (k : Int) : Float :=
  match (ofFloat x).decode with
  | .finite negative m q => (ofScaled negative m (q + k)).toFloat
  | _ => x

/-- The mantissa and exponent of `x ^ i` times the ones given, by squaring. -/
def powerLoop : (fuel : Nat) → (i : Nat) → (acc : Float × Int) → (x : Float × Int) → Float × Int
  | 0, _, acc, _ => acc
  | fuel + 1, i, (a, ae), (x, xe) =>
    if i = 0 then (a, ae)
    else if xe < -4096 || 4096 < xe then (a, ae + xe)
    else
      let acc := if i % 2 = 1 then (a * x, ae + xe) else (a, ae)
      let square := x * x
      let doubled := xe * 2
      let next := if square < 0.5 then (square + square, doubled - 1) else (square, doubled)
      powerLoop fuel (i / 2) acc next

/-- Whether a number is an odd integer. -/
def isOddInteger (x : Double) : Bool :=
  match x.decode with
  | .finite _ m q =>
    let (n, d) := scaleByTwo m q
    n % d == 0 && n / d % 2 == 1
  | _ => false

/-- Whether a number is an integer. -/
def isInteger (x : Double) : Bool :=
  match x.decode with
  | .finite _ m q =>
    let (n, d) := scaleByTwo m q
    n % d == 0
  | _ => false

/-- `x ^ y` for finite `x` other than zero and one, and finite `y` other than zero. -/
def powerFinite (x y : Double) : Double :=
  let size := (y.withSign false).toFloat
  let whole := size.floor
  let part := size - whole
  if part != 0 && x.toFloat < 0 then nan
  else if whole ≥ 9.223372036854775808e18 then
    let small := (x.withSign false).toFloat < 1
    if x.toFloat == -1 then ofFloat 1
    else if small == (y.toFloat > 0) then ⟨0⟩
    else infinity
  else
    let (part, whole) := if part > 0.5 then (part - 1, whole + 1) else (part, whole)
    let start : Float := if part != 0 then (part * x.toFloat.log).exp else 1
    let (a, ae) := powerLoop 64 ((ofFloat whole).truncate?.getD 0).toNat (start, 0) x.split
    let (a, ae) := if y.toFloat < 0 then (1 / a, -ae) else (a, ae)
    ofFloat (scale a ae)

/-- `x ^ y`. -/
def power (x y : Double) : Double :=
  let fx := x.toFloat
  let fy := y.toFloat
  if fy == 0 || fx == 1 then ofFloat 1
  else if fy == 1 then x
  else if fx.isNaN || fy.isNaN then nan
  else if fx == 0 then
    let negative := x.bits.toNat / Nat.pow 2 63 == 1
    if fy < 0 then
      if negative && y.isOddInteger then infinity.withSign true else infinity
    else if negative && y.isOddInteger then x else ⟨0⟩
  else if fy.isInf then
    let size := (x.withSign false).toFloat
    if fx == -1 then ofFloat 1
    else if (size < 1) == (fy > 0) then ⟨0⟩
    else infinity
  else if fx.isInf then
    if fx < 0 then
      if fy < 0 then (⟨0⟩ : Double).withSign y.isOddInteger
      else infinity.withSign y.isOddInteger
    else if fy < 0 then ⟨0⟩
    else infinity
  else if fy == 0.5 then ofFloat fx.sqrt
  else if fy == -0.5 then ofFloat (1 / fx.sqrt)
  else powerFinite x y

end QueryTree.Double
