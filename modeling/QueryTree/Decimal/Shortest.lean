import QueryTree.Decimal.Binary

/-!
# Shortest decimals

The shortest decimal that reads back as a given binary number. The reals that round to
`m * 2 ^ q` form an interval; it includes its ends when `m` is even, and its lower half is half as
long when `m` is the smallest number of its binade. For one digit, two digits and so on, the two
neighbours of the number on the decimal grid are tried; the first grid with a hit wins, and of two
hits the nearer one.

## Main definitions

* `Interval`: a number and the ends of its rounding interval over one denominator
* `Interval.shortest`: digits and exponent of the shortest decimal inside
-/

namespace QueryTree.Decimal

/-- A positive number `mid / den` and the interval of numbers that round to it. -/
structure Interval where
  low : Nat
  mid : Nat
  high : Nat
  den : Nat
  /-- Whether the ends round to the number too. -/
  closed : Bool

/-- The rounding interval of `m * 2 ^ q`; `narrow` when the next smaller number is half as far
away as the next larger one. -/
def Interval.ofBinary (m : Nat) (q : Int) (narrow : Bool) : Interval :=
  let up := Nat.pow 2 q.toNat
  let den := 4 * Nat.pow 2 (-q).toNat
  { low := (4 * m - if narrow then 1 else 2) * up
    mid := 4 * m * up
    high := (4 * m + 2) * up
    den := den
    closed := m % 2 == 0 }

/-- `10 ^ k` as a fraction. -/
def tenTo (k : Int) : Nat × Nat :=
  if k < 0 then (1, Nat.pow 10 (-k).toNat) else (Nat.pow 10 k.toNat, 1)

/-- Whether `c * 10 ^ k` lies in the interval. -/
def Interval.holds (i : Interval) (c : Nat) (k : Int) : Bool :=
  let (n, d) := tenTo k
  let x := c * n * i.den
  if i.closed then i.low * d ≤ x && x ≤ i.high * d else i.low * d < x && x < i.high * d

/-- The least `k` near the binary estimate with the number below `10 ^ k`. -/
def Interval.magnitude (i : Interval) : Int :=
  let estimate := floorLog2 i.mid i.den * 30103 / 100000
  let fits := fun (k : Int) => let (n, d) := tenTo k; i.mid * d < n * i.den
  ([estimate - 1, estimate, estimate + 1].find? fits).getD (estimate + 2)

/-- The decimal with step `10 ^ k` nearest to the number, if one of the two neighbours lies in
the interval. -/
def Interval.onGrid? (i : Interval) (k : Int) : Option Nat :=
  let (n, d) := tenTo k
  let floor := i.mid * d / (n * i.den)
  let rest := 2 * (i.mid * d % (n * i.den))
  let up := rest > n * i.den || (rest == n * i.den && floor % 2 == 1)
  let nearer := if up then floor + 1 else floor
  let other := if nearer = floor then floor + 1 else floor
  if nearer ≠ 0 && i.holds nearer k then some nearer
  else if other ≠ 0 && i.holds other k then some other
  else none

/-- A positive number with its trailing decimal zeros moved into the exponent, at most `fuel`
of them. -/
def stripZeros : (fuel : Nat) → Nat → Int → Nat × Int
  | 0, c, k => (c, k)
  | fuel + 1, c, k => if c % 10 = 0 && c ≠ 0 then stripZeros fuel (c / 10) (k + 1) else (c, k)

/-- The digits `c` and exponent `k` of the shortest decimal `c * 10 ^ k` in the interval. -/
def Interval.shortest (i : Interval) : Nat × Int :=
  let top := i.magnitude
  let attempt := fun (n : Nat) =>
    let k := top - (n + 1 : Nat)
    (i.onGrid? k).map fun c => stripZeros 20 c k
  ((List.range 17).findSome? attempt).getD (i.mid / i.den, 0)

end QueryTree.Decimal
