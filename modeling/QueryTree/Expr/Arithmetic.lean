import QueryTree.Decimal.Power
import QueryTree.Expr.EvalError
import QueryTree.Value.Convert

/-!
# Operators on values

Comparison and arithmetic of evaluated operands. Integers are computed in 64 bits with wrap-around
and the result takes the type of the left operand; as soon as one operand is a floating point
number both are. Values that are neither numbers nor texts can only be tested for equality.

## Main definitions

* `Value.compareWith`: the six comparisons
* `Value.arith`: the arithmetic operators
-/

namespace QueryTree

namespace Value

/-- A number as evaluation sees it: an integer of 64 bits, or a floating point number. -/
inductive Numeric where
  | int (n : Int)
  | float (x : Double)

/-- The integer with the same low 64 bits that fits a signed word. -/
def word (n : Int) : Int := n.bmod (Nat.pow 2 64)

/-- The value as a number. -/
def numeric? (v : Value) : Option Numeric :=
  match v.under with
  | int _ n => some (.int n)
  | float _ x => some (.float x)
  | _ => none

/-- The number as a double. -/
def Numeric.toDouble : Numeric → Double
  | .int n => Double.ofInt n
  | .float x => x

/-- The text of a value that is one. -/
def text? (v : Value) : Option Text :=
  match v.under with
  | string t => some t
  | _ => none

/-- Orders two texts by their bytes. -/
def compareText (s t : Text) : Int :=
  let s := s.map UInt8.toNat
  let t := t.map UInt8.toNat
  if s < t then -1 else if s = t then 0 else 1

/-- The sign of the difference of two numbers; zero when neither is less. -/
def compareNumeric : Numeric → Numeric → Int
  | .int a, .int b => if word a < word b then -1 else if word b < word a then 1 else 0
  | a, b =>
    let a := a.toDouble.toFloat
    let b := b.toDouble.toFloat
    if a < b then -1 else if a > b then 1 else 0

/-- Whether a comparison holds for operands whose difference has the given sign. -/
def holdsFor (op : BinaryOp) (c : Int) : Bool :=
  match op with
  | .equal => c == 0
  | .notEqual => c != 0
  | .greaterThan => c > 0
  | .greaterThanOrEqual => c ≥ 0
  | .lessThan => c < 0
  | _ => c ≤ 0

/-- The result of a comparison. -/
def compareWith (op : BinaryOp) (l r : Value) : Except EvalError Bool :=
  match l.numeric?, r.numeric?, l.text?, r.text? with
  | some a, some b, _, _ => .ok (holdsFor op (compareNumeric a b))
  | _, _, some a, some b => .ok (holdsFor op (compareText a b))
  | _, _, _, _ =>
    let equal := same l r || (l.isNil && r.isNil)
    if op = .equal then .ok equal
    else if op = .notEqual then .ok (!equal)
    else .error (.cannotOrder l.type? r.type?)

/-- A floating point operation; none for operators that need integers. -/
def floatOp? (op : BinaryOp) (a b : Double) : Option Double :=
  match op with
  | .add => some (.ofFloat (a.toFloat + b.toFloat))
  | .subtract => some (.ofFloat (a.toFloat - b.toFloat))
  | .multiply => some (.ofFloat (a.toFloat * b.toFloat))
  | .divide => some (.ofFloat (a.toFloat / b.toFloat))
  | .modulo => some (a.mod b)
  | .power => some (a.power b)
  | _ => none

/-- The exclusive or of two signed words. -/
def xorWords (a b : Int) : Int :=
  (((a % (Nat.pow 2 64 : Nat)).toNat ^^^ (b % (Nat.pow 2 64 : Nat)).toNat : Nat) : Int)

/-- An integer operation on signed words, before it is cut to a word. -/
def intOp (op : BinaryOp) (a b : Int) : Except EvalError Int :=
  match op with
  | .add => .ok (a + b)
  | .subtract => .ok (a - b)
  | .multiply => .ok (a * b)
  | .divide => if b = 0 then .error .divisionByZero else .ok (a.tdiv b)
  | .modulo => if b = 0 then .error .divisionByZero else .ok (a.tmod b)
  | .exclusiveOr => .ok (xorWords a b)
  | .leftShift => .ok (if 0 ≤ b && b < 64 then a * Nat.pow 2 b.toNat else 0)
  | .rightShift => .ok (if 0 ≤ b && b < 64 then a / Nat.pow 2 b.toNat else if a < 0 then -1 else 0)
  | op => .error (.noEvaluation op)

/-- An integer as a value of the type of `like`. -/
def intLike (like : Value) (n : Int) : Value :=
  match like with
  | named name v => named name (intLike v n)
  | int k _ => int k (k.wrap n)
  | v => v

/-- A double as a value of the type of `like`, for floating point values; a plain double
otherwise. -/
def floatLike (like : Value) (x : Double) : Value :=
  match like with
  | named name v =>
    match v.under with
    | float .. => named name (floatLike v x)
    | _ => float false x
  | float s _ => float s (if s then x.toSingle else x)
  | _ => float false x

/-- The element of a list at a position. -/
def elementAt (l r : Value) : Attempt EvalError Value :=
  match l.items?, r.numeric? with
  | some _, some (.float _) => .fault
  | some items, some (.int n) =>
    let i := word n
    if 0 ≤ i then
      match items[i.toNat]? with
      | some v => .ok v
      | none => .fail (.indexOutOfRange i)
    else .fail (.indexOutOfRange i)
  | _, _ => .fail (.cannotIndex l.type?)

/-- The result of an arithmetic operator. -/
def arith (op : BinaryOp) (l r : Value) : Attempt EvalError Value :=
  if op = .coalesce then .ok r
  else if op = .arrayIndex then elementAt l r
  else
    match op, l.text?, r.text? with
    | .add, some s, some t => .ok (.string (s ++ t))
    | _, _, _ =>
      match l.numeric?, r.numeric? with
      | some a, some b =>
        match a, b, op with
        | .int a, .int b, .power => .ok (float false ((Double.ofInt a).power (Double.ofInt b)))
        | .int a, .int b, op =>
          match intOp op (word a) (word b) with
          | .ok n => .ok (intLike l (word n))
          | .error e => .fail e
        | a, b, op =>
          match floatOp? op a.toDouble b.toDouble with
          | some x => .ok (floatLike l x)
          | none => .fail (.needsIntegers op)
      | _, _ => .fail (.needsNumbers op l.type? r.type?)

end Value

end QueryTree
