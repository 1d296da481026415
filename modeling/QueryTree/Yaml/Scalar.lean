import QueryTree.Decimal.Notation
import QueryTree.Text.Number
import QueryTree.Time
import QueryTree.Yaml.Node

/-!
# Kinds of YAML scalars

A quoted scalar is a text. A plain one may also be null, a truth value, a number or a date,
depending on how it is written.

## Main definitions

* `ScalarKind`, `ScalarKind.ofPlain`: the kind of a plain scalar
* `Node.tag`: how messages name the kind of a node
-/

namespace QueryTree.Yaml

/-- What a scalar stands for. -/
inductive ScalarKind where
  | null
  | bool (value : Bool)
  | int
  | float
  | date
  | text
  deriving DecidableEq, Repr

namespace ScalarKind

/-- The words that stand for null and the truth values, and the numbers that are words. -/
def words : List (Text × ScalarKind) :=
  [("true", .bool true), ("True", .bool true), ("TRUE", .bool true), ("false", .bool false),
    ("False", .bool false), ("FALSE", .bool false), ("", .null), ("~", .null), ("null", .null),
    ("Null", .null), ("NULL", .null), (".nan", .float), (".NaN", .float), (".NAN", .float),
    (".inf", .float), (".Inf", .float), (".INF", .float), ("+.inf", .float), ("+.Inf", .float),
    ("+.INF", .float), ("-.inf", .float), ("-.Inf", .float), ("-.INF", .float)]

/-- The text without a leading sign. -/
def unsigned : Text → Text
  | b :: rest => if b = byte '-' || b = byte '+' then rest else b :: rest
  | [] => []

/-- The value of digits of a base, if they are any. -/
def digitsValue? (base : Nat) (t : Text) : Option Nat :=
  if t.isEmpty then none
  else t.foldlM (fun n b =>
    match Text.hexValue? b with
    | some d => if d < base then some (base * n + d) else none
    | none => none) 0

/-- The value of an integer without a sign; a leading zero makes it octal, and letters after it
choose other bases. -/
def magnitude? (t : Text) : Option Nat :=
  match t with
  | [b] => digitsValue? 10 [b]
  | b :: c :: rest =>
    if b ≠ byte '0' then digitsValue? 10 t
    else if Text.lowerByte c = byte 'x' then digitsValue? 16 rest
    else if Text.lowerByte c = byte 'o' then digitsValue? 8 rest
    else if Text.lowerByte c = byte 'b' then digitsValue? 2 rest
    else digitsValue? 8 (c :: rest)
  | [] => none

/-- Whether the text is an integer that fits into 64 bits, with a sign or without. -/
def isInteger (t : Text) : Bool :=
  match magnitude? (unsigned t) with
  | none => false
  | some n =>
    if t.head? = some (byte '-') then n ≤ Nat.pow 2 63
    else if t.head? = some (byte '+') then n < Nat.pow 2 63
    else n < Nat.pow 2 64

/-- Whether the text is a decimal number: digits with an optional point and exponent. -/
def isDecimal (t : Text) : Bool :=
  let t := unsigned t
  let whole := t.takeWhile Text.isDigitByte
  let rest := t.drop whole.length
  let (fraction, rest) := match rest with
    | b :: more =>
      if b = byte '.' then
        let digits := more.takeWhile Text.isDigitByte
        (some digits, more.drop digits.length)
      else (none, rest)
    | [] => (none, rest)
  let mantissa := !whole.isEmpty || fraction.any fun d => !d.isEmpty
  let exponent := match rest with
    | [] => true
    | b :: more => Text.lowerByte b = byte 'e' && (Text.toNat? (unsigned more)).isSome
  mantissa && exponent

/-- Whether the text is a day of the calendar, year first. -/
def isDate (t : Text) : Bool :=
  match t.splitByte (byte '-') with
  | [y, m, d] =>
    match Text.toNat? y, Text.toNat? m, Text.toNat? d with
    | some year, some month, some day =>
      let days := Instant.daysOf year month day
      y.length = 4 && m.length ≤ 2 && d.length ≤ 2
        && Instant.dateOf days = ((year : Int), (month : Int), (day : Int))
    | _, _, _ => false
  | _ => false

/-- The kind of a plain scalar that is no word. -/
def ofNumber (t : Text) : ScalarKind :=
  let plain := t.filter (· != byte '_')
  match t with
  | [] => .null
  | b :: _ =>
    if b = byte '.' then if (Double.read? t).isSome then .float else .text
    else if Text.isDigitByte b || b = byte '+' || b = byte '-' then
      if isDate t then .date
      else if isInteger plain then .int
      else if isDecimal plain && (Double.read? plain).isSome then .float
      else .text
    else .text

/-- The kind of a plain scalar. -/
def ofPlain (t : Text) : ScalarKind := (words.lookup t).getD (ofNumber t)

/-- How messages name the kind. -/
def tag : ScalarKind → Text
  | null => "!!null"
  | bool _ => "!!bool"
  | int => "!!int"
  | float => "!!float"
  | date => "!!timestamp"
  | text => "!!str"

end ScalarKind

/-- How messages show a node: its kind and, for scalars, their text cut short. -/
def Node.tag : Node → Text
  | .scalar _ t plain =>
    let kind := if plain then ScalarKind.ofPlain t else .text
    kind.tag ++ " \x60" ++ (if 10 < t.length then t.take 7 ++ "..." else t) ++ "\x60"
  | .sequence .. => "!!seq"
  | .mapping .. => "!!map"

end QueryTree.Yaml
