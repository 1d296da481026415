import QueryTree.Dialect.Profile
import QueryTree.Value.Display
import QueryTree.Value.Convert

/-!
# SQL literals and interpolation

The literal of a value in a dialect, and the statement text with its placeholders replaced by the
literals of the bound values. The result is for reading only. Placeholders inside quoted segments
are no placeholders, and one without a value stays as it is.

## Main definitions

* `Sql.literal`: the literal of a value; a nil time pointer faults
* `Sql.placeholderAt`: the placeholder at the start of a text
* `Sql.interpolate`
-/

namespace QueryTree.Sql

/-- The upper case hexadecimal digits of bytes. -/
def hexBytes (t : Text) : Text :=
  t.flatMap fun b => [Text.hexDigitUpper (b.toNat / 16), Text.hexDigitUpper (b.toNat % 16)]

/-- The text that a value's type chooses, also behind one pointer. A nil pointer to such a type
has none to ask. -/
def chosenText? (pre : Prelude) (v : Value) : Attempt Empty (Option Text) :=
  match v with
  | .nilPtr t =>
    if t = .time || (pre.display? t).isSome then .fault else .ok none
  | .ptr _ target => .ok (target.ownText? pre)
  | v => .ok (v.ownText? pre)

/-- The literal of a value in a dialect. -/
def literal (pre : Prelude) (p : Profile) (v : Value) : Attempt Empty Text :=
  match v with
  | .nil => .ok "NULL"
  | .string t => .ok (stringLiteral t p.backslashEscapes)
  | .bool b =>
    .ok (if p.truthWords then (if b then "TRUE" else "FALSE") else (if b then "1" else "0"))
  | .slice (.int .uint8) items => .ok ("X'" ++ hexBytes (Value.bytesOf items) ++ "'")
  | .nilSlice (.int .uint8) => .ok "X''"
  | .time t => .ok (stringLiteral t.sqlText false)
  | .int _ n => .ok (Text.ofInt n)
  | .float s x => .ok (x.text s)
  | v => do
    match ← chosenText? pre v with
    | some t => .ok (stringLiteral t p.backslashEscapes)
    | none => .ok (stringLiteral (v.display pre) p.backslashEscapes)

/-- A placeholder: the next one in order, or the one with a number, from zero. -/
inductive Mark where
  | next
  | numbered (index : Nat)
  deriving DecidableEq, Repr

/-- The placeholder at the start of a text and its width. A number too large for a word, or zero,
is none. -/
def placeholderAt? (p : Profile) (t : Text) : Option (Mark × Nat) :=
  match p.marker with
  | .question =>
    match t with
    | b :: _ => if b = byte '?' then some (.next, 1) else none
    | [] => none
  | .numbered lead =>
    let lead : Text := lead
    if t.hasPrefix lead then
      let digits := (t.drop lead.length).takeWhile Text.isDigitByte
      match Text.toInt64? digits with
      | some n =>
        if n < 1 then none else some (.numbered (n.toNat - 1), lead.length + digits.length)
      | none => none
    else none

/-- Replaces the placeholders of a text after its first `skip` bytes; `next` counts those without
a number. -/
def interpolateFrom (pre : Prelude) (p : Profile) (params : List Value) :
    (skip next : Nat) → Text → Attempt Empty Text
  | _, _, [] => .ok []
  | skip + 1, next, _ :: rest => interpolateFrom pre p params skip next rest
  | 0, next, b :: rest =>
    match quotedLength (b :: rest) with
    | n + 1 => do
      return (b :: rest).take (n + 1) ++ (← interpolateFrom pre p params n next rest)
    | 0 =>
      match placeholderAt? p (b :: rest) with
      | none => do return b :: (← interpolateFrom pre p params 0 next rest)
      | some (mark, width) => do
        let (index, next) := match mark with
          | .next => (next, next + 1)
          | .numbered i => (i, next)
        let written ← match params[index]? with
          | some v => literal pre p v
          | none => .ok ((b :: rest).take width)
        return written ++ (← interpolateFrom pre p params (width - 1) next rest)

/-- The text with its placeholders replaced by the literals of the bound values. -/
def interpolate (pre : Prelude) (d : Dialect) (t : Text) (params : List Value) :
    Attempt Empty Text :=
  interpolateFrom pre d.profile params 0 0 t

end QueryTree.Sql
