import QueryTree.Attempt
import QueryTree.Value.Basic
import QueryTree.Text.Utf8

/-!
# Conversion

Which types convert to which, and what the conversion does: numbers to numbers with wrap-around or
truncation, integers to the text of their code point, texts to and from bytes and code points,
lists to arrays, records to records with the same fields, and anything to the type of all values.

## Main definitions

* `Ty.convertible`, `Ty.assignable`
* `Value.convert`: faults only when a list is shorter than the array it becomes
* `Value.fit`: the value as an argument, element or field of a type
-/

namespace QueryTree

namespace Ty

mutual

/-- The type with the tags of all unnamed records left out. -/
def withoutTags : Ty → Ty
  | ptr t => .ptr t.withoutTags
  | slice t => .slice t.withoutTags
  | array n t => .array n t.withoutTags
  | map k t => .map k.withoutTags t.withoutTags
  | record fs => .record (fieldsWithoutTags fs)
  | t => t

/-- The fields with their tags left out. -/
def fieldsWithoutTags : List (Field Ty) → List (Field Ty)
  | [] => []
  | ⟨n, t, _, e, x⟩ :: fs => ⟨n, t.withoutTags, [], e, x⟩ :: fieldsWithoutTags fs

end

/-- Whether the types are numbers. -/
def isNumber (t : Ty) : Bool :=
  match t.under with
  | int _ | float _ => true
  | _ => false

/-- Whether the type is a list of bytes or of code points. -/
def isTextList (t : Ty) : Bool :=
  match t.under with
  | slice (int .uint8) | slice (int .int32) => true
  | _ => false

/-- The array that a list becomes when it is converted to the type: one of the type itself, or one
that the type points to. -/
def arrayAt? (t : Ty) : Option (Nat × Ty) :=
  match t.under with
  | array n e => some (n, e)
  | ptr u =>
    match u.under with
    | array n e => some (n, e)
    | _ => none
  | _ => none

/-- Whether values of type `a` convert to type `b`. -/
def convertible (a b : Ty) : Bool :=
  let isInt := match a.under with
    | int _ => true
    | _ => false
  (a.isNumber && b.isNumber)
    || (isInt && b.under = string)
    || (a.under = string && b.isTextList)
    || (a.isTextList && b.under = string)
    || (match a.under, b.arrayAt? with
        | slice e, some (_, e') => e = e'
        | _, _ => false)
    || a.under.withoutTags = b.under.withoutTags
    || (match a, b with
        | ptr e, ptr e' => e.under.withoutTags = e'.under.withoutTags
        | _, _ => false)
    || b.under = any

/-- Whether a value of type `a` can be stored where type `b` is asked for. -/
def assignable (a b : Ty) : Bool :=
  a = b || b.under = any || (!(a.hasName && b.hasName) && a.under = b.under)

end Ty

namespace Value

/-- The integer that a floating point number becomes: its integer part where it fits, and the
number with only the highest bit set where it does not. -/
def floatToInt (signed : Bool) (x : Double) : Int :=
  let odd : Int := Nat.pow 2 63
  match x.truncate? with
  | none => odd
  | some n =>
    if -(Nat.pow 2 63 : Int) ≤ n && n < Nat.pow 2 63 then n
    else if !signed && 0 ≤ n && n < Nat.pow 2 64 then n
    else odd

/-- The text of a code point; U+FFFD stands for numbers that are none. -/
def codePointText (n : Int) : Text :=
  if 0 ≤ n && n < 0x110000 && !(0xd800 ≤ n && n < 0xe000) then Text.ofChar (Char.ofNat n.toNat)
  else Text.ofChar replacementChar

/-- The bytes of a list of byte values. -/
def bytesOf (items : List Value) : Text :=
  items.map fun v => match v with
    | int _ n => n.toNat.toUInt8
    | _ => 0

/-- The list of byte values of a text. -/
def ofBytes (t : Text) : Value := .slice (.int .uint8) (t.map fun b => .int .uint8 b.toNat)

/-- A number as a number of another type. -/
def convertNumber (v : Value) (t : Ty) : Option Value :=
  match v, t with
  | int _ n, .int k => some (.int k (k.wrap n))
  | int _ n, .float s =>
    let x := Double.ofInt n
    some (.float s (if s then x.toSingle else x))
  | float _ x, .int k => some (.int k (k.wrap (floatToInt k.signed x)))
  | float _ x, .float s => some (.float s (if s then x.toSingle else x))
  | _, _ => none

/-- The value under the names of `t`, outermost first. -/
def wrapNames : Ty → Value → Value
  | .named n t, v => .named n (wrapNames t v)
  | _, v => v

theorem under_wrapNames (t : Ty) (v : Value) : (wrapNames t v).under = v.under := by
  fun_induction wrapNames t v with
  | case1 n t v ih => exact ih
  | case2 => rfl

/-- The first elements of a list as an array of length `n`. -/
def arrayOf (e : Ty) (items : List Value) (n : Nat) : Attempt Empty Value :=
  if n ≤ items.length then .ok (.array e (items.take n)) else .fault

/-- The contents of an unnamed value as a value of the unnamed type `t`, for convertible types. -/
def convertUnder (v : Value) (t : Ty) : Attempt Empty Value :=
  match convertNumber v t with
  | some v => .ok v
  | none =>
    match v, t with
    | int _ n, .string => .ok (.string (codePointText n))
    | string s, .slice (.int .int32) =>
      .ok (.slice (.int .int32) (s.chars.map fun c => .int .int32 c.toNat))
    | string s, .slice (.int .uint8) => .ok (ofBytes s)
    | nilSlice _, .string => .ok (.string [])
    | slice (.int .uint8) items, .string => .ok (.string (bytesOf items))
    | slice _ items, .string =>
      .ok (.string (items.flatMap fun v => match v with
        | int _ n => codePointText n
        | _ => []))
    | nilSlice e, .array n _ => arrayOf e [] n
    | slice e items, .array n _ => arrayOf e items n
    | nilSlice e, .ptr u =>
      match u.under with
      | .array n _ => (arrayOf e [] n).map fun _ => .nilPtr u
      | _ => .ok v
    | slice e items, .ptr u =>
      match u.under with
      | .array n _ => (arrayOf e items n).map fun a => .ptr u (wrapNames u a)
      | _ => .ok v
    | record _ values, .record fs => .ok (.record fs values)
    | nilPtr _, .ptr t => .ok (.nilPtr t)
    | v, _ => .ok v

theorem convertUnder_slice_array (e u : Ty) (items : List Value) (n : Nat) :
    convertUnder (slice e items) (.array n u) = arrayOf e items n := by
  cases e with
  | int k => cases k <;> rfl
  | _ => rfl

theorem convertUnder_nilSlice_ptr (e u : Ty) :
    convertUnder (nilSlice e) (.ptr u) = match u.under with
      | .array n _ => (arrayOf e [] n).map fun _ => .nilPtr u
      | _ => .ok (nilSlice e) := rfl

theorem convertUnder_slice_ptr (e u : Ty) (items : List Value) :
    convertUnder (slice e items) (.ptr u) = match u.under with
      | .array n _ => (arrayOf e items n).map fun a => .ptr u (wrapNames u a)
      | _ => .ok (slice e items) := by
  cases e with
  | int k => cases k <;> rfl
  | _ => rfl

/-- What a pointer points to, as a value of another type with the same contents. -/
def recast (v : Value) (t : Ty) : Value :=
  if t.under = .any then v
  else match v.under, t.under with
    | record _ values, .record fs => wrapNames t (.record fs values)
    | u, _ => wrapNames t u

/-- A value of a type convertible to `t` as a value of type `t`. -/
def convert (v : Value) (t : Ty) : Attempt Empty Value :=
  if t.under = .any || v.type? = some t then .ok v
  else
    match v, t with
    | ptr _ target, .ptr e => .ok (.ptr e (target.recast e))
    | _, _ => (convertUnder v.under t.under).map (wrapNames t)

/-- The value as an argument, element or field of type `t`: nil gives the zero value, other
values must be assignable or convertible. -/
def fit (v : Value) (t : Ty) : Attempt (Value × Ty) Value :=
  match v.type? with
  | none => .ok t.zero
  | some a =>
    if a.assignable t || a.convertible t then (v.convert t).widen
    else .fail (v, t)

end Value

end QueryTree
