import QueryTree.Decimal.Notation
import QueryTree.Prelude
import QueryTree.Type.Printed

/-!
# Displayed values

The text of a value in messages, labels and parameter lists: numbers and texts plainly, lists in
brackets, maps with sorted keys, records in braces, and a leading ampersand for a pointer to one of
these. A type that chooses its own text has it used wherever it is visible.
-/

namespace QueryTree

/-- The text of a map key. -/
def MapKey.text : MapKey → Text
  | .string t => t
  | .int n => Text.ofInt n

namespace Value

/-- The text of the type of a value, as messages show it. -/
def typeText (v : Value) : Text := Ty.textOrNil v.type?

/-- The text that the type of a value chooses for it. -/
def ownText? (pre : Prelude) (v : Value) : Option Text :=
  match v with
  | time t => some t.text
  | named .. => (v.type?.bind pre.display?).map fun f => f v
  | _ => none

/-- The text that a pointer's target chooses, for a pointer to a type that chooses one. -/
def ownTargetText? (pre : Prelude) : Value → Option Text
  | ptr _ v => ownText? pre v
  | nilPtr t =>
    match t with
    | .time => some "<nil>"
    | t => (pre.display? t).map fun _ => "<nil>"
  | _ => none

mutual

/-- The text of a value inside another one. -/
def displayInner (pre : Prelude) : Value → Text
  | nil => "<nil>"
  | bool b => if b then "true" else "false"
  | int _ n => Text.ofInt n
  | float s x => x.text s
  | string t => t
  | time t => t.text
  | nilPtr _ => "<nil>"
  | ptr t v => (ownTargetText? pre (ptr t v)).getD "0xc000000000"
  | nilSlice _ => "[]"
  | slice _ items => "[" ++ displayAll pre true items ++ "]"
  | array _ items => "[" ++ displayAll pre true items ++ "]"
  | nilMap .. => "map[]"
  | map _ _ entries => "map[" ++ displayEntries pre true entries ++ "]"
  | record _ values => "\x7b" ++ displayAll pre true values ++ "\x7d"
  | named n v => (ownText? pre (named n v)).getD (displayInner pre v)

/-- The texts of values with blanks between them; the flag marks the first one. -/
def displayAll (pre : Prelude) : (first : Bool) → List Value → Text
  | _, [] => ""
  | first, v :: vs => (if first then "" else " ") ++ displayInner pre v ++ displayAll pre false vs

/-- The entries of a map as keys and values with colons. -/
def displayEntries (pre : Prelude) : (first : Bool) → List (MapKey × Value) → Text
  | _, [] => ""
  | first, (k, v) :: rest =>
    (if first then "" else " ") ++ k.text ++ ":" ++ displayInner pre v
      ++ displayEntries pre false rest

end

/-- The text of a value. -/
def display (pre : Prelude) (v : Value) : Text :=
  match v with
  | ptr t target =>
    match ownTargetText? pre (ptr t target) with
    | some text => text
    | none =>
      match target.under with
      | record .. | slice .. | nilSlice _ | array .. | map .. | nilMap .. =>
        "&" ++ displayInner pre target.under
      | _ => "0xc000000000"
  | v => displayInner pre v

end Value

end QueryTree
