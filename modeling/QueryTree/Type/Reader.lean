import QueryTree.Type.Basic

/-!
# Reading types

The type that a text names: a scalar, a declared name, or a pointer, list, array or map written in
front of another type.

## Main definitions

* `Ty.scalar?`: the scalar types by name
* `Ty.read?`
-/

namespace QueryTree.Ty

/-- The scalar types by name. -/
def scalars : List (Text × Ty) :=
  let plain : List (Text × Ty) :=
    [("bool", bool), ("string", string), ("float32", float true), ("float64", float false),
      ("any", any), ("time", time)]
  plain ++ IntKind.all.map fun k => ((k.name : Text), int k)

/-- What stands in front of an element type, and the text of the element type. -/
def lead? (t : Text) : Option ((Ty → Ty) × Text) :=
  let leads : List (Text × (Ty → Ty)) :=
    [("*", ptr), ("[]", slice), ("map[string]", map string), ("map[int]", map (int .int))]
  match leads.find? fun (lead, _) => t.hasPrefix lead with
  | some (lead, f) => some (f, t.drop lead.length)
  | none =>
    match t with
    | b :: rest =>
      let digits := rest.takeWhile Text.isDigitByte
      if b = byte '[' && !digits.isEmpty then
        let n := digits.foldl (fun n d => 10 * n + (d.toNat - 48)) 0
        some (array n, rest.drop (digits.length + 1))
      else none
    | [] => none

/-- The type that a text names, reading at most `fuel` leads. -/
def readTo (names : Text → Option Ty) : (fuel : Nat) → Text → Option Ty
  | 0, _ => none
  | fuel + 1, t =>
    match names t <|> scalars.lookup t with
    | some ty => some ty
    | none => (lead? t).bind fun (f, rest) => (readTo names fuel rest).map f

/-- The type that a text names, where `names` are the declared ones. -/
def read? (names : Text → Option Ty) (t : Text) : Option Ty := readTo names (t.length + 1) t

end QueryTree.Ty
