import QueryTree.Type.Member
import QueryTree.Value.Convert

/-!
# Slots

A slot is a field or an element and holds values of one type. Storing nothing leaves the zero value
of the type, a slot for pointers points to the value, and numbers are converted.

## Main definitions

* `Value.fieldAt?`, `Value.setField`: fields along a path
* `Value.stored`: a value as a slot holds it
* `Value.withMember`: a record with a field set by name
-/

namespace QueryTree.Value

/-- The values of the fields of a record. What the fields of a time hold is hidden, so their zero
values stand for it. -/
def fieldValues? (v : Value) : Option (List Value) :=
  match v.under with
  | record _ values => some values
  | time _ => some (Ty.timeFields.map fun f => f.type.zero)
  | _ => none

/-- The values of the fields of a record, or of one behind a pointer. -/
def reached? (v : Value) : Option (List Value) :=
  match v.under with
  | ptr _ target => target.fieldValues?
  | _ => v.fieldValues?

/-- The value at the end of a path of field positions; none when it passes a nil pointer. -/
def fieldAt? : Value → List Nat → Option Value
  | v, [] => some v
  | v, i :: path => v.reached?.bind fun values => values[i]?.bind fun v => v.fieldAt? path

/-- The record with the value at the end of a path replaced; none when it passes a nil pointer.
What a time hides is left as it is. -/
def setField (new : Value) : Value → List Nat → Option Value
  | _, [] => some new
  | named n v, path => (setField new v path).map (named n)
  | ptr t v, path => (setField new v path).map (ptr t)
  | record fs values, i :: path => do
    let old ← values[i]?
    let v ← setField new old path
    return record fs (values.set i v)
  | time t, i :: _ => (Ty.timeFields[i]?).map fun _ => time t
  | _, _ :: _ => none
termination_by v path => (path.length, sizeOf v)

/-- The value as a slot of a type holds it; it fails if the slot can hold no such value. -/
def stored (v : Value) (t : Ty) : Attempt Unit Value :=
  match v.type? with
  | none => .ok t.zero
  | some a =>
    if a.assignable t then (v.convert t).widen
    else match t with
      | .ptr e => do return .ptr e (← stored v e)
      | t => if a.convertible t then (v.convert t).widen else .fail ()

/-- The record with a field set by name, which may be one of an embedded record. It faults if the
way there leads through nothing. -/
def withMember (record : Value) (t : Ty) (name : Text) (v : Value) : Attempt Unit Value :=
  match t.member? name with
  | none => .fail ()
  | some (f, path) => do
    match setField (← v.stored f.type) record path with
    | some r => .ok r
    | none => .fault

end QueryTree.Value
