import QueryTree.Type.Basic

/-!
# Members of records

A record has its own fields and lends those of its embedded records. A member is looked up level
by level: the fields of the record first, then those of its embedded records, and so on. Two hits
on one level cancel each other, and nothing below is looked at.

## Main definitions

* `Ty.member?`: the field a name selects and the path of field positions that leads to it
-/

namespace QueryTree.Ty

/-- A record met during the search: its fields, the path to it, and whether its level holds it
more than once. -/
structure Reached where
  type : Ty
  path : List Nat
  repeated : Bool

/-- The fields of a time, which no one outside can read. -/
def timeFields : List (Field Ty) :=
  [⟨"wall", int .uint64, "", false, false⟩,
   ⟨"ext", int .int64, "", false, false⟩,
   ⟨"loc", ptr (named ⟨"time", "Location", none⟩ (record [])), "", false, false⟩]

/-- The fields of a record type, or those of a time. -/
def ownFields? (t : Ty) : Option (List (Field Ty)) :=
  match t.under with
  | record fs => some fs
  | time => some timeFields
  | _ => none

/-- The fields of a record type or of a time; other types have none. -/
def ownFields (t : Ty) : List (Field Ty) := t.ownFields?.getD []

/-- The field and path of the hits for `name` in one record. -/
def hitsIn (name : Text) (r : Reached) : List (Field Ty × List Nat) :=
  r.type.ownFields.zipIdx.filterMap fun (f, i) =>
    if f.name = name then some (f, r.path ++ [i]) else none

/-- The embedded records of one record that do not carry the name themselves. -/
def embeddedIn (name : Text) (r : Reached) : List Reached :=
  r.type.ownFields.zipIdx.filterMap fun (f, i) =>
    let t := match f.type with
      | ptr t => t
      | t => t
    if f.embedded && f.name ≠ name && t.ownFields?.isSome then
      some ⟨t, r.path ++ [i], r.repeated⟩
    else none

/-- A level with one more record: a record already there is marked as repeated instead. -/
def addReached (level : List Reached) (r : Reached) : List Reached :=
  if level.any fun s => s.type = r.type then
    level.map fun s => if s.type = r.type then { s with repeated := true } else s
  else level ++ [r]

/-- The first of every record in a level, marked when it was met more than once. -/
def mergeLevel (rs : List Reached) : List Reached := rs.foldl addReached []

/-- Searches one level and then the levels below it, at most `fuel` of them. Records already
searched are not searched again. -/
def searchLevels (name : Text) : (fuel : Nat) → (seen : List Ty) → List Reached →
    Option (Field Ty × List Nat)
  | 0, _, _ => none
  | _ + 1, _, [] => none
  | fuel + 1, seen, r :: rs =>
    let level := (mergeLevel (r :: rs)).filter fun r => !seen.contains r.type
    match level.flatMap fun r => (hitsIn name r).map fun hit => (r.repeated, hit) with
    | [(false, hit)] => some hit
    | _ :: _ => none
    | [] =>
      searchLevels name fuel (seen ++ level.map (·.type)) (level.flatMap (embeddedIn name))

mutual

/-- How deeply records are embedded in a type, at most. -/
def depth : Ty → Nat
  | ptr t => t.depth
  | named _ t => t.depth
  | record fs => depthFields fs + 1
  -- a time holds its location
  | time => 2
  | _ => 0

/-- The greatest depth among the field types. -/
def depthFields : List (Field Ty) → Nat
  | [] => 0
  | ⟨_, t, _, _, _⟩ :: fs => max t.depth (depthFields fs)

end

/-- The field that `name` selects in a record type, and the path to it. -/
def member? (t : Ty) (name : Text) : Option (Field Ty × List Nat) :=
  if t.ownFields?.isNone || name.isEmpty then none
  else searchLevels name t.depth [] [⟨t, [], false⟩]

end QueryTree.Ty
