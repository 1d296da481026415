import QueryTree.Expr.Eval
import QueryTree.Mapping.Naming
import QueryTree.Type.Printed

/-!
# Entities

An entity is a record type together with its table and columns. The columns follow the fields in
order; an embedded record without a tag contributes its own fields in its place. The `db` tag of a
field names its column and says whether it is a key, generated, or not written.

## Main definitions

* `Column`, `Entity`
* `Tag.lookup`: the value of one key of a field's tag
* `Column.read`: the value of a column in a row
* `Entity.columnsOf`: the columns of a record type
-/

namespace QueryTree

/-- How one member of a record maps to a column. -/
structure Column where
  member : Text
  name : Text
  insertable : Bool
  updatable : Bool
  /-- The declared database type, empty when none is. -/
  dataType : Text
  isKey : Bool
  generated : Bool
  /-- The path of field positions to the member. -/
  path : List Nat
  deriving DecidableEq, Repr

/-- A record type with its table and columns. -/
structure Entity where
  type : Ty
  table : Text
  columns : List Column
  deriving DecidableEq

namespace Entity

/-- The column of a member. -/
def column? (e : Entity) (member : Text) : Option Column :=
  e.columns.find? fun c => c.member = member

/-- The key columns in the order of declaration. -/
def keys (e : Entity) : List Column := e.columns.filter (·.isKey)

end Entity

/-- The value at the end of a path of field positions below a record. A nil pointer on the way
gives nil; a path that does not fit the value faults. -/
def Value.along : Value → List Nat → Attempt Empty Value
  | v, [] => .ok v
  | v, i :: path =>
    match v.under with
    | .record _ values =>
      match values[i]? with
      | some v => v.along path
      | none => .fault
    | .nilPtr _ => .ok .nil
    | .ptr _ target =>
      match target.under with
      | .record _ values =>
        match values[i]? with
        | some v => v.along path
        | none => .fault
      | _ => .fault
    | _ => .fault

/-- The value of a column in any value that may stand behind pointers. Only a row of the column's
entity is sure to have one; a nil pointer has nil. -/
def Column.readAny (c : Column) (row : Value) : Attempt Empty Value := row.deref.along c.path

/-- The value of a column in a row of its entity; nil when a pointer on the way is nil. -/
def Column.read (c : Column) (row : Value) : Value :=
  match c.readAny row with
  | .ok v => v
  | .error _ => .nil

namespace Mapping

/-! ### Tags -/

/-- The number of bytes of a quoted string up to and including its closing quote, after the
opening one; none if it does not close. -/
def quotedEnd? : Text → Option Nat
  | [] => none
  | [b] => if b = byte '"' then some 1 else none
  | b :: c :: rest =>
    if b = byte '"' then some 1
    else if b = byte '\\' then (quotedEnd? rest).map (· + 2)
    else (quotedEnd? (c :: rest)).map (· + 1)

/-- The value of `key` in a tag of pairs `name:"value"`, reading at most `fuel` pairs. A malformed
pair ends the tag. -/
def tagValue? (key : Text) : (fuel : Nat) → Text → Option Text
  | 0, _ => none
  | fuel + 1, tag =>
    let tag := tag.dropWhile (· == 32)
    let name := tag.takeWhile fun b =>
      32 < b && b != byte ':' && b != byte '"' && b != 127
    match tag.drop name.length with
    | colon :: quote :: rest =>
      if name.isEmpty || colon != byte ':' || quote != byte '"' then none
      else match quotedEnd? rest with
        | none => none
        | some n =>
          if name = key then Text.unquote? (quote :: rest.take n)
          else tagValue? key fuel (rest.drop n)
    | _ => none

/-- What the tag of a field asks for. -/
structure TagOptions where
  name : Text
  skip : Bool
  isKey : Bool
  generated : Bool
  noInsert : Bool
  noUpdate : Bool
  dataType : Text
  deriving DecidableEq, Repr

/-- The options with one more part of a tag read. -/
def TagOptions.add (o : TagOptions) (part : Text) : TagOptions :=
  let part := part.trimSpace
  if part = ("pk" : Text) || part = ("key" : Text) then { o with isKey := true }
  else if part = ("auto" : Text) then { o with generated := true }
  else if part = ("noinsert" : Text) then { o with noInsert := true }
  else if part = ("noupdate" : Text) then { o with noUpdate := true }
  else if part = ("readonly" : Text) then { o with noInsert := true, noUpdate := true }
  else if part.hasPrefix "type=" then { o with dataType := part.trimPrefix "type=" }
  else o

/-- The options of the value of a `db` tag: a name, then parts separated by commas. A single
hyphen leaves the field out. -/
def TagOptions.parse (tag : Text) : TagOptions :=
  let none : TagOptions := ⟨[], false, false, false, false, false, []⟩
  if tag = ("-" : Text) then { none with skip := true }
  else match tag.splitByte (byte ',') with
    | [] => none
    | name :: parts => parts.foldl TagOptions.add { none with name := name.trimSpace }

/-! ### Columns -/

/-- How columns without a name in their tag are named. -/
inductive NameRule where
  /-- Snake case, and for tables its plural. -/
  | standard
  /-- The declared name after a fixed text. -/
  | lead (t : Text)
  deriving DecidableEq, Repr

/-- The column of a field without a name in its tag. -/
def NameRule.column : NameRule → Text → Text
  | standard, name => snake name
  | lead t, name => t ++ name

/-- The table of a declared name. -/
def NameRule.table : NameRule → Text → Text
  | standard, name => tableName name
  | lead t, name => t ++ name

/-- The column of a field, if it has one. -/
def columnOf? (rule : NameRule) (f : Field Ty) (path : List Nat) : Option Column :=
  let tag := (tagValue? "db" (f.tag.length + 1) f.tag).getD []
  let o := TagOptions.parse tag
  if !f.exported || o.skip then none
  else some
    { member := f.name
      name := if o.name.isEmpty then rule.column f.name else o.name
      insertable := !o.noInsert && !o.generated
      updatable := !o.noUpdate && !o.generated && !o.isKey
      dataType := o.dataType
      isKey := o.isKey
      generated := o.generated
      path := path }

/-- Whether a field is an embedded record without a `db` tag, whose fields take its place. -/
def isFlattened (f : Field Ty) : Bool :=
  f.embedded && (tagValue? "db" (f.tag.length + 1) f.tag).isNone

mutual

/-- The columns of a type, if it is a record or stands behind pointers and names for one. -/
def typeColumns (rule : NameRule) (at_ : List Nat) : Ty → Option (List Column)
  | .ptr t => typeColumns rule at_ t
  | .named _ t => typeColumns rule at_ t
  | .record fs => some (fieldColumns rule at_ 0 fs)
  | .time => some []
  | _ => none

/-- The columns of the fields of a record from position `i`, members of embedded records in the
place of the record. -/
def fieldColumns (rule : NameRule) (at_ : List Nat) (i : Nat) : List (Field Ty) → List Column
  | [] => []
  | ⟨n, t, g, e, x⟩ :: fs =>
    let own := (columnOf? rule ⟨n, t, g, e, x⟩ (at_ ++ [i])).toList
    let flattened := if isFlattened ⟨n, t, g, e, x⟩ then typeColumns rule (at_ ++ [i]) t else none
    flattened.getD own ++ fieldColumns rule at_ (i + 1) fs

end

/-- The columns with only the first of each member kept. -/
def firstOfEach (columns : List Column) : List Column :=
  columns.foldl (fun kept c => if kept.any (·.member == c.member) then kept else kept ++ [c]) []

/-- The columns of a record type. -/
def columnsOf (rule : NameRule) (t : Ty) : List Column :=
  firstOfEach ((typeColumns rule [] t).getD [])

end Mapping

end QueryTree
