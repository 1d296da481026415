import QueryTree.Compile.Raw
import QueryTree.Compile.Rendering

/-!
# Constants

A constant is bound as a value. As a condition it must be a truth value; in a membership test a
list is spread over several placeholders; and a text in a select, group or order list is a raw list
of names.
-/

namespace QueryTree

namespace Emit

/-- Emits a constant as a value. -/
def constantValue (st : Settings) (v : Value) : Emit Text :=
  if v.isNil then pure "NULL" else placeholder st v []

/-- Emits a constant as a condition: nothing when it is true. -/
def constantCondition (v : Value) (clause : Clause) : Emit Text :=
  match v with
  | .bool true => pure []
  | .bool false => pure "1 = 0"
  | _ => fail (.construct .constant clause)

/-- Emits the placeholders of values of one declared type, separated by commas. -/
def placeholders (st : Settings) (dataType : Text) (vs : List Value) : Emit Text := do
  return Text.join "," (← vs.mapM fun v => placeholder st v dataType)

/-- Emits a constant as the list of a membership test. -/
def constantMembers (st : Settings) (v : Value) : Emit Text := do
  if v.isNil then return "(NULL)"
  else if v.type?.any Ty.isCollection then
    match v.deref.items? with
    | none => fault
    | some [] => return "(NULL)"
    | some items => return "(" ++ (← placeholders st (← pending) items) ++ ")"
  else return "(" ++ (← placeholder st v []) ++ ")"

/-- Emits a constant as the argument of an aggregate function: a text names one column, and nil
counts rows. -/
def constantArgument (st : Settings) (v : Value) (clause : Clause) : Emit Text := do
  if v.isNil then
    if clause = .count then return "*" else fail (.construct .constant clause)
  else match v with
    | .string t =>
      match ← ofExcept (Raw.items t false) with
      | [item] => return item
      | _ => fail (.construct .constant clause)
    | v => constantValue st v

/-- Emits one select item: the value, and its name unless the value is a column of that name.
Quotes and brackets around a column do not count. -/
def selectItem (st : Settings) (value : Emit Text) (name : Text) : Emit Text := do
  let t ← value
  setPending []
  let isNamed := !name.isEmpty && bareColumn t ≠ name
  let t := if isNamed then t ++ " AS " ++ st.ident name else t
  addField t
  return t ++ itemSeparator
where
  /-- A column without its table and its quotes. -/
  bareColumn (t : Text) : Text :=
    let quotes := fun b : UInt8 => b == byte '"' || b == 96 || b == byte '[' || b == byte ']'
    Text.dropEndWhile quotes ((Text.afterLast (· == byte '.') t).dropWhile quotes)

/-- Records and emits select items as they are. -/
def rawFields (items : List Text) : Emit Text := do
  items.forM addField
  return items.flatMap fun t => t ++ itemSeparator

/-- Emits a constant as a select list: a text is a raw list. -/
def constantProjection (st : Settings) (v : Value) : Emit Text := do
  match v with
  | .string t => rawFields (← ofExcept (Raw.items t false))
  | v => selectItem st (constantValue st v) []

/-- Whether a text ends with a direction. -/
def hasDirection (t : Text) : Bool :=
  let upper := t.trimSpace.toUpper
  upper.hasSuffix " ASC" || upper.hasSuffix " DESC"

/-- An item of a group or order list with its direction and separator. Items that have a
direction of their own use up one of the list as well. -/
def listItem (clause : Clause) (directions : List Direction) (t : Text) : Text :=
  if clause = .orderBy && !hasDirection t then
    t ++ " " ++ (directions.headD .asc).keyword ++ itemSeparator
  else t ++ itemSeparator

/-- The items of a raw group or order list. -/
def rawListing (clause : Clause) : List Direction → List Text → Text × List Direction
  | ds, [] => ([], ds)
  | ds, t :: ts =>
    let (rest, left) := rawListing clause ds.tail ts
    (listItem clause ds t ++ rest, left)

/-- Emits group or order lists one after the other. -/
def listings : List (List Direction → Emit (Text × List Direction)) → List Direction →
    Emit (Text × List Direction)
  | [], ds => pure ([], ds)
  | m :: ms, ds => do
    let (t, ds) ← m ds
    let (rest, ds) ← after t (listings ms ds)
    return (t ++ rest, ds)

/-- Emits a raw group or order list. -/
def rawList (clause : Clause) (t : Text) (ds : List Direction) : Emit (Text × List Direction) := do
  return rawListing clause ds (← ofExcept (Raw.items t (clause = .orderBy)))

/-- Emits a constant as a group or order list: a text or texts that are raw lists. -/
def constantListing (v : Value) (clause : Clause) (ds : List Direction) :
    Emit (Text × List Direction) :=
  match v with
  | .string t => rawList clause t ds
  | .nilSlice .string => pure ([], ds)
  | .slice .string items =>
    listings (items.map fun v => match v with
      | .string t => rawList clause t
      | _ => fun _ => fault) ds
  | _ => fail (.construct .constant clause)

end Emit

/-- The rendering of a constant. -/
def Rendering.constant (st : Settings) (v : Value) (t : Option Ty) : Rendering :=
  { expr := .const v t
    value := fun _ => Emit.constantValue st v
    condition := Emit.constantCondition v
    members := Emit.constantMembers st v
    argument := Emit.constantArgument st v
    projection := Emit.constantProjection st v
    listing := Emit.constantListing v
    row := fun _ writable => Row.allOfValue st writable v
    rows := fun _ writable => Row.allOfValue st writable v
    addends := [fun _ => Emit.constantValue st v] }

end QueryTree
