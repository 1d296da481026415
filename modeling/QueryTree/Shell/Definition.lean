import QueryTree.Attempt
import QueryTree.ErrorClass
import QueryTree.Mapping.Registry
import QueryTree.Text.Title
import QueryTree.Type.Record

/-!
# Entity definitions

Entities can be defined while a session runs. A definition lists fields with the names and types
of the command language; declaring it makes a record type out of them and binds the type to a
table. Every such type begins with a marker field that carries the name of the entity, so that two
entities with the same fields have different types.

## Main definitions

* `FieldDef`, `EntityDef`: definitions as they are written
* `FieldDef.read`, `EntityDef.read`: definitions in the command language
* `Declared`, `EntityDef.declare`: entities that have a type and a table
* `Declared.member?`: the member that a name in an expression means
-/

namespace QueryTree.Shell

/-- A field as it is written. -/
structure FieldDef where
  name : Text
  type : Text
  column : Text
  isKey : Bool
  generated : Bool
  nullable : Bool
  deriving DecidableEq, Repr

/-- An entity as it is written. An empty table stands for the usual one. -/
structure EntityDef where
  name : Text
  table : Text
  fields : List FieldDef
  deriving DecidableEq, Repr

/-- Why a definition is refused. -/
inductive DefinitionError where
  | usage
  | tableName
  | fieldShape (spec : Text)
  | fieldFlag (spec flag : Text)
  | noFields (entity : Text)
  | fieldName (entity field : Text)
  | duplicateField (entity member : Text)
  | fieldType (entity member type : Text)
  deriving DecidableEq, Repr

namespace DefinitionError

/-- The message of a definition error. -/
def message : DefinitionError → Text
  | usage => "usage: entity <name> [table <t>] <field>:<type>[:pk|:auto|:null] ..."
  | tableName => "entity: table needs a name"
  | fieldShape spec => "invalid field " ++ spec.quoted ++ ": want name:type[:pk|:auto|:null]"
  | fieldFlag spec flag => "invalid field " ++ spec.quoted ++ ": unknown flag " ++ flag.quoted
  | noFields entity => entity ++ ": entity needs at least one field"
  | fieldName entity field => entity ++ ": invalid field name " ++ field.quoted
  | duplicateField entity member => entity ++ ": duplicate field " ++ member
  | fieldType entity member type => entity ++ "." ++ member ++ ": unknown type " ++ type.quoted

/-- The classes of a definition error. -/
def classes : DefinitionError → List ErrorClass
  | noFields _ => [.noFields]
  | _ => []

end DefinitionError

/-! ### Reading -/

namespace FieldDef

/-- The field with one more flag. -/
def withFlag (spec : Text) (f : FieldDef) (flag : Text) : Except DefinitionError FieldDef :=
  let word := flag.toLower
  if word = ("pk" : Text) || word = ("key" : Text) then .ok { f with isKey := true }
  else if word = ("auto" : Text) then .ok { f with generated := true }
  else if word = ("null" : Text) then .ok { f with nullable := true }
  else .error (.fieldFlag spec flag)

/-- The field of `name:type`, followed by flags. -/
def read (spec : Text) : Except DefinitionError FieldDef :=
  match spec.splitByte (byte ':') with
  | name :: type :: flags =>
    if name.isEmpty then .error (.fieldShape spec)
    else flags.foldlM (withFlag spec) ⟨name, type.toLower, [], false, false, false⟩
  | _ => .error (.fieldShape spec)

end FieldDef

namespace EntityDef

/-- The entity of a name, an optional table and fields. -/
def ofWords (name : Text) (rest : List Text) : Except DefinitionError EntityDef :=
  match rest with
  | [] => .error .usage
  | first :: others => do
    if first.equalFold "table" then
      match others with
      | [] => .error .tableName
      | table :: specs => return ⟨name, table, ← specs.mapM FieldDef.read⟩
    else return ⟨name, [], ← rest.mapM FieldDef.read⟩

/-- The entity that the arguments of the command define. -/
def read (args : Text) : Except DefinitionError EntityDef :=
  match args.fields with
  | [] => .error .usage
  | name :: rest => ofWords name rest

end EntityDef

/-! ### Declaring -/

/-- The type that the name of a field type stands for. -/
def fieldType? (name : Text) : Option Ty :=
  let types : List (Text × Ty) := [("int", .int .int64), ("float", .float false),
    ("string", .string), ("bool", .bool), ("time", .time)]
  types.lookup name.toLower

namespace FieldDef

/-- The type of a field; a field that may be null is a pointer. -/
def type? (f : FieldDef) : Option Ty :=
  (fieldType? f.type).map fun t => if f.nullable then .ptr t else t

/-- The column of a field. -/
def columnName (f : FieldDef) : Text := if f.column.isEmpty then Mapping.snake f.name else f.column

/-- The tag that maps a field to its column. -/
def tag (f : FieldDef) : Text :=
  let column := f.columnName ++ (if f.isKey then ",pk" else "" : Text)
    ++ (if f.generated then ",auto" else "" : Text)
  "db:" ++ column.quoted

end FieldDef

/-- The field that carries the name of an entity and has no column. -/
def markerField (entity : Text) : Text × Ty × Text :=
  ("EntityMarker", .record [], "db:\"-\" entity:" ++ entity.quoted)

namespace EntityDef

/-- The members of fields, with their types and tags. `seen` are the members before them. -/
def membersOf (entity : Text) : (seen : List Text) → List FieldDef →
    Except DefinitionError (List (Text × Ty × Text))
  | _, [] => .ok []
  | seen, f :: fs =>
    let member := f.name.exported
    if member.isEmpty then .error (.fieldName entity f.name)
    else if seen.elem member then .error (.duplicateField entity member)
    else match f.type? with
      | none => .error (.fieldType entity member f.type)
      | some t => do
        let rest ← membersOf entity (member :: seen) fs
        return (member, t, f.tag) :: rest

/-- The members of a definition. -/
def members (d : EntityDef) : Except DefinitionError (List (Text × Ty × Text)) :=
  if d.fields.isEmpty then .error (.noFields d.name) else membersOf d.name [] d.fields

/-- The table of a definition. -/
def tableName (d : EntityDef) : Text :=
  if d.table.isEmpty then Mapping.tableName d.name.exported else d.table

end EntityDef

/-- An entity that has a type and a table. -/
structure Declared where
  name : Text
  table : Text
  type : Ty
  members : List Text
  deriving DecidableEq

/-- The declared entity of a definition. It faults if the members make no record type. -/
def EntityDef.declare (d : EntityDef) : Attempt DefinitionError Declared :=
  match d.members with
  | .error e => .fail e
  | .ok ms =>
    match Ty.recordOf? (markerField d.name :: ms) with
    | none => .fault
    | some t => .ok ⟨d.name, d.tableName, t, ms.map (·.1)⟩

namespace Declared

/-- The member that a name means: its own name or the name it comes from, up to case. -/
def member? (e : Declared) (name : Text) : Option Text :=
  e.members.find? fun m => m.equalFold name || m.equalFold name.exported

/-- The entity with its table and columns, on one line. -/
def describe (e : Declared) (r : Registry) : Text :=
  match r.entity (some e.type) with
  | .error err => e.name ++ ": " ++ err.message
  | .ok entity =>
    let column := fun (c : Column) => c.member ++ " " ++ c.name
      ++ (if c.isKey then " pk" else "" : Text) ++ (if c.generated then " auto" else "" : Text)
    e.name ++ " (" ++ entity.table ++ "): " ++ Text.join ", " (entity.columns.map column)

end Declared

end QueryTree.Shell
