import QueryTree.Mapping.Entity

/-!
# Registries

A registry resolves record types to entities. A type bound to a table explicitly has that table; a
declared type may name its own; otherwise the table follows from the name. Unnamed records that
are not bound, and maps, are anonymous: they have no table and stand for rows of whatever entity
the statement writes.

## Main definitions

* `Registry`, `Registry.register`
* `Registry.entity`, `Registry.table`, `Registry.column`
* `Registry.isAnonymous`
-/

namespace QueryTree

/-- Why a type or member is not mapped. -/
inductive MappingError where
  /-- The type has no table. -/
  | noTable (type : Option Ty)
  /-- The type is anonymous and no entity stands in for it. -/
  | noDefault (type : Option Ty)
  | noFrom
  /-- The member has no column. -/
  | noColumn (type : Option Ty) (member : Text)
  deriving DecidableEq

/-- The message of a mapping error. -/
def MappingError.message : MappingError → Text
  | noTable t => "exprql: type is not mapped to a table: " ++ Ty.textOrNil t
  | noDefault t =>
    "exprql: type is not mapped to a table: " ++ Ty.textOrNil t ++ " and no default entity type"
  | noFrom => "exprql: type is not mapped to a table: select has no FROM parameter"
  | noColumn t member =>
    "exprql: invalid column mapping: " ++ Ty.textOrNil t ++ " has no column for member "
      ++ member.quoted

/-- Whether the error is about a column rather than a table. -/
def MappingError.isColumn : MappingError → Bool
  | noColumn .. => true
  | _ => false

/-- Explicit tables and the rules for all other names. -/
structure Registry where
  tables : List (Ty × Text)
  tableRule : Mapping.NameRule
  columnRule : Mapping.NameRule
  deriving DecidableEq

namespace Registry

/-- The registry without explicit tables and with the standard rules. -/
def standard : Registry := ⟨[], .standard, .standard⟩

/-- The registry with a type, or the type behind its pointers, bound to a table. -/
def register (r : Registry) (t : Option Ty) (table : Text) : Registry :=
  match t.map Ty.indirect with
  | some t => { r with tables := (t, table) :: r.tables.filter fun (s, _) => s ≠ t }
  | none => r

/-- Whether the type is bound to a table. -/
def isBound (r : Registry) (t : Ty) : Bool := (r.tables.lookup t).isSome

/-- Whether the type is a map, an unnamed record that is not bound, or unknown. -/
def isAnonymous (r : Registry) (t : Option Ty) : Bool :=
  match t.map Ty.indirect with
  | none => true
  | some t =>
    match t with
    | .record _ => !r.isBound t
    | t => match t.under with
      | .map .. => true
      | _ => false

/-- The table of a record type. -/
def tableOf (r : Registry) (t : Ty) : Text :=
  match r.tables.lookup t, t.name? with
  | some table, _ => table
  | none, some n => n.table.getD (r.tableRule.table n.name)
  | none, none =>
    match t with
    | .time => r.tableRule.table "Time"
    | _ => r.tableRule.table []

/-- Whether rows of the type can have a table. -/
def isEntityType (r : Registry) (t : Ty) : Bool :=
  match t with
  | .record _ => r.isBound t
  | .time => true
  | t => t.fields?.isSome

/-- The entity of a type, or of the type behind its pointers. -/
def entity (r : Registry) (t : Option Ty) : Except MappingError Entity :=
  match t.map Ty.indirect with
  | none => .error (.noTable none)
  | some t =>
    if r.isEntityType t then .ok ⟨t, r.tableOf t, Mapping.columnsOf r.columnRule t⟩
    else .error (.noTable (some t))

/-- The table of a type. -/
def table (r : Registry) (t : Option Ty) : Except MappingError Text := (r.entity t).map (·.table)

/-- The column of a member of a type. -/
def column (r : Registry) (t : Option Ty) (member : Text) : Except MappingError Column :=
  match r.entity t with
  | .error _ => .error (.noColumn t member)
  | .ok e =>
    match e.column? member with
    | some c => .ok c
    | none => .error (.noColumn t member)

end Registry

end QueryTree
