import QueryTree.Shell.Definition
import QueryTree.Yaml.Scalar

/-!
# Schema documents

Entity definitions can be read from a YAML document, a mapping whose `entities` are a sequence of
mappings. Reading goes on after a part that is wrong, so that one message lists all of them. A
value that is null leaves its field as it was, and an item that is null is left out.

## Main definitions

* `Schema.read`: the definitions of a document
-/

namespace QueryTree.Shell.Schema

open QueryTree.Yaml (Node ScalarKind)

/-- A value read from a node, if the node has one, and what is wrong with the node. -/
structure Reading (α : Type) where
  value : Option α
  problems : List Text

/-- What is said of a part on a line. -/
def problem (line : Nat) (t : Text) : Text := "line " ++ Text.ofNat line ++ ": " ++ t

/-- The reading of a node of another kind. -/
def mismatch {α : Type} (n : Node) (type : Text) : Reading α :=
  ⟨none, [problem n.line ("cannot unmarshal " ++ n.tag ++ " into " ++ type)]⟩

/-- The kind of a scalar. -/
def kindOf (t : Text) (plain : Bool) : ScalarKind := if plain then .ofPlain t else .text

/-- Reads a text; scalars of every kind are one. -/
def text : Node → Reading Text
  | .scalar _ t plain => ⟨if kindOf t plain = .null then none else some t, []⟩
  | n => mismatch n "string"

/-- The words for truth values that are texts otherwise. -/
def switchWords : List (Text × Bool) :=
  [("y", true), ("Y", true), ("yes", true), ("Yes", true), ("YES", true), ("on", true),
    ("On", true), ("ON", true), ("n", false), ("N", false), ("no", false), ("No", false),
    ("NO", false), ("off", false), ("Off", false), ("OFF", false)]

/-- Reads a truth value. -/
def flag : Node → Reading Bool
  | .scalar l t plain =>
    match kindOf t plain with
    | .null => ⟨none, []⟩
    | .bool b => ⟨some b, []⟩
    | .text =>
      match switchWords.lookup t with
      | some b => ⟨some b, []⟩
      | none => mismatch (.scalar l t plain) "bool"
    | _ => mismatch (.scalar l t plain) "bool"
  | n => mismatch n "bool"

/-- Reads a sequence of items of a type. -/
def items {α : Type} (type : Text) (item : Node → Reading α) : Node → Reading (List α)
  | .sequence _ ns =>
    let rs := ns.map item
    ⟨some (rs.filterMap (·.value)), rs.flatMap (·.problems)⟩
  | .scalar l t plain =>
    if kindOf t plain = .null then ⟨some [], []⟩
    else mismatch (.scalar l t plain) ("[]" ++ type)
  | n => mismatch n ("[]" ++ type)

/-- Whether two keys are written the same. -/
def sameKey : Node → Node → Bool
  | .scalar _ s _, .scalar _ t _ => s = t
  | .sequence .., .sequence .. | .mapping .., .mapping .. => true
  | _, _ => false

/-- The text of a key. -/
def keyText : Node → Text
  | .scalar _ t _ => t
  | _ => []

/-- The keys that are written more than once. -/
def repeated : List Node → List Text
  | [] => []
  | k :: ks =>
    ((ks.filter (sameKey k)).map fun other => problem other.line ("mapping key "
      ++ (keyText other).quoted ++ " already defined at line " ++ Text.ofNat k.line))
      ++ repeated ks

/-- Reads the entries of a mapping one after the other into a record. `set` reads the value of a
field, if the record has the field. -/
def entries {α : Type} (type : Text) (set : α → Text → Node → Option (α × List Text)) :
    α → List (Node × Node) → α × List Text
  | a, [] => (a, [])
  | a, (k, v) :: rest =>
    match text k with
    | ⟨none, problems⟩ =>
      let (a, more) := entries type set a rest
      (a, problems ++ more)
    | ⟨some name, _⟩ =>
      match set a name v with
      | some (a, problems) =>
        let (a, more) := entries type set a rest
        (a, problems ++ more)
      | none =>
        let (a, more) := entries type set a rest
        (a, problem k.line ("field " ++ name ++ " not found in type " ++ type) :: more)

/-- Reads a record from a mapping. -/
def record {α : Type} (type : Text) (empty : α)
    (set : α → Text → Node → Option (α × List Text)) : Node → Reading α
  | .mapping _ es =>
    match repeated (es.map (·.1)) with
    | [] =>
      let (a, problems) := entries type set empty es
      ⟨some a, problems⟩
    | problems => ⟨none, problems⟩
  | .scalar l t plain =>
    if kindOf t plain = .null then ⟨none, []⟩ else mismatch (.scalar l t plain) type
  | n => mismatch n type

/-- Reads a field of a field definition. -/
def setField (f : FieldDef) (name : Text) (n : Node) : Option (FieldDef × List Text) :=
  let asText := fun (old : Text) (put : Text → FieldDef) =>
    let r := text n
    some (put (r.value.getD old), r.problems)
  let asFlag := fun (old : Bool) (put : Bool → FieldDef) =>
    let r := flag n
    some (put (r.value.getD old), r.problems)
  if name = ("name" : Text) then asText f.name fun t => { f with name := t }
  else if name = ("type" : Text) then asText f.type fun t => { f with type := t }
  else if name = ("column" : Text) then asText f.column fun t => { f with column := t }
  else if name = ("pk" : Text) then asFlag f.isKey fun b => { f with isKey := b }
  else if name = ("auto" : Text) then asFlag f.generated fun b => { f with generated := b }
  else if name = ("nullable" : Text) then asFlag f.nullable fun b => { f with nullable := b }
  else none

/-- Reads a field definition. -/
def fieldDef : Node → Reading FieldDef :=
  record "main.fieldDef" ⟨[], [], [], false, false, false⟩ setField

/-- Reads a field of an entity definition. -/
def setEntityField (e : EntityDef) (name : Text) (n : Node) : Option (EntityDef × List Text) :=
  if name = ("name" : Text) then
    let r := text n
    some ({ e with name := r.value.getD e.name }, r.problems)
  else if name = ("table" : Text) then
    let r := text n
    some ({ e with table := r.value.getD e.table }, r.problems)
  else if name = ("fields" : Text) then
    let r := items "main.fieldDef" fieldDef n
    some ({ e with fields := r.value.getD e.fields }, r.problems)
  else none

/-- Reads an entity definition. -/
def entityDef : Node → Reading EntityDef := record "main.entityDef" ⟨[], [], []⟩ setEntityField

/-- Reads a field of a document. -/
def setEntities (es : List EntityDef) (name : Text) (n : Node) :
    Option (List EntityDef × List Text) :=
  if name = ("entities" : Text) then
    let r := items "main.entityDef" entityDef n
    some (r.value.getD es, r.problems)
  else none

/-- The definitions of a document; the message lists everything that is wrong with it. -/
def read (t : Text) : Except Text (List EntityDef) :=
  match Node.read t with
  | .error m => .error ("decode schema: yaml: " ++ m)
  | .ok none => .ok []
  | .ok (some n) =>
    let r := record "main.schemaFile" [] setEntities n
    if r.problems.isEmpty then .ok (r.value.getD [])
    else .error ("decode schema: yaml: unmarshal errors:\n  " ++ Text.join "\n  " r.problems)

end QueryTree.Shell.Schema
