import QueryTree.Compile.Alias
import QueryTree.Compile.Error
import QueryTree.Dialect.Profile
import QueryTree.Prelude

/-!
# Emitting SQL

Compiling an expression yields text. On the way values are bound to placeholders, select items are
recorded, and row parameters get aliases; this is the state of a compilation. A compilation that
stops keeps the state it reached and the text written so far, because both can be looked at.

Texts are put together by their emitters. An emitter that needs to go on after some text has been
written runs the rest under `Emit.after`, so that a stop leaves that text in front.

## Main definitions

* `Settings`: what a compilation may depend on
* `Bound`, `Slate`: bound values and the state of a compilation
* `Emit`, `Emit.after`: computations that emit
* `Emit.placeholder`: binds a value
* `Emit.column`: the column of a member of a row
-/

namespace QueryTree

/-- What a compilation may depend on beside the expression. -/
structure Settings where
  dialect : Dialect
  pre : Prelude
  registry : Registry
  /-- The entity that unnamed shapes and maps stand for. -/
  defaultType : Option Ty
  /-- Whether nil members are written. -/
  includeNulls : Bool
  /-- Whether columns are written without an alias. -/
  singleTable : Bool
  /-- Whether names are quoted. -/
  quoted : Bool

namespace Settings

/-- The profile of the dialect. -/
def profile (s : Settings) : Profile := s.dialect.profile

/-- The settings for a dialect without any options. -/
def standard (d : Dialect) (pre : Prelude) : Settings :=
  ⟨d, pre, .standard, none, false, false, false⟩

/-- A name, quoted if names are. -/
def ident (s : Settings) (name : Text) : Text :=
  if s.quoted then s.profile.quoteIdent name else name

/-- A table with its alias, or alone when the alias says nothing new. -/
def tableRef (s : Settings) (table name : Text) : Text :=
  if name.isEmpty || name = table then s.ident table
  else s.ident table ++ s.profile.aliasKeyword ++ s.ident name

/-- The entity of a type; the default entity for an anonymous one. -/
def entityOf (s : Settings) (t : Option Ty) : Except MappingError Entity :=
  if s.registry.isAnonymous t then
    match s.defaultType with
    | none => .error (.noDefault t)
    | some d => s.registry.entity (some d)
  else s.registry.entity t

end Settings

/-- A bound value and its declared database type, empty when none is. -/
structure Bound where
  value : Value
  dataType : Text

/-- The state of a compilation. -/
structure Slate where
  params : List Bound
  fields : List Text
  aliases : AliasTable
  /-- The declared type of the last column written, which the next bound value takes. -/
  pendingType : Text

/-- The state of a compilation that has not begun. -/
def Slate.empty : Slate := ⟨[], [], .empty, []⟩

/-- Why a compilation stopped, and the text written until then. -/
structure Halt where
  cause : Stop CompileError
  written : Text

/-- A computation that emits text and binds values. -/
abbrev Emit (α : Type) := ExceptT Halt (StateM Slate) α

namespace Emit

/-- Stops with an error. -/
def fail {α : Type} (e : CompileError) : Emit α := throw ⟨.error e, []⟩

/-- Stops with a fault. -/
def fault {α : Type} : Emit α := throw ⟨.fault, []⟩

/-- Goes on after `t` has been written: a stop leaves `t` in front of what it wrote. -/
def after {α : Type} (t : Text) (m : Emit α) : Emit α :=
  tryCatch m fun h => throw { h with written := t ++ h.written }

/-- The result of an attempt that writes nothing. -/
def ofAttempt {α : Type} : Attempt CompileError α → Emit α
  | .ok a => pure a
  | .error cause => throw ⟨cause, []⟩

/-- The result of a computation that may fail but writes nothing. -/
def ofExcept {α : Type} : Except CompileError α → Emit α
  | .ok a => pure a
  | .error e => fail e

/-- Emits `before`, then what `m` emits, then `behind`. -/
def enclose (before : Text) (m : Emit Text) (behind : Text) : Emit Text := do
  let t ← after before m
  return before ++ t ++ behind

/-- Emits what two emitters emit, with `between` between them. -/
def join (l : Emit Text) (between : Text) (r : Emit Text) : Emit Text := do
  let a ← l
  let b ← after (a ++ between) r
  return a ++ between ++ b

/-- Emits what each emitter of a list emits, in order. -/
def concat : List (Emit Text) → Emit Text
  | [] => pure []
  | m :: ms => join m [] (concat ms)

/-- Sets the declared type that the next bound value takes. -/
def setPending (t : Text) : Emit Unit := modify fun s => { s with pendingType := t }

/-- The declared type that the next bound value takes. -/
def pending : Emit Text := do return (← get).pendingType

/-- Records a select item. -/
def addField (t : Text) : Emit Unit := modify fun s => { s with fields := s.fields ++ [t] }

end Emit

/-- Binds a value and returns its placeholder. Without a declared type the value takes the pending
one, which is used up in any case. -/
def Slate.bindValue (p : Profile) (s : Slate) (v : Value) (dataType : Text) : Text × Slate :=
  let t := if dataType.isEmpty then s.pendingType else dataType
  let params := s.params ++ [⟨v, t⟩]
  (p.placeholder params.length, { s with params := params, pendingType := [] })

/-- The entity behind a row parameter and the alias of its columns. -/
def Slate.bindRow (st : Settings) (s : Slate) (p : Param) :
    Except MappingError (Entity × Text) × Slate :=
  match st.entityOf p.type with
  | .error e => (.error e, s)
  | .ok e =>
    let (name, aliases) := s.aliases.bind p e.table
    (.ok (e, name), { s with aliases := aliases })

namespace Emit

/-- Binds a value and emits its placeholder. -/
def placeholder (st : Settings) (v : Value) (dataType : Text) : Emit Text :=
  modifyGet fun s => s.bindValue st.profile v dataType

/-- The entity behind a row parameter and the alias of its columns. -/
def row (st : Settings) (p : Param) : Emit (Entity × Text) := do
  let r ← modifyGet fun s => s.bindRow st p
  ofExcept (r.mapError .mapping)

/-- The column of a member of a row, qualified by its alias. -/
def column (st : Settings) (p : Param) (member : Text) : Emit (Text × Column) := do
  let (e, name) ← row st p
  match e.column? member with
  | none => fail (.mapping (.noColumn (some e.type) member))
  | some c =>
    if st.singleTable then return (st.ident c.name, c)
    else return (st.ident name ++ "." ++ st.ident c.name, c)

end Emit

end QueryTree
