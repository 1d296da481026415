import QueryTree.Compile.Render
import QueryTree.Compile.Write
import QueryTree.Sql.Literal

/-!
# Drafts

A draft is a statement under construction: the text so far and the state of its compilation.
Compiling an expression for a clause appends to the draft. A compilation that stops leaves its
partial output in the draft.

## Main definitions

* `Draft`, `Draft.new`
* `Draft.write`, `Draft.insertAt?`, `Draft.truncate?`, `Draft.replaceFrom?`, `Draft.span?`
* `Draft.compile`: appends an expression compiled for a clause
* `Draft.inlined`: the text with the bound values written into it
-/

namespace QueryTree

/-- A statement under construction. -/
structure Draft where
  settings : Settings
  text : Text
  slate : Slate

namespace Draft

/-- A draft without any text. -/
def new (st : Settings) : Draft := ⟨st, [], .empty⟩

/-! ### Text -/

/-- The draft with `t` appended. -/
def write (d : Draft) (t : Text) : Draft := { d with text := d.text ++ t }

/-- The draft with `t` inserted at offset `i`; inserting nothing is possible anywhere. -/
def insertAt? (d : Draft) (i : Nat) (t : Text) : Option Draft :=
  if t.isEmpty then some d
  else if i ≤ d.text.length then some { d with text := d.text.take i ++ t ++ d.text.drop i }
  else none

/-- The draft with everything from offset `i` discarded. -/
def truncate? (d : Draft) (i : Nat) : Option Draft :=
  if i ≤ d.text.length then some { d with text := d.text.take i } else none

/-- The draft with everything from offset `i` replaced by `t`. -/
def replaceFrom? (d : Draft) (i : Nat) (t : Text) : Option Draft :=
  (d.truncate? i).map fun d => d.write t

/-- The text from offset `i`. -/
def span? (d : Draft) (i : Nat) : Option Text :=
  if i ≤ d.text.length then some (d.text.drop i) else none

/-- The draft without a trailing `t`, if it ends with one. -/
def trimSuffix (d : Draft) (t : Text) : Draft := { d with text := d.text.trimSuffix t }

/-! ### Values and aliases -/

/-- The bound values. -/
def args (d : Draft) : List Value := d.slate.params.map (·.value)

/-- Binds a value; the result is its placeholder. -/
def bindValue (d : Draft) (v : Value) (dataType : Text) : Text × Draft :=
  let (t, s) := d.slate.bindValue d.settings.profile v dataType
  (t, { d with slate := s })

/-- The alias of a table for a hint. -/
def aliasFor (d : Draft) (table hint : Text) : Text × Draft :=
  let (t, a) := d.slate.aliases.aliasFor table hint
  (t, { d with slate := { d.slate with aliases := a } })

/-- The alias of a row parameter of a table. -/
def bindParam (d : Draft) (p : Param) (table : Text) : Text × Draft :=
  let (t, a) := d.slate.aliases.bind p table
  (t, { d with slate := { d.slate with aliases := a } })

/-- The entity behind a row parameter and the alias of its columns. -/
def bindRow (d : Draft) (p : Param) : Except MappingError (Entity × Text) × Draft :=
  let (r, s) := d.slate.bindRow d.settings p
  (r, { d with slate := s })

/-- The text with the bound values written into it. -/
def inlined (d : Draft) : Attempt Empty Text :=
  Sql.interpolate d.settings.pre d.settings.dialect d.text d.args

/-! ### Compiling -/

/-- Runs an emitter and appends what it emits, or what it wrote until it stopped. -/
def run (d : Draft) (m : Emit Text) : Draft × Except (Stop CompileError) Unit :=
  match StateT.run (ExceptT.run m) d.slate with
  | (.ok t, s) => ({ d with text := d.text ++ t, slate := s }, .ok ())
  | (.error h, s) => ({ d with text := d.text ++ h.written, slate := s }, .error h.cause)

/-- What an expression that is given emits in a clause. -/
def emitted (st : Settings) (e : Expr) (clause : Clause) (directions : List Direction) :
    Emit Text :=
  let r := e.render st
  match clause with
  | .select => r.projection
  | .insert => do Emit.insertRows st (← Emit.ofAttempt (r.rows .insert (·.insertable)))
  | .update => do Emit.assignments st (← Emit.ofAttempt (r.rows .update (·.updatable)))
  | .where_ | .join | .having => r.condition clause
  | .in_ => r.members
  | .groupBy | .orderBy => do return (← r.listing clause directions).1
  | .max | .min | .avg | .sum | .count => Rendering.aggregate clause r
  | .unknown _ => Emit.fail (.unknownClause clause)

/-- The draft with all columns selected. -/
def selectAll (d : Draft) : Draft :=
  { d.write "*" with slate := { d.slate with fields := d.slate.fields ++ [("*" : Text)] } }

/-- What happens in a clause to an expression that is not given. -/
def compileHole (d : Draft) (clause : Clause) : Draft × Except (Stop CompileError) Unit :=
  match clause with
  | .select => (d.selectAll, .ok ())
  | .insert | .update => (d, .error (.error .noColumns))
  | .max | .min | .avg | .sum | .count =>
    d.run (Rendering.aggregate clause (.unsupported d.settings .hole))
  | _ => (d, .ok ())

/-- What is left to do once a clause has been emitted: lists lose their last separator, an empty
select list selects everything, and an update must write something. `start` is the length of the
draft before. -/
def finish (d : Draft) (clause : Clause) (start : Nat) : Draft × Except (Stop CompileError) Unit :=
  match clause with
  | .select =>
    let d := d.trimSuffix itemSeparator
    (if d.text.length = start then d.selectAll else d, .ok ())
  | .groupBy | .orderBy => (d.trimSuffix itemSeparator, .ok ())
  | .update =>
    let d := d.trimSuffix itemSeparator
    (d, if d.text.length = start then .error (.error .noColumns) else .ok ())
  | _ => (d, .ok ())

/-- Appends an expression compiled for a clause. The directions are those of the items of an order
list; items beyond them are ascending. -/
def compile (d : Draft) (e : Expr) (clause : Clause) (directions : List Direction) :
    Draft × Except (Stop CompileError) Unit :=
  if e.isHole then d.compileHole clause
  else match d.run (emitted d.settings e clause directions) with
    | (d', .ok ()) => d'.finish clause d.text.length
    | stopped => stopped

end Draft

end QueryTree
