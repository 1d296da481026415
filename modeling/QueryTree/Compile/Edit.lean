import QueryTree.Compile.Draft
import QueryTree.Stateful

/-!
# Editing drafts

A draft can be written from front to back, each construct adding its text to what is there. What is
known only later is put in afterwards: an operator is inserted in front of its right operand, a
column list in front of the rows, and the text of a negated condition is replaced. For this the
offset at which something begins is looked up before it is written.

The computations here edit a draft in that way. They are the counterparts of the emitters, which put
the same texts together without a draft. What has been edited when a computation stops stays so.

## Main definitions

* `Edit`: computations that edit a draft
* `Edit.write`, `Edit.insertAt`, `Edit.truncate`, `Edit.replaceFrom`, `Edit.span`,
  `Edit.trimSuffix`: edits of the text
* `Edit.joined`, `Edit.negated`, `Edit.compared`: conditions
* `Edit.insertRows`, `Edit.assignments`: rows
-/

namespace QueryTree

/-- A computation that edits a draft. -/
abbrev Edit (α : Type) := Stateful (Stop CompileError) Draft α

namespace Edit

variable {α : Type}

/-- Stops with an error. -/
def fail (e : CompileError) : Edit α := throw (.error e)

/-- Stops with a fault. -/
def fault : Edit α := throw .fault

/-- The result of an attempt. -/
def ofAttempt : Attempt CompileError α → Edit α
  | .ok a => pure a
  | .error cause => throw cause

/-- The result of a computation that may fail. -/
def ofExcept : Except CompileError α → Edit α
  | .ok a => pure a
  | .error e => fail e

/-- Refuses an expression of a kind in a clause. -/
def unsupported (e : Expr) (clause : Clause) : Edit α :=
  match e.kind? with
  | some k => fail (.construct k clause)
  | none => fault

/-! ### Text -/

/-- The length of the text, at which the next text begins. -/
def length : Edit Nat := do return (← get).text.length

/-- Appends `t`. -/
def write (t : Text) : Edit Unit := modify (·.write t)

/-- An edit at an offset, which faults if the text does not reach that far. -/
def at? (f : Draft → Option Draft) : Edit Unit := do
  match f (← get) with
  | some d => set d
  | none => fault

/-- Inserts `t` at offset `i`. -/
def insertAt (i : Nat) (t : Text) : Edit Unit := at? (·.insertAt? i t)

/-- Discards everything from offset `i`. -/
def truncate (i : Nat) : Edit Unit := at? (·.truncate? i)

/-- Replaces everything from offset `i` by `t`. -/
def replaceFrom (i : Nat) (t : Text) : Edit Unit := at? (·.replaceFrom? i t)

/-- The text from offset `i`. -/
def span (i : Nat) : Edit Text := do
  match (← get).span? i with
  | some t => return t
  | none => fault

/-- Cuts off a trailing `t`. -/
def trimSuffix (t : Text) : Edit Unit := modify (·.trimSuffix t)

/-! ### Bound values, items and aliases -/

/-- A step of the compilation's state. -/
def onSlate (f : Slate → α × Slate) : Edit α :=
  modifyGet fun d => ((f d.slate).1, { d with slate := (f d.slate).2 })

/-- Sets the declared type that the next bound value takes. -/
def setPending (t : Text) : Edit Unit := onSlate fun s => ((), { s with pendingType := t })

/-- The declared type that the next bound value takes. -/
def pending : Edit Text := do return (← get).slate.pendingType

/-- Records a select item. -/
def addField (t : Text) : Edit Unit := onSlate fun s => ((), { s with fields := s.fields ++ [t] })

/-- Binds a value and writes its placeholder. -/
def placeholder (st : Settings) (v : Value) (dataType : Text) : Edit Unit := do
  write (← onSlate (·.bindValue st.profile v dataType))

/-- The entity behind a row parameter and the alias of its columns. -/
def row (st : Settings) (p : Param) : Edit (Entity × Text) := do
  let r ← onSlate (·.bindRow st p)
  ofExcept (r.mapError .mapping)

/-- The column of a member of a row, qualified by its alias. -/
def column (st : Settings) (p : Param) (member : Text) : Edit (Text × Column) := do
  let (e, name) ← row st p
  match e.column? member with
  | none => fail (.mapping (.noColumn (some e.type) member))
  | some c =>
    if st.singleTable then return (st.ident c.name, c)
    else return (st.ident name ++ "." ++ st.ident c.name, c)

/-! ### Texts put together -/

/-- Writes `before`, then what `x` writes, then `behind`. -/
def enclose (before : Text) (x : Edit Unit) (behind : Text) : Edit Unit := do
  write before
  x
  write behind

/-- Writes what two edits write, with `between` between them. -/
def join (x : Edit Unit) (between : Text) (y : Edit Unit) : Edit Unit := do
  x
  write between
  y

/-- Makes edits in order. -/
def concat : List (Edit Unit) → Edit Unit
  | [] => pure ()
  | x :: xs => do
    x
    concat xs

/-- Writes texts with a separator between neighbours. Every text is followed by the separator, and
the last one is cut off. -/
def separated (separator : Text) (xs : List (Edit Unit)) : Edit Unit := do
  concat (xs.map fun x => do
    x
    write separator)
  trimSuffix separator

/-- Replaces what `x` writes by what `f` makes of it. -/
def rewritten (f : Text → Text) (x : Edit Unit) : Edit Unit := do
  let start ← length
  x
  replaceFrom start (f (← span start))

/-- Takes what `x` writes out of the draft. -/
def taken (x : Edit Unit) : Edit Text := do
  let start ← length
  x
  let t ← span start
  truncate start
  return t

/-- Takes what each edit of a list writes out of the draft. -/
def takenAll : List (Edit Unit) → Edit (List Text)
  | [] => return []
  | x :: xs => do
    let t ← taken x
    return t :: (← takenAll xs)

/-! ### Conditions -/

/-- Writes a value, in parentheses if asked for. -/
def grouped (parens : Bool) (x : Edit Unit) : Edit Unit :=
  if parens then enclose "(" x ")" else x

/-- Writes a condition, in parentheses if asked for. An opening parenthesis that nothing follows is
discarded. -/
def groupedCondition (parens : Bool) (x : Edit Unit) : Edit Unit :=
  if parens then do
    let start ← length
    write "("
    x
    if (← length) = start + 1 then truncate start else write ")"
  else x

/-- Writes two conditions and inserts a token between them, unless one of them writes nothing. -/
def joined (token : Text) (x y : Edit Unit) : Edit Unit := do
  let start ← length
  x
  let middle ← length
  y
  if middle = start || (← length) = middle then return ()
  else insertAt middle token

/-- Writes a condition, and replaces it by its complement if asked for. -/
def negated (isNegated : Bool) (x : Edit Unit) : Edit Unit := do
  let start ← length
  x
  if !isNegated then return ()
  else if (← length) = start then write "1 = 0"
  else replaceFrom start (Sql.negate (← span start))

/-- Writes two values and inserts the token of a comparison between them. Comparing with null tests
for it. -/
def compared (op : BinaryOp) (x y : Edit Unit) : Edit Unit := do
  x
  let middle ← length
  y
  setPending []
  let right ← span middle
  let token : Text :=
    if right = ("NULL" : Text) && op = .equal then " IS "
    else if right = ("NULL" : Text) && op = .notEqual then " IS NOT "
    else op.token?.getD []
  insertAt middle token

/-- Writes a condition that always has a text. -/
def stated (x : Edit Unit) : Edit Unit := do
  let start ← length
  x
  if (← length) = start then write "1 = 1"

/-- Writes a condition as the value one or zero. -/
def truthCase (x : Edit Unit) : Edit Unit := enclose "CASE WHEN " (stated x) " THEN 1 ELSE 0 END"

/-- Writes the column of a member of a row, or the length of such a column when it is a text. -/
def columnOf (st : Settings) (clause : Clause) : Expr → Edit Unit
  | .member (.param p) name _ _ => do
    let (t, c) ← column st p name
    write t
    setPending c.dataType
  | .member (.member e n t o) name _ _ =>
    if name = lengthMember && t.any Ty.isString then do
      enclose (st.profile.lengthFunction ++ "(") (columnOf st clause (.member e n t o)) ")"
      setPending []
    else fail (.construct .member clause)
  | e => unsupported e clause

/-! ### Constants -/

/-- Goes by the rule for constants if the expression folds to one, else by its own rule. -/
def folding (st : Settings) (e : Expr) (constant : Value → Edit α) (own : Edit α) : Edit α := do
  match ← ofAttempt (e.folded? st.pre).widen with
  | some v => constant v
  | none => own

/-- Writes a constant as a value. -/
def constantValue (st : Settings) (v : Value) : Edit Unit :=
  if v.isNil then write "NULL" else placeholder st v []

/-- Writes a constant as a condition: nothing when it is true. -/
def constantCondition (v : Value) (clause : Clause) : Edit Unit :=
  match v with
  | .bool true => return ()
  | .bool false => write "1 = 0"
  | _ => fail (.construct .constant clause)

/-- Writes the placeholders of values of one declared type, with commas between them. -/
def placeholders (st : Settings) (dataType : Text) : List Value → Edit Unit
  | [] => return ()
  | [v] => placeholder st v dataType
  | v :: vs => join (placeholder st v dataType) "," (placeholders st dataType vs)

/-- Writes a constant as the list of a membership test. -/
def constantMembers (st : Settings) (v : Value) : Edit Unit := do
  if v.isNil then write "(NULL)"
  else if v.type?.any Ty.isCollection then
    match v.deref.items? with
    | none => fault
    | some [] => write "(NULL)"
    | some items => enclose "(" (placeholders st (← pending) items) ")"
  else enclose "(" (placeholder st v []) ")"

/-- Writes a constant as the argument of an aggregate function: a text names one column, and nil
counts rows. -/
def constantArgument (st : Settings) (v : Value) (clause : Clause) : Edit Unit := do
  if v.isNil then
    if clause = .count then write "*" else fail (.construct .constant clause)
  else match v with
    | .string t =>
      match ← ofExcept (Raw.items t false) with
      | [item] => write item
      | _ => fail (.construct .constant clause)
    | v => constantValue st v

/-! ### Items of lists -/

/-- Writes one select item: the value, and its name unless the value is a column of that name. -/
def selectItem (st : Settings) (value : Edit Unit) (name : Text) : Edit Unit := do
  let start ← length
  value
  setPending []
  let t ← span start
  if !name.isEmpty && Emit.selectItem.bareColumn t ≠ name then
    write (" AS " ++ st.ident name)
  addField (← span start)
  write itemSeparator

/-- Records and writes select items as they are. -/
def rawFields (items : List Text) : Edit Unit :=
  concat (items.map fun t => do
    write t
    addField t
    write itemSeparator)

/-- Writes a constant as a select list: a text is a raw list. -/
def constantProjection (st : Settings) (v : Value) : Edit Unit := do
  match v with
  | .string t => rawFields (← ofExcept (Raw.items t false))
  | v => selectItem st (constantValue st v) []

/-- Writes what stands behind an item of a group or order list: its direction, unless the item has
one of its own, and the separator. -/
def finishItem (clause : Clause) (ds : List Direction) (t : Text) : Edit Unit := do
  if clause = .orderBy && !Emit.hasDirection t then
    write (" " ++ (ds.headD .asc).keyword)
  write itemSeparator

/-- Writes the items of a raw group or order list. The result is the directions that are left. -/
def rawListing (clause : Clause) : List Direction → List Text → Edit (List Direction)
  | ds, [] => return ds
  | ds, t :: ts => do
    write t
    finishItem clause ds t
    rawListing clause ds.tail ts

/-- Writes group or order lists one after the other. -/
def listings : List (List Direction → Edit (List Direction)) → List Direction →
    Edit (List Direction)
  | [], ds => return ds
  | x :: xs, ds => do listings xs (← x ds)

/-- Writes a raw group or order list. -/
def rawList (clause : Clause) (t : Text) (ds : List Direction) : Edit (List Direction) := do
  rawListing clause ds (← ofExcept (Raw.items t (clause = .orderBy)))

/-- Writes a constant as a group or order list: a text or texts that are raw lists. -/
def constantListing (v : Value) (clause : Clause) (ds : List Direction) : Edit (List Direction) :=
  match v with
  | .string t => rawList clause t ds
  | .nilSlice .string => return ds
  | .slice .string items =>
    listings (items.map fun v => match v with
      | .string t => rawList clause t
      | _ => fun _ => fault) ds
  | _ => fail (.construct .constant clause)

/-! ### Rows -/

/-- Writes the content of a column. -/
def content (st : Settings) (c : Column) : Content (Edit Unit) → Edit Unit
  | .value v => placeholder st v c.dataType
  | .computed x => do
    setPending c.dataType
    tryCatch x fun cause => do
      if let .error _ := cause then setPending []
      throw cause
    setPending []

/-- Writes the contents of one row for the columns. -/
def rowContents (st : Settings) (cols : List Column) (r : Row (Edit Unit)) : Edit Unit :=
  separated "," (cols.map fun c => match r.content? c with
    | none => write "NULL"
    | some x => content st c x)

/-- Writes the rows of an insert, and inserts the column list in front of them. -/
def insertRows (st : Settings) (rows : List (Row (Edit Unit))) : Edit Unit := do
  match rows with
  | [] => fail .noColumns
  | first :: _ =>
    match rows.find? fun r => r.entity.type ≠ first.entity.type with
    | some r => fail (.mixedRows first.entity.type r.entity.type)
    | none =>
      let cols := Emit.columnsOfRows rows
      if cols.isEmpty then fail .noColumns
      else
        let names := Text.join "," (cols.map fun c => st.ident c.name)
        let start ← length
        match st.profile.insert with
        | .values =>
          separated "," (rows.map fun r => enclose "(" (rowContents st cols r) ")")
          insertAt start ("(" ++ names ++ ") VALUES ")
        | .selectDual =>
          separated " UNION ALL "
            (rows.map fun r => enclose "SELECT " (rowContents st cols r) " FROM DUAL")
          insertAt start ("(" ++ names ++ ") ")

/-- Writes the assignments of an update, each followed by a separator. -/
def assignments (st : Settings) (rows : List (Row (Edit Unit))) : Edit Unit :=
  match rows with
  | [r] =>
    concat (r.cells.map fun cell => do
      write (st.ident cell.column.name ++ " = ")
      content st cell.column cell.content
      write itemSeparator)
  | rows => fail (.oneRow rows.length)

end Edit

end QueryTree
