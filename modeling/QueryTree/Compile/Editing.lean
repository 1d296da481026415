import QueryTree.Compile.Edit

/-!
# Compiling into a draft

The rules of all constructs as edits of a draft. They are those of the renderings that put texts
together, construct by construct, but every rule writes into the draft it is given, and what it
changes afterwards it finds by the offset at which it began.

## Main definitions

* `Editing`: what an expression writes in each position
* `Expr.editingWith`: the fold over the tree
* `Draft.edit`: compiles an expression into a draft
-/

namespace QueryTree

/-- What an expression writes into a draft in each position. -/
abbrev Editing := Rendering (Edit Unit) (Edit (List Direction))

namespace Editing

/-- An expression that no position takes. -/
def unsupported (st : Settings) (e : Expr) : Editing :=
  { expr := e
    value := Edit.unsupported e
    condition := Edit.unsupported e
    members := Edit.unsupported e .in_
    argument := Edit.unsupported e
    projection := Edit.unsupported e .select
    listing := fun clause _ => Edit.unsupported e clause
    row := fun _ writable => Rendering.rowsOfValue st e writable
    rows := Rendering.noRows e
    addends := [Edit.unsupported e] }

/-- The editing of a constant. -/
def constant (st : Settings) (v : Value) (t : Option Ty) : Editing :=
  { expr := .const v t
    value := fun _ => Edit.constantValue st v
    condition := Edit.constantCondition v
    members := Edit.constantMembers st v
    argument := Edit.constantArgument st v
    projection := Edit.constantProjection st v
    listing := Edit.constantListing v
    row := fun _ writable => Row.allOfValue st writable v
    rows := fun _ writable => Row.allOfValue st writable v
    addends := [fun _ => Edit.constantValue st v] }

/-! ### Columns and operators -/

/-- The editing of an expression that is one value. -/
def scalar (st : Settings) (e : Expr) (value condition : Clause → Edit Unit) (isTest : Bool)
    (addends : Option (List (Clause → Edit Unit))) : Editing :=
  let folded := fun clause => Edit.folding st e (Edit.constantValue st) (value clause)
  let test := fun clause =>
    Edit.folding st e (Edit.constantCondition · clause) (condition clause)
  { expr := e
    value := folded
    condition := test
    members := Edit.folding st e (Edit.constantMembers st) (Edit.unsupported e .in_)
    argument := fun clause =>
      if clause = .count && isTest then
        Edit.enclose "CASE WHEN " (Edit.stated (test clause)) " THEN 1 END"
      else folded clause
    projection := Edit.selectItem st (folded .select) []
    listing := fun clause ds => do
      let start ← Edit.length
      folded clause
      Edit.setPending []
      Edit.finishItem clause ds (← Edit.span start)
      return ds.tail
    row := fun _ writable => Rendering.rowsOfValue st e writable
    rows := Rendering.foldedRows st e (Rendering.noRows e)
    addends := addends.getD [folded] }

/-- The editing of a member. -/
def member (st : Settings) (e : Expr) (name : Text) (type owner : Option Ty) : Editing :=
  let whole := Expr.member e name type owner
  let truth := fun clause => do
    if !whole.isBool then Edit.fail (.construct .member clause)
    else
      Edit.columnOf st clause whole
      Edit.setPending []
      Edit.write st.profile.truthTest
  scalar st whole (fun clause => Edit.columnOf st clause whole) truth whole.isBool none

/-- Writes two conditions joined by a logical operator. -/
def logical (op : BinaryOp) (l r : Editing) (clause : Clause) : Edit Unit :=
  let leftTrue := l.expr.literalTruth? = some true
  let rightTrue := r.expr.literalTruth? = some true
  if op.isOr && (leftTrue || rightTrue) then pure ()
  else if !op.isOr && leftTrue then r.condition clause
  else
    Edit.joined (op.token?.getD [])
      (Edit.groupedCondition l.expr.needsParens (l.condition clause))
      (Edit.groupedCondition r.expr.needsParens (r.condition clause))

/-- Writes a condition or its complement, a joined one in parentheses. -/
def negatable (c : Editing) (isNegated : Bool) (clause : Clause) : Edit Unit :=
  Edit.negated isNegated (Edit.groupedCondition c.expr.isLogical (c.condition clause))

/-- Writes a comparison. A nil constant on the left changes sides. -/
def comparison (op : BinaryOp) (l r : Editing) (clause : Clause) : Edit Unit :=
  let plain :=
    let (l, r) := if l.expr.isNullConstant && !r.expr.isNullConstant then (r, l) else (l, r)
    Edit.compared op (Edit.grouped l.expr.needsParens (l.value clause))
      (Edit.grouped r.expr.needsParens (r.value clause))
  if op = .equal || op = .notEqual then
    match Rendering.truthComparison? l r with
    | some (c, literal) => negatable c ((op = .equal) != literal) clause
    | none => plain
  else plain

/-- Writes a binary operator as a condition. -/
def binaryCondition (op : BinaryOp) (l r : Editing) (clause : Clause) : Edit Unit :=
  if op.isLogical then logical op l r clause
  else if op.isComparison then comparison op l r clause
  else if op.token?.isNone then Edit.fail (.operator op.name clause)
  else Edit.fail (.construct .binary clause)

/-- Writes a binary operator as a value. The addends of a concatenation are taken out of the draft
and put together. -/
def binaryValue (st : Settings) (op : BinaryOp) (l r : Editing) (clause : Clause) : Edit Unit :=
  let isText := fun e : Expr => e.type?.any Ty.isString
  if !op.isArithmetic then Edit.truthCase (binaryCondition op l r clause)
  else if op = .add && (isText l.expr || isText r.expr) then do
    let parts ← Edit.takenAll ((l.addends ++ r.addends).map fun x => x clause)
    Edit.write (st.profile.concatAll parts)
  else match op.token? with
    | none => Edit.fail (.operator op.name clause)
    | some token =>
      Edit.join (Edit.grouped (l.expr.arithmeticParens op false) (l.value clause)) token
        (Edit.grouped (r.expr.arithmeticParens op true) (r.value clause))

/-- The editing of a binary operator. -/
def binary (st : Settings) (op : BinaryOp) (l r : Editing) : Editing :=
  scalar st (.binary op l.expr r.expr) (binaryValue st op l r) (binaryCondition op l r)
    (!op.isArithmetic) (if op = .add then some (l.addends ++ r.addends) else none)

/-- The editing of a unary operator that is no quote. -/
def unary (st : Settings) (op : UnaryOp) (e : Editing) (type : Option Ty) : Editing :=
  let refused := fun clause => Edit.fail (.operator op.name clause)
  let condition := fun clause => match op with
    | .not => negatable e true clause
    | .convert => e.condition clause
    | _ => refused clause
  let value := fun clause => match op with
    | .convert => e.value clause
    | .negate => do
      Edit.write "-"
      Edit.grouped e.expr.isBinary (e.value clause)
    | .not => Edit.truthCase (condition clause)
    | _ => refused clause
  scalar st (.unary op e.expr type) value condition (op = .not) none

/-- The editing of a conditional. A test without rows is decided at once. -/
def cond (st : Settings) (test a b : Editing) : Editing :=
  let decided := Edit.ofAttempt (test.expr.closedTruth? st.pre).widen
  let whole := Expr.cond test.expr a.expr b.expr
  let value := fun clause => do
    match ← decided with
    | some true => a.value clause
    | some false => b.value clause
    | none =>
      let cases := Edit.join (Edit.stated (test.condition clause)) " THEN "
        (Edit.join (a.value clause) " ELSE " (b.value clause))
      Edit.enclose "CASE WHEN " cases " END"
  let condition := fun clause => do
    match ← decided with
    | some true => a.condition clause
    | some false => b.condition clause
    | none => Edit.fail (.construct .conditional clause)
  scalar st whole value condition false none

/-! ### Method calls -/

/-- Writes a pattern test of `target`. What is written for the pattern is rewritten. -/
def likeTest (st : Settings) (isNegated : Bool) (pattern : Pattern) (target arg : Editing)
    (clause : Clause) : Edit Unit :=
  Edit.join (target.value clause) (if isNegated then " NOT LIKE " else " LIKE ")
    (Edit.rewritten (pattern.emit st.profile) (arg.value clause))

/-- Writes membership of `x` in `list`. -/
def membership (x list : Editing) (isNegated : Bool) (clause : Clause) : Edit Unit :=
  if list.expr.isEmptyList then
    Edit.write (if !isNegated then "1 = 0" else if clause.isCondition then [] else "1 = 1")
  else
    Edit.join (x.value clause) (if isNegated then " NOT IN " else " IN ")
      (if list.expr.isHole then Edit.fail (.missingArgument .in_) else list.members)

/-- Writes an aggregate function. Counting nothing counts rows. -/
def aggregate (c : Clause) (target : Editing) : Edit Unit :=
  let argument : Edit Unit :=
    if target.expr.isHole then
      if c = .count then Edit.write "*" else Edit.fail (.missingArgument c)
    else target.argument c
  Edit.enclose (c.function ++ "(") argument ")"

/-- Writes a method that has a rule. -/
def intrinsic (st : Settings) (target : Editing) (args : List Editing) (clause : Clause) :
    Intrinsic → Edit Unit
  | .like isNegated pattern =>
    match args with
    | arg :: _ => likeTest st isNegated pattern target arg clause
    | [] => Edit.fault
  | .membership isNegated =>
    match args with
    | list :: _ => membership target list isNegated clause
    | [] => Edit.fault
  | .contains =>
    match args with
    | arg :: _ =>
      if target.expr.type?.any Ty.isCollection then membership arg target false clause
      else likeTest st false .anywhere target arg clause
    | [] => Edit.fault
  | .isNullOrEmpty =>
    let tests := Edit.join (target.value clause) " IS NULL OR " (target.value clause)
    Edit.enclose "(" tests " = '')"
  | .equals =>
    match args with
    | arg :: _ => (binary st .equal target arg).condition clause
    | [] => Edit.fault
  | .function name => Edit.enclose (name ++ "(") (target.value clause) ")"
  | .trim => Edit.rewritten st.profile.trim (target.value clause)
  | .aggregate c => aggregate c target

/-- Writes a call as the constant it evaluates to. -/
def calledValue (st : Settings) (e : Expr) (method : Text) (clause : Clause)
    (constant : Value → Edit Unit) : Edit Unit := do
  match e.eval st.pre with
  | .ok v => constant v
  | .error (.error cause) => Edit.fail (.method method clause cause)
  | .error .fault => Edit.fault

/-- Writes a call that does not fold, as a condition or as a value. -/
def writeCall (st : Settings) (receiver : Editing) (method : Text) (args : List Editing)
    (type : Option Ty) (callee : Option Text) (c : Clause) (asCondition : Bool)
    (constant : Value → Edit Unit) : Edit Unit :=
  let (target, rest) := Rendering.operands receiver args
  match Rendering.rule? receiver method with
  | none =>
    calledValue st (.call receiver.expr method (args.map (·.expr)) type callee) method c constant
  | some i =>
    if (target.expr.isHole && !i.isAggregate) || rest.length < i.arity then
      Edit.fail (.methodArguments method i.arity)
    else if i.isCondition = asCondition then intrinsic st target rest c i
    else if i.isCondition then Edit.truthCase (intrinsic st target rest c i)
    else Edit.fail (.construct .call c)

/-- The editing of a call. -/
def call (st : Settings) (receiver : Editing) (method : Text) (args : List Editing)
    (type : Option Ty) (callee : Option Text) : Editing :=
  let whole := Expr.call receiver.expr method (args.map (·.expr)) type callee
  scalar st whole
    (fun c => writeCall st receiver method args type callee c false (Edit.constantValue st))
    (fun c => writeCall st receiver method args type callee c true (Edit.constantCondition · c))
    whole.isBool none

/-! ### Rows, shapes, lists and functions -/

/-- Writes all columns of a row as a select item. -/
def allColumns (st : Settings) (p : Param) : Edit Unit := do
  let (_, name) ← Edit.row st p
  let t : Text := if st.singleTable then "*" else st.ident name ++ ".*"
  Edit.write t
  Edit.addField t
  Edit.write itemSeparator

/-- The editing of a row parameter. -/
def param (st : Settings) (p : Param) : Editing :=
  { unsupported st (.param p) with
    argument := fun clause =>
      if clause = .count then Edit.write "*" else Edit.fail (.construct .parameter clause)
    projection := allColumns st p }

/-- Writes the members of a shape as select items. -/
def memberItems (st : Settings) (bindings : List (Text × Editing)) : Edit Unit :=
  Edit.concat (bindings.map fun (name, e) => match e.expr.unquote with
    | .param p => allColumns st p
    | _ => Edit.selectItem st (e.value .select) name)

/-- The editing of a shape or record constructor. -/
def shape (st : Settings) (whole : Expr) (type : Option Ty) (bindings : List (Text × Editing)) :
    Editing :=
  { unsupported st whole with
    projection := memberItems st bindings
    listing := fun clause => Edit.listings (bindings.map fun (_, e) => e.listing clause)
    row := Rendering.shapeRow st type bindings
    rows := Rendering.shapeRow st type bindings }

/-- Writes items as the list of a membership test. Each takes the pending declared type. -/
def memberList (items : List Editing) : Edit Unit := do
  match items with
  | [] => Edit.write "(NULL)"
  | items =>
    let t ← Edit.pending
    Edit.write "("
    Edit.concat (items.map fun e => do
      Edit.setPending t
      e.value .in_
      Edit.write ",")
    Edit.setPending []
    Edit.trimSuffix ","
    Edit.write ")"

/-- The editing of a list or array of items. An update takes no list of rows. -/
def items (st : Settings) (whole : Expr) (items : List Editing) : Editing :=
  { unsupported st whole with
    members := memberList items
    projection := Edit.concat (items.map (·.projection))
    listing := fun clause => Edit.listings (items.map fun e => e.listing clause)
    rows := fun clause writable =>
      if clause = .insert then do
        return (← items.mapM fun e => e.row clause writable).flatten
      else Rendering.noRows whole clause writable }

/-- Writes by the editing of an inlined body, if there is one. -/
def inlined {α : Type} (body : Unit → Except Expr.InlineError Editing) (f : Editing → Edit α) :
    Edit α :=
  match body () with
  | .ok x => f x
  | .error e => Edit.fail (.invocation e)

/-- The editing of an invocation. -/
def invocation (st : Settings) (whole : Expr) (body : Unit → Except Expr.InlineError Editing) :
    Editing :=
  let value := fun clause => inlined body (·.value clause)
  { expr := whole
    value := value
    condition := fun clause => inlined body (·.condition clause)
    members := inlined body (·.members)
    argument := fun clause => inlined body (·.argument clause)
    projection := inlined body (·.projection)
    listing := fun clause ds => inlined body (·.listing clause ds)
    row := fun _ writable => Rendering.rowsOfValue st whole writable
    rows := fun clause writable => match body () with
      | .ok x => x.rows clause writable
      | .error e => .fail (.invocation e)
    addends := [value] }

end Editing

/-! ### Trees -/

namespace Expr

mutual

/-- The editing of an expression, where `inlined` edits for the bodies of inlined invocations. -/
def editingWith (st : Settings) (inlined : Expr → Editing) : Expr → Editing
  | hole => .unsupported st hole
  | const v t => .constant st v t
  | param p => .param st p
  | member e name t owner => .member st e name t owner
  | binary op l r => .binary st op (editingWith st inlined l) (editingWith st inlined r)
  | unary .quote e t => Rendering.quoted st (editingWith st inlined e) t
  | unary op e t => .unary st op (editingWith st inlined e) t
  | call e method args t f =>
    .call st (editingWith st inlined e) method (editingAll st inlined args) t f
  | new t bs => .shape st (new t bs) t (editingBindings st inlined bs)
  | init t bs => .shape st (init t bs) t (editingBindings st inlined bs)
  | list t es => .items st (list t es) (editingAll st inlined es)
  | array t es => .items st (array t es) (editingAll st inlined es)
  | lambda body ps => Rendering.lambda st (editingWith st inlined body) ps
  | invoke target args =>
    .invocation st (invoke target args) fun _ => (inline target args).map inlined
  | cond c a b =>
    .cond st (editingWith st inlined c) (editingWith st inlined a) (editingWith st inlined b)

/-- The editings of a list of expressions. -/
def editingAll (st : Settings) (inlined : Expr → Editing) : List Expr → List Editing
  | [] => []
  | e :: es => editingWith st inlined e :: editingAll st inlined es

/-- The editings of a list of bindings. -/
def editingBindings (st : Settings) (inlined : Expr → Editing) :
    List (Text × Expr) → List (Text × Editing)
  | [] => []
  | (name, e) :: bs => (name, editingWith st inlined e) :: editingBindings st inlined bs

end

/-- The editing of an expression with at most `depth` nested inlinings. -/
def editingTo (st : Settings) : (depth : Nat) → Expr → Editing
  | 0, _ => .unsupported st hole
  | depth + 1, e => e.editingWith st (editingTo st depth)

/-- The editing of an expression. -/
def editing (st : Settings) (e : Expr) : Editing := e.editingTo st inlineDepth

end Expr

/-! ### Clauses -/

namespace Edit

/-- Writes and records the selection of all columns. -/
def selectAll : Edit Unit := do
  write "*"
  addField "*"

/-- Writes nothing that is given in a clause. -/
def missing (st : Settings) (clause : Clause) : Edit Unit :=
  match clause with
  | .select => selectAll
  | .insert | .update => fail .noColumns
  | .max | .min | .avg | .sum | .count => Editing.aggregate clause (.unsupported st .hole)
  | _ => return ()

/-- Writes what is given in a clause. -/
def clause (st : Settings) (e : Expr) (clause : Clause) (directions : List Direction) :
    Edit Unit := do
  let x := e.editing st
  match clause with
  | .select => x.projection
  | .insert => insertRows st (← ofAttempt (x.rows .insert (·.insertable)))
  | .update => assignments st (← ofAttempt (x.rows .update (·.updatable)))
  | .where_ | .join | .having => x.condition clause
  | .in_ => x.members
  | .groupBy | .orderBy => let _ ← x.listing clause directions
  | .max | .min | .avg | .sum | .count => Editing.aggregate clause x
  | .unknown _ => fail (.unknownClause clause)

/-- What is left to do once a clause has been written that begins at `start`. -/
def finish (clause : Clause) (start : Nat) : Edit Unit := do
  match clause with
  | .select =>
    trimSuffix itemSeparator
    if (← length) = start then selectAll
  | .groupBy | .orderBy => trimSuffix itemSeparator
  | .update =>
    trimSuffix itemSeparator
    if (← length) = start then fail .noColumns
  | _ => return ()

/-- Compiles an expression for a clause. -/
def compile (st : Settings) (e : Expr) (c : Clause) (directions : List Direction) :
    Edit Unit := do
  let start ← length
  if e.isHole then missing st c
  else
    clause st e c directions
    finish c start

end Edit

/-- The draft after an expression has been compiled into it in place. -/
def Draft.edit (d : Draft) (e : Expr) (clause : Clause) (directions : List Direction) :
    Draft × Except (Stop CompileError) Unit :=
  (Stateful.result (Edit.compile d.settings e clause directions) d).swap

end QueryTree
