import QueryTree.Compile.Constant
import QueryTree.Sql.Negation

/-!
# Columns and operators

The rules for members of rows, operators and conditionals, as values and as conditions.

Values are grouped by the usual precedence of arithmetic. Conditions are joined by `AND` and `OR`;
an operand that emits nothing always holds and takes its operator with it. An operand is put in
parentheses when both of its own operands are operators or calls that yield truth values. A
condition compared with a truth literal is kept or negated, and a value compared with null is
tested by `IS`.

## Main definitions

* `Rendering.scalar`: an expression that is one value, by its two rules
* `Rendering.member`, `Rendering.binary`, `Rendering.unary`, `Rendering.cond`
* `Expr.needsParens`, `Expr.arithmeticParens`: the grouping rules
* `Expr.literalTruth?`, `Expr.isCondition`: truth literals, and what compiles as a condition
-/

namespace QueryTree

namespace Expr

/-! ### Shapes -/

/-- Whether the expression is a binary operator. -/
def isBinary : Expr → Bool
  | binary .. => true
  | _ => false

/-- Whether the expression is joined from two truth values. -/
def isLogical : Expr → Bool
  | binary op _ _ => op.isLogical
  | _ => false

/-- Whether the expression is a binary operator or a call that yields a truth value. -/
def isCompound (e : Expr) : Bool :=
  match e with
  | binary .. => true
  | call .. => e.isBool
  | _ => false

/-- Whether an operand of a condition is put in parentheses. -/
def needsParens : Expr → Bool
  | binary _ l r => l.isCompound && r.isCompound
  | _ => false

/-- How tightly an arithmetic operator binds. -/
def precedence : BinaryOp → Nat
  | .multiply | .divide | .modulo => 2
  | .add | .subtract => 1
  | _ => 0

/-- Whether an operand of an arithmetic operator is put in parentheses: when it binds less
tightly, and on the right also when it binds equally. -/
def arithmeticParens (op : BinaryOp) (operand : Expr) (right : Bool) : Bool :=
  match operand with
  | binary inner _ _ =>
    inner.isArithmetic
      && (precedence inner < precedence op || (right && precedence inner = precedence op))
  | _ => false

/-- The truth of a number: whether it is not zero. -/
def numberTruth? (v : Value) : Option Bool :=
  match v.under with
  | .int _ n => some (n ≠ 0)
  | .float _ x => some (x.bits <<< 1 ≠ 0)
  | _ => none

/-- The value of a truth literal, also behind conversions; a converted number counts as one. -/
def literalTruth? : Expr → Option Bool
  | const v _ => v.truth
  | unary .convert (const v _) _ => v.truth <|> numberTruth? v
  | unary .convert e _ => e.literalTruth?
  | _ => none

/-- Whether an expression compiles as a condition; `whole` is the expression with its quotes. -/
def isConditionOf (whole : Expr) : Expr → Bool
  | unary .quote e _ => isConditionOf whole e
  | binary op _ _ => op.isLogical || op.isComparison
  | unary .not _ _ => true
  | unary .convert e _ => isConditionOf e e
  | unary .. => false
  | const .. => false
  | _ => whole.isBool

/-- Whether an expression compiles as a condition. -/
def isCondition (e : Expr) : Bool := isConditionOf e e

/-- Whether the expression is a nil constant. -/
def isNullConstant : Expr → Bool
  | const v _ => v.isNil
  | _ => false

end Expr

/-- The token of a binary operator. -/
def BinaryOp.token? : BinaryOp → Option Text
  | and | andAlso => some " AND "
  | or | orElse => some " OR "
  | equal => some " = "
  | notEqual => some " <> "
  | greaterThan => some " > "
  | greaterThanOrEqual => some " >= "
  | lessThan => some " < "
  | lessThanOrEqual => some " <= "
  | add => some " + "
  | subtract => some " - "
  | multiply => some " * "
  | divide => some " / "
  | modulo => some " % "
  | _ => none

namespace Emit

/-! ### Columns -/

/-- Emits the column of a member of a row, or the length of such a column when it is a text. -/
def columnOf (st : Settings) (clause : Clause) : Expr → Emit Text
  | .member (.param p) name _ _ => do
    let (t, c) ← column st p name
    setPending c.dataType
    return t
  | .member (.member e n t o) name _ _ =>
    if name = lengthMember && t.any Ty.isString then do
      let column := columnOf st clause (.member e n t o)
      let text ← enclose (st.profile.lengthFunction ++ "(") column ")"
      setPending []
      return text
    else fail (.construct .member clause)
  | e => unsupported e clause

/-! ### Grouping -/

/-- Emits a value, in parentheses if asked for. -/
def grouped (parens : Bool) (m : Emit Text) : Emit Text := if parens then enclose "(" m ")" else m

/-- Emits a condition, in parentheses if asked for; no parentheses are put around nothing. -/
def groupedCondition (parens : Bool) (m : Emit Text) : Emit Text :=
  if parens then do
    let t ← after "(" m
    return if t.isEmpty then [] else "(" ++ t ++ ")"
  else m

/-! ### Conditions -/

/-- Emits two conditions joined by a token, or the one that emits anything. -/
def joined (token : Text) (l r : Emit Text) : Emit Text := do
  let a ← l
  let b ← after a r
  return if a.isEmpty || b.isEmpty then a ++ b else a ++ token ++ b

/-- Emits a condition, or its complement if asked for. -/
def negated (isNegated : Bool) (m : Emit Text) : Emit Text := do
  let t ← m
  return if !isNegated then t else if t.isEmpty then "1 = 0" else Sql.negate t

/-- Emits a comparison of two values. Comparing with null tests for it. -/
def compared (op : BinaryOp) (l r : Emit Text) : Emit Text := do
  let a ← l
  let b ← after a r
  setPending []
  let token : Text :=
    if b = ("NULL" : Text) && op = .equal then " IS "
    else if b = ("NULL" : Text) && op = .notEqual then " IS NOT "
    else op.token?.getD []
  return a ++ token ++ b

end Emit

namespace Rendering

/-- The rendering of an expression that is one value: `value` and `condition` are its rules when
it does not fold, `isTest` says whether counting it counts the rows that satisfy it, and `addends`
are its operands if it is an addition. -/
def scalar (st : Settings) (e : Expr) (value condition : Clause → Emit Text) (isTest : Bool)
    (addends : Option (List (Clause → Emit Text))) : Rendering :=
  let folded := fun clause => Emit.folding st e (Emit.constantValue st) (value clause)
  let test := fun clause =>
    Emit.folding st e (Emit.constantCondition · clause) (condition clause)
  { expr := e
    value := folded
    condition := test
    members := Emit.folding st e (Emit.constantMembers st) (Emit.unsupported e .in_)
    argument := fun clause =>
      if clause = .count && isTest then
        Emit.enclose "CASE WHEN " (Emit.stated (test clause)) " THEN 1 END"
      else folded clause
    projection := Emit.selectItem st (folded .select) []
    listing := fun clause ds => do
      let t ← folded clause
      Emit.setPending []
      return (Emit.listItem clause ds t, ds.tail)
    row := fun _ writable => rowsOfValue st e writable
    rows := foldedRows st e (noRows e)
    addends := addends.getD [folded] }

/-- The rendering of a member. -/
def member (st : Settings) (e : Expr) (name : Text) (type owner : Option Ty) : Rendering :=
  let whole := Expr.member e name type owner
  let truth := fun clause => do
    if !whole.isBool then Emit.fail (.construct .member clause)
    else
      let t ← Emit.columnOf st clause whole
      Emit.setPending []
      return t ++ st.profile.truthTest
  scalar st whole (fun clause => Emit.columnOf st clause whole) truth whole.isBool none

/-- Emits two conditions joined by a logical operator. A disjunction with a true literal holds
without a text, and a true literal on the left of a conjunction is left out. -/
def logical (op : BinaryOp) (l r : Rendering) (clause : Clause) : Emit Text :=
  let leftTrue := l.expr.literalTruth? = some true
  let rightTrue := r.expr.literalTruth? = some true
  if op.isOr && (leftTrue || rightTrue) then pure []
  else if !op.isOr && leftTrue then r.condition clause
  else
    Emit.joined (op.token?.getD [])
      (Emit.groupedCondition l.expr.needsParens (l.condition clause))
      (Emit.groupedCondition r.expr.needsParens (r.condition clause))

/-- Emits a condition or its complement, a joined one in parentheses. -/
def negatable (c : Rendering) (isNegated : Bool) (clause : Clause) : Emit Text :=
  Emit.negated isNegated (Emit.groupedCondition c.expr.isLogical (c.condition clause))

/-- The condition and the truth literal that an equality compares, if it does. -/
def truthComparison? {μ ν : Type} (l r : Rendering μ ν) : Option (Rendering μ ν × Bool) :=
  match r.expr.literalTruth?, l.expr.literalTruth? with
  | some v, some w =>
    if l.expr.isCondition then some (l, v) else if r.expr.isCondition then some (r, w) else none
  | some v, none => if l.expr.isCondition then some (l, v) else none
  | none, some w => if r.expr.isCondition then some (r, w) else none
  | none, none => none

/-- Emits a comparison. A nil constant on the left changes sides. -/
def comparison (op : BinaryOp) (l r : Rendering) (clause : Clause) : Emit Text :=
  let plain :=
    let (l, r) := if l.expr.isNullConstant && !r.expr.isNullConstant then (r, l) else (l, r)
    Emit.compared op (Emit.grouped l.expr.needsParens (l.value clause))
      (Emit.grouped r.expr.needsParens (r.value clause))
  if op = .equal || op = .notEqual then
    match truthComparison? l r with
    | some (c, literal) => c.negatable ((op = .equal) != literal) clause
    | none => plain
  else plain

/-- Emits a binary operator as a condition. -/
def binaryCondition (op : BinaryOp) (l r : Rendering) (clause : Clause) : Emit Text :=
  if op.isLogical then logical op l r clause
  else if op.isComparison then comparison op l r clause
  else if op.token?.isNone then Emit.fail (.operator op.name clause)
  else Emit.fail (.construct .binary clause)

/-- Emits a binary operator as a value. An addition with a text is a concatenation of all its
addends. -/
def binaryValue (st : Settings) (op : BinaryOp) (l r : Rendering) (clause : Clause) : Emit Text :=
  let isText := fun e : Expr => e.type?.any Ty.isString
  if !op.isArithmetic then Emit.truthCase (binaryCondition op l r clause)
  else if op = .add && (isText l.expr || isText r.expr) then do
    return st.profile.concatAll (← (l.addends ++ r.addends).mapM fun m => m clause)
  else match op.token? with
    | none => Emit.fail (.operator op.name clause)
    | some token =>
      Emit.join (Emit.grouped (l.expr.arithmeticParens op false) (l.value clause)) token
        (Emit.grouped (r.expr.arithmeticParens op true) (r.value clause))

/-- The rendering of a binary operator. -/
def binary (st : Settings) (op : BinaryOp) (l r : Rendering) : Rendering :=
  scalar st (.binary op l.expr r.expr) (binaryValue st op l r) (binaryCondition op l r)
    (!op.isArithmetic) (if op = .add then some (l.addends ++ r.addends) else none)

/-- The rendering of a quoted expression: that of the expression itself, but its shape stays
hidden. -/
def quoted {μ ν : Type} (st : Settings) (e : Rendering μ ν) (type : Option Ty) : Rendering μ ν :=
  let whole := Expr.unary .quote e.expr type
  let isLiteral := match e.expr.unquote with
    | .new .. | .init .. | .const .. => true
    | _ => false
  { e with
    expr := whole
    row := fun clause writable =>
      if isLiteral then e.row clause writable else rowsOfValue st whole writable
    addends := [e.value] }

/-- The rendering of a unary operator that is no quote. -/
def unary (st : Settings) (op : UnaryOp) (e : Rendering) (type : Option Ty) : Rendering :=
  let refused := fun clause => Emit.fail (.operator op.name clause)
  let condition := fun clause => match op with
    | .not => e.negatable true clause
    | .convert => e.condition clause
    | _ => refused clause
  let value := fun clause => match op with
    | .convert => e.value clause
    | .negate => do
      return "-" ++ (← Emit.after "-" (Emit.grouped e.expr.isBinary (e.value clause)))
    | .not => Emit.truthCase (condition clause)
    | _ => refused clause
  scalar st (.unary op e.expr type) value condition (op = .not) none

/-- The rendering of a conditional. A test without rows is decided at once. -/
def cond (st : Settings) (test a b : Rendering) : Rendering :=
  let decided := Emit.ofAttempt (test.expr.closedTruth? st.pre).widen
  let whole := Expr.cond test.expr a.expr b.expr
  let value := fun clause => do
    match ← decided with
    | some true => a.value clause
    | some false => b.value clause
    | none =>
      let cases := Emit.join (Emit.stated (test.condition clause)) " THEN "
        (Emit.join (a.value clause) " ELSE " (b.value clause))
      Emit.enclose "CASE WHEN " cases " END"
  let condition := fun clause => do
    match ← decided with
    | some true => a.condition clause
    | some false => b.condition clause
    | none => Emit.fail (.construct .conditional clause)
  scalar st whole value condition false none

end Rendering

end QueryTree
