import QueryTree.Compile.Scalar

/-!
# Method calls

The methods that have a rule in SQL: pattern tests, membership, case and trimming of texts, and
the aggregate functions. The first argument of a static call is its target. Every other call is
bound as the value it evaluates to.

## Main definitions

* `Intrinsic`, `Intrinsic.ofName?`: the methods with a rule
* `Rendering.membership`: membership in a list
* `Rendering.aggregate`: an aggregate function
* `Rendering.call`
-/

namespace QueryTree

/-- A pattern of which a text is a part. -/
inductive Pattern where
  | anywhere | start | finish
  deriving DecidableEq, Repr

/-- The pattern of a rendered text. -/
def Pattern.emit (p : Profile) : Pattern → Text → Text
  | anywhere, t => p.likeContains t
  | start, t => p.likeStartsWith t
  | finish, t => p.likeEndsWith t

/-- A method that has a rule in SQL. -/
inductive Intrinsic where
  | like (isNegated : Bool) (pattern : Pattern)
  | membership (isNegated : Bool)
  | contains
  | isNullOrEmpty
  | equals
  /-- A function of one argument. -/
  | function (name : Text)
  | trim
  | aggregate (clause : Clause)
  deriving DecidableEq, Repr

namespace Intrinsic

/-- The methods with a rule, by name. -/
def table : List (Text × Intrinsic) :=
  [("Like", like false .anywhere), ("LikeLeft", like false .finish),
    ("LikeRight", like false .start), ("NotLike", like true .anywhere),
    ("StartsWith", like false .start), ("HasPrefix", like false .start),
    ("EndsWith", like false .finish), ("HasSuffix", like false .finish),
    ("In", membership false), ("NotIn", membership true), ("Contains", contains),
    ("IsNullOrEmpty", isNullOrEmpty), ("Equals", equals),
    ("ToUpper", function "UPPER"), ("ToLower", function "LOWER"), ("Trim", trim),
    ("TrimSpace", trim), ("TrimStart", function "LTRIM"), ("TrimEnd", function "RTRIM"),
    ("Count", aggregate .count), ("Sum", aggregate .sum), ("Avg", aggregate .avg),
    ("Max", aggregate .max), ("Min", aggregate .min)]

/-- The rule of a method. -/
def ofName? (method : Text) : Option Intrinsic := table.lookup method

/-- Whether the method is a condition rather than a value. -/
def isCondition : Intrinsic → Bool
  | like .. | membership _ | contains | isNullOrEmpty | equals => true
  | function _ | trim | aggregate _ => false

/-- The number of arguments beside the target. -/
def arity : Intrinsic → Nat
  | like .. | membership _ | contains | equals => 1
  | isNullOrEmpty | function _ | trim | aggregate _ => 0

/-- Whether the method is an aggregate function, which may lack a target. -/
def isAggregate : Intrinsic → Bool
  | aggregate _ => true
  | _ => false

end Intrinsic

/-- Whether the expression is a list known to hold nothing. -/
def Expr.isEmptyList (e : Expr) : Bool :=
  match e.unquote with
  | .array _ items | .list _ items => items.isEmpty
  | .const v _ => v.type?.any Ty.isCollection && v.deref.items?.any List.isEmpty
  | _ => false

namespace Rendering

/-- Emits a pattern test of `target`. -/
def likeTest (st : Settings) (isNegated : Bool) (pattern : Pattern) (target arg : Rendering)
    (clause : Clause) : Emit Text :=
  Emit.join (target.value clause) (if isNegated then " NOT LIKE " else " LIKE ") do
    return pattern.emit st.profile (← arg.value clause)

/-- Emits membership of `x` in `list`. Nothing is a member of an empty list, and absence from it
always holds: it emits nothing where a condition stands. -/
def membership (x list : Rendering) (isNegated : Bool) (clause : Clause) : Emit Text :=
  if list.expr.isEmptyList then
    pure (if !isNegated then "1 = 0" else if clause.isCondition then [] else "1 = 1")
  else
    Emit.join (x.value clause) (if isNegated then " NOT IN " else " IN ")
      (if list.expr.isHole then Emit.fail (.missingArgument .in_) else list.members)

/-- Emits an aggregate function. Counting nothing counts rows. -/
def aggregate (c : Clause) (target : Rendering) : Emit Text :=
  let argument : Emit Text :=
    if target.expr.isHole then
      if c = .count then pure "*" else Emit.fail (.missingArgument c)
    else target.argument c
  Emit.enclose (c.function ++ "(") argument ")"

/-- Emits a method that has a rule. -/
def intrinsic (st : Settings) (target : Rendering) (args : List Rendering) (clause : Clause) :
    Intrinsic → Emit Text
  | .like isNegated pattern =>
    match args with
    | arg :: _ => likeTest st isNegated pattern target arg clause
    | [] => Emit.fault
  | .membership isNegated =>
    match args with
    | list :: _ => membership target list isNegated clause
    | [] => Emit.fault
  | .contains =>
    match args with
    | arg :: _ =>
      if target.expr.type?.any Ty.isCollection then membership arg target false clause
      else likeTest st false .anywhere target arg clause
    | [] => Emit.fault
  | .isNullOrEmpty =>
    let tests := Emit.join (target.value clause) " IS NULL OR " (target.value clause)
    Emit.enclose "(" tests " = '')"
  | .equals =>
    match args with
    | arg :: _ => (binary st .equal target arg).condition clause
    | [] => Emit.fault
  | .function name => Emit.enclose (name ++ "(") (target.value clause) ")"
  | .trim => do return st.profile.trim (← target.value clause)
  | .aggregate c => aggregate c target

/-- Emits a call as the constant it evaluates to. -/
def calledValue (st : Settings) (e : Expr) (method : Text) (clause : Clause)
    (constant : Value → Emit Text) : Emit Text := do
  match e.eval st.pre with
  | .ok v => constant v
  | .error (.error cause) => Emit.fail (.method method clause cause)
  | .error .fault => Emit.fault

/-- The target of a call and the arguments beside it: a static call has its first argument for a
target. -/
def operands {μ ν : Type} (receiver : Rendering μ ν) (args : List (Rendering μ ν)) :
    Rendering μ ν × List (Rendering μ ν) :=
  match receiver.expr.isHole, args with
  | false, args => (receiver, args)
  | true, a :: args => (a, args)
  | true, [] => (receiver, [])

/-- The rule of a call: an aggregate function has one only in a static call. -/
def rule? {μ ν : Type} (receiver : Rendering μ ν) (method : Text) : Option Intrinsic :=
  match Intrinsic.ofName? method with
  | some i => if i.isAggregate && !receiver.expr.isHole then none else some i
  | none => none

/-- What a call emits that does not fold, as a condition or as a value. -/
def emitCall (st : Settings) (receiver : Rendering) (method : Text) (args : List Rendering)
    (type : Option Ty) (callee : Option Text) (c : Clause) (asCondition : Bool)
    (constant : Value → Emit Text) : Emit Text :=
  let (target, rest) := operands receiver args
  match rule? receiver method with
  | none =>
    calledValue st (.call receiver.expr method (args.map (·.expr)) type callee) method c constant
  | some i =>
    if (target.expr.isHole && !i.isAggregate) || rest.length < i.arity then
      Emit.fail (.methodArguments method i.arity)
    else if i.isCondition = asCondition then intrinsic st target rest c i
    else if i.isCondition then Emit.truthCase (intrinsic st target rest c i)
    else Emit.fail (.construct .call c)

/-- The rendering of a call. -/
def call (st : Settings) (receiver : Rendering) (method : Text) (args : List Rendering)
    (type : Option Ty) (callee : Option Text) : Rendering :=
  let whole := Expr.call receiver.expr method (args.map (·.expr)) type callee
  scalar st whole
    (fun c => emitCall st receiver method args type callee c false (Emit.constantValue st))
    (fun c => emitCall st receiver method args type callee c true (Emit.constantCondition · c))
    whole.isBool none

end Rendering

end QueryTree
