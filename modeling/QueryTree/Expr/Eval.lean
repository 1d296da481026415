import QueryTree.Expr.Arithmetic
import QueryTree.Expr.Build
import QueryTree.Prelude
import QueryTree.Text.Class
import QueryTree.Value.Slot

/-!
# Evaluation

The value of an expression that depends on no row. Members read records, maps and lengths; calls
run declared functions, the built-in methods of texts and lists, and declared methods.

## Main definitions

* `Value.member`: the member of a value
* `Expr.eval`: the value of an expression
-/

namespace QueryTree

namespace Value

/-- The type that nil stands for where pointers lead to it. -/
def nilTarget? : Value → Option Ty
  | ptr t nil => some t
  | ptr _ v => v.nilTarget?
  | named _ v => v.nilTarget?
  | _ => none

/-- The member of an evaluated row, map, text or list. -/
def member (target : Value) (name : Text) : Attempt EvalError Value :=
  let v := target.deref
  let missing : Attempt EvalError Value := .fail (.noMember v.type? name)
  match v.under with
  | nil =>
    match target.nilTarget? with
    | some t => .fail (.memberOfNilPointer name (some t))
    | none => .fail (.memberOfNil name)
  | nilPtr _ => .fail (.memberOfNilPointer name v.type?)
  | record .. =>
    match v.type?.bind fun t => t.member? name with
    | some (f, path) =>
      match v.fieldAt? path with
      | some value => if f.exported then .ok value else missing
      | none => .fault
    | none => missing
  | map key _ entries =>
    if key.under = .string then .ok ((entries.lookup (.string name)).getD .nil) else missing
  | nilMap key _ => if key.under = .string then .ok .nil else missing
  | string t => if name = lengthMember then .ok (.int .int t.length) else missing
  | nilSlice _ => if name = lengthMember then .ok (.int .int 0) else missing
  | slice _ items | array _ items =>
    if name = lengthMember then .ok (.int .int items.length) else missing
  | _ => missing

/-! ### Calls -/

/-- The arguments of a function, each as a value of the type asked for. -/
def fitArguments (name : Text) : (index : Nat) → List Ty → Option Ty → List Value →
    Attempt EvalError (List Value)
  | _, _, _, [] => .ok []
  | i, t :: ts, rest, v :: vs => do
    let v ← (v.fit t).mapError fun (v, t) => .badArgument name i v.type? t
    return v :: (← fitArguments name (i + 1) ts rest vs)
  | i, [], some t, v :: vs => do
    let v ← (v.fit t).mapError fun (v, t) => .badArgument name i v.type? t
    return v :: (← fitArguments name (i + 1) [] (some t) vs)
  | _, [], none, _ :: _ => .ok []

/-- The result of a function call. -/
def callFunction (f : Function) (name : Text) (args : List Value) : Attempt EvalError Value := do
  let expected := f.params.length + if f.rest.isSome then 1 else 0
  let enough := if f.rest.isSome then f.params.length ≤ args.length
    else args.length = f.params.length
  if !enough then .fail (.argumentCount name expected args.length)
  else
    let args ← fitArguments name 0 f.params f.rest args
    (f.run args).mapError .failed

/-- A test on a text with one text argument. -/
def textTest (test : Text → Text → Bool) (s : Text) (args : List Value) :
    Attempt EvalError Value :=
  match args with
  | [string t] => .ok (.bool (test s t))
  | [v] => .fail (.stringArgument v.type?)
  | args => .fail (.oneArgument args.length)

/-- The built-in methods of texts. -/
def textMethod? (method : Text) : Option (Text → List Value → Attempt EvalError Value) :=
  let map := fun (f : Text → Text) => some fun s (_ : List Value) => .ok (.string (f s))
  if method = ("ToUpper" : Text) then map Text.toUpper
  else if method = ("ToLower" : Text) then map Text.toLower
  else if method = ("Trim" : Text) || method = ("TrimSpace" : Text) then map Text.trimSpace
  else if method = ("TrimStart" : Text) then map Text.trimStart
  else if method = ("TrimEnd" : Text) then map Text.trimEnd
  else if method = ("Contains" : Text) then some (textTest Text.contains)
  else if method = ("StartsWith" : Text) || method = ("HasPrefix" : Text) then
    some (textTest Text.hasPrefix)
  else if method = ("EndsWith" : Text) || method = ("HasSuffix" : Text) then
    some (textTest Text.hasSuffix)
  else if method = ("Equals" : Text) then some (textTest (· == ·))
  else none

/-- Whether a list holds a value equal to `v`. -/
def holds (items : List Value) (v : Value) : Bool :=
  items.any fun item => match compareWith .equal item v with
    | .ok b => b
    | .error _ => false

/-- The declared method of a value or of the value behind one pointer, with its receiver. -/
def declaredMethod? (pre : Prelude) (v : Value) (method : Text) : Option Function :=
  match v with
  | ptr t target => (pre.method? t method).map fun f => f (some target)
  | nilPtr t => (pre.method? t method).map fun f => f none
  | v => (v.type?.bind fun t => pre.method? t method).map fun f => f (some v)

/-- The result of a method call on an evaluated receiver. -/
def callMethod (pre : Prelude) (v : Value) (method : Text) (args : List Value) :
    Attempt EvalError Value :=
  let declared : Attempt EvalError Value :=
    match v with
    | nil => .fault
    | v =>
      match declaredMethod? pre v method with
      | some f => callFunction f method args
      | none => .fail (.noMethod v.type? method)
  let contained : Attempt EvalError Value :=
    match v.items?, args with
    | some items, [x] =>
      if method = ("Contains" : Text) then .ok (.bool (holds items x)) else declared
    | _, _ => declared
  match v, textMethod? method with
  | string s, some f => f s args
  | _, _ => contained

/-- The result of a static call that carries no function. -/
def callStatic (method : Text) (args : List Value) : Attempt EvalError Value :=
  match args with
  | [v] =>
    if method = ("IsNullOrEmpty" : Text) then
      .ok (.bool (match v with
        | string t => t.isEmpty
        | _ => true))
    else .fail (.staticCall method)
  | _ => .fail (.staticCall method)

/-! ### Operators -/

/-- The value of a truth value. -/
def truth (v : Value) : Option Bool :=
  match v with
  | bool b => some b
  | _ => none

/-- The value as a value of type `t`; for a pointer type a pointer to the converted value. -/
def convertTo (v : Value) (t : Option Ty) : Attempt EvalError Value :=
  match t, v.type? with
  | none, _ | _, none => .ok v
  | some t, some a =>
    let plain : Attempt EvalError Value :=
      if a.convertible t then (v.convert t).widen else .fail (.cannotConvert (some a) t)
    if a = t then .ok v
    else match t.under with
      | .ptr e => if a.convertible e then (v.convert e).widen.map (.ptr e) else plain
      | _ => plain

/-- The result of a unary operator. -/
def unaryOp (op : UnaryOp) (v : Value) (t : Option Ty) : Attempt EvalError Value :=
  match op with
  | .not =>
    match v.truth with
    | some b => .ok (.bool !b)
    | none => .fail (.operandNotBool "Not" v.type?)
  | .negate => arith .subtract ((v.type?.map Ty.zero).getD (.int .int 0)) v
  | .onesComplement =>
    match v.under with
    | int k n =>
      if k.signed then .ok (intLike v (-n - 1)) else .fail (.badOperand "OnesComplement" v.type?)
    | _ => .fail (.badOperand "OnesComplement" v.type?)
  | .arrayLength =>
    match v.items? with
    | some items => .ok (.int .int items.length)
    | none => .fail (.badOperand "ArrayLength" v.type?)
  | .convert => convertTo v t
  | _ => .ok v

/-- A list of evaluated items, with elements of the type's element type where it has one. -/
def sliceOf (t : Option Ty) (items : List Value) : Attempt EvalError Value :=
  match t with
  | none => .ok (.slice .any items)
  | some t =>
    match t.under with
    | .slice .any => .ok (.slice .any items)
    | .slice elem => do
      let items ← items.mapM fun v => (v.fit elem).mapError fun (v, t) => .badElement v.type? t
      return wrapNames t (.slice elem items)
    | _ => .ok (.slice .any items)

/-- Sets one member of a record. -/
def setMember (t : Ty) (obj : Value) (name : Text) (v : Value) : Attempt EvalError Value :=
  match t.member? name with
  | none => .fail (.notSettable t name)
  | some (f, path) =>
    match obj.fieldAt? path with
    | none => .fault
    | some _ =>
      if !f.exported then .fail (.notSettable t name)
      else do
        let v ← (v.fit f.type).mapError fun (v, t) => .badElement v.type? t
        match setField v obj path with
        | some obj => .ok obj
        | none => .fault

/-- The record type that bindings fill, if the type is one. -/
def recordType? (t : Option Ty) : Option Ty :=
  t.bind fun t => match t.under with
    | .record _ | .time => some t
    | _ => none

end Value

namespace Expr

open Value in
mutual

/-- The value of an expression that depends on no row. -/
def eval (pre : Prelude) : Expr → Attempt EvalError Value
  | hole => .ok .nil
  | const v _ => .ok v
  | param p => .fail (.dependsOnParameter p.name)
  | member e name _ _ =>
    if e.isHole then .fail (.staticMember name)
    else do (← eval pre e).member name
  | binary op l r => do
    let a ← eval pre l
    if op.isLogical then
      match a.truth with
      | none => .fail (.operandNotBool op.name a.type?)
      | some x =>
        if op = .andAlso && !x then .ok (.bool false)
        else if op = .orElse && x then .ok (.bool true)
        else
          let b ← eval pre r
          match b.truth with
          | none => .fail (.operandNotBool op.name b.type?)
          | some y => .ok (.bool (if op.isAnd then x && y else x || y))
    else if op = .coalesce && !a.isNil then .ok a
    else
      let b ← eval pre r
      if op.isComparison then
        match compareWith op a b with
        | .ok x => .ok (.bool x)
        | .error e => .fail e
      else arith op a b
  | unary op e t => do unaryOp op (← eval pre e) t
  | call receiver method args _ callee => do
    let vs ← evalAll pre args
    match callee with
    | some name =>
      match pre.callee? name with
      | some (.function f) => callFunction f method vs
      | some (.other t) => .fail (.notFunction method t)
      | none => .fail (.staticCall method)
    | none =>
      if receiver.isHole then callStatic method vs
      else callMethod pre (← eval pre receiver) method vs
  | cond test a b => do
    let t ← eval pre test
    match t.truth with
    | none => .fail (.testNotBool t.type?)
    | some true => eval pre a
    | some false => eval pre b
  | array t items => do sliceOf t (← evalAll pre items)
  | list t items => do sliceOf t (← evalAll pre items)
  | new t bs =>
    match recordType? t with
    | some t => evalMembers pre t t.zero bs
    | none => evalEntries pre [] bs
  | init t bs =>
    match recordType? t with
    | some t => evalMembers pre t t.zero bs
    | none => evalEntries pre [] bs
  | lambda .. => .fail (.notConstant .lambda)
  | invoke .. => .fail (.notConstant .invocation)

/-- The values of a list of expressions. -/
def evalAll (pre : Prelude) : List Expr → Attempt EvalError (List Value)
  | [] => .ok []
  | e :: es => do
    let v ← eval pre e
    return v :: (← evalAll pre es)

/-- A map of evaluated members; a later member of the same name replaces an earlier one. -/
def evalEntries (pre : Prelude) (entries : List (MapKey × Value)) :
    List (Text × Expr) → Attempt EvalError Value
  | [] => .ok (.map .string .any entries)
  | (name, e) :: bs => do
    let v ← eval pre e
    evalEntries pre (insertEntry (.string name) v entries) bs

/-- A record with evaluated members set one after the other. -/
def evalMembers (pre : Prelude) (t : Ty) (obj : Value) :
    List (Text × Expr) → Attempt EvalError Value
  | [] => .ok obj
  | (name, e) :: bs => do
    let v ← eval pre e
    let obj ← setMember t obj name v
    evalMembers pre t obj bs

end

end Expr

end QueryTree
