import QueryTree.Expr.Build

/-!
# Walking expressions and replacing their parts

`Expr.walk` lists an expression and everything below it from the top down. `Expr.replace` replaces
subtrees: the rule is asked for every expression before its operands, and what it declines is
rebuilt only where an operand changed. `Expr.inline` substitutes the arguments of an invocation
for the parameters of the lambda it invokes.

## Main definitions

* `Expr.walk`, `Expr.params`, `Expr.size`
* `Expr.replace`: the result, whether it is a new expression, and how often the rule was asked
* `Expr.inline`
-/

namespace QueryTree

namespace Expr

mutual

/-- The expression and its descendants, each before its operands. -/
def walk : Expr → List Expr
  | hole => []
  | const v t => [const v t]
  | param p => [param p]
  | member e n t o => member e n t o :: walk e
  | binary op l r => binary op l r :: (walk l ++ walk r)
  | unary op e t => unary op e t :: walk e
  | call e m args t f => call e m args t f :: (walk e ++ walkAll args)
  | new t bs => new t bs :: walkBindings bs
  | init t bs => init t bs :: walkBindings bs
  | list t items => list t items :: walkAll items
  | array t items => array t items :: walkAll items
  | lambda body ps => lambda body ps :: (ps.map param ++ walk body)
  | invoke e args => invoke e args :: (walk e ++ walkAll args)
  | cond c a b => cond c a b :: (walk c ++ walk a ++ walk b)

/-- The descendants of a list of expressions. -/
def walkAll : List Expr → List Expr
  | [] => []
  | e :: es => walk e ++ walkAll es

/-- The descendants of a list of bindings. -/
def walkBindings : List (Text × Expr) → List Expr
  | [] => []
  | (_, e) :: bs => walk e ++ walkBindings bs

end

/-- The distinct parameters of an expression in the order of their first appearance. -/
def params (e : Expr) : List Param :=
  (e.walk.filterMap fun x => match x with
    | param p => some p
    | _ => none).foldl (fun ps p => if ps.any (·.id == p.id) then ps else ps ++ [p]) []

/-- Whether the expression refers to no row at all. -/
def isClosed (e : Expr) : Bool := e.params.isEmpty

/-- The number of expressions in a tree. -/
def size (e : Expr) : Nat := e.walk.length

/-! ### Replacement -/

/-- An expression after replacement, whether it is a new one, and how often the rule was asked. -/
structure Replaced (α : Type) where
  result : α
  changed : Bool
  asked : Nat

/-- The member of a row after replacement. A type that is no longer known stays what it was. -/
def rebuildMember (e : Expr) (name : Text) (type owner : Option Ty) : Expr :=
  match memberOf e name with
  | member e n none _ => member e n type owner
  | m => m

/-- What the rule replaces `e` by or, if it declines, the expression rebuilt from its new
operands when one of them changed. -/
def askFirst {α : Type} (rule : Expr → Option Expr) (e : Expr) (operands : Unit → Replaced α)
    (rebuild : α → Expr) : Replaced Expr :=
  match rule e with
  | some r => ⟨r, true, 1⟩
  | none =>
    let r := operands ()
    ⟨if r.changed then rebuild r.result else e, r.changed, r.asked + 1⟩

/-- Two parts after replacement, side by side. -/
def Replaced.and {α β : Type} (a : Replaced α) (b : Replaced β) : Replaced (α × β) :=
  ⟨(a.result, b.result), a.changed || b.changed, a.asked + b.asked⟩

mutual

/-- Replaces every expression that `rule` gives a replacement for, the outermost first. A
parameter replaced by itself does not count as a change. -/
def replace (rule : Expr → Option Expr) : Expr → Replaced Expr
  | hole => ⟨hole, false, 0⟩
  | const v t => askFirst rule (const v t) (fun _ => ⟨(), false, 0⟩) fun _ => const v t
  | param p =>
    match rule (param p) with
    | some (param q) => ⟨param q, q.id != p.id, 1⟩
    | some r => ⟨r, true, 1⟩
    | none => ⟨param p, false, 1⟩
  | member e n t o =>
    askFirst rule (member e n t o) (fun _ => replace rule e) fun e => rebuildMember e n t o
  | binary op l r =>
    askFirst rule (binary op l r) (fun _ => (replace rule l).and (replace rule r))
      fun (l, r) => binary op l r
  | unary op e t =>
    askFirst rule (unary op e t) (fun _ => replace rule e) fun e => unary op e t
  | call e m args t f =>
    askFirst rule (call e m args t f) (fun _ => (replace rule e).and (replaceAll rule args))
      fun (e, args) => call e m args t f
  | new t bs => askFirst rule (new t bs) (fun _ => replaceBindings rule bs) fun bs => new t bs
  | init t bs => askFirst rule (init t bs) (fun _ => replaceBindings rule bs) fun bs => init t bs
  | list t items =>
    askFirst rule (list t items) (fun _ => replaceAll rule items) fun items => list t items
  | array t items =>
    askFirst rule (array t items) (fun _ => replaceAll rule items) fun items => array t items
  | lambda body ps =>
    askFirst rule (lambda body ps) (fun _ => replace rule body) fun body => lambda body ps
  | invoke e args =>
    askFirst rule (invoke e args) (fun _ => (replace rule e).and (replaceAll rule args))
      fun (e, args) => invoke e args
  | cond c a b =>
    askFirst rule (cond c a b)
      (fun _ => (replace rule c).and ((replace rule a).and (replace rule b)))
      fun (c, a, b) => condOf c a b

/-- Replaces in every expression of a list. -/
def replaceAll (rule : Expr → Option Expr) : List Expr → Replaced (List Expr)
  | [] => ⟨[], false, 0⟩
  | e :: es =>
    let r := (replace rule e).and (replaceAll rule es)
    { r with result := r.result.1 :: r.result.2 }

/-- Replaces in the expression of every binding. -/
def replaceBindings (rule : Expr → Option Expr) :
    List (Text × Expr) → Replaced (List (Text × Expr))
  | [] => ⟨[], false, 0⟩
  | (n, e) :: bs =>
    let r := (replace rule e).and (replaceBindings rule bs)
    { r with result := (n, r.result.1) :: r.result.2 }

end

/-! ### Inlining -/

/-- Why an invocation cannot be inlined. -/
inductive InlineError where
  | notLambda
  | argumentCount
  deriving DecidableEq, Repr

/-- The message of an inlining error. -/
def InlineError.message : InlineError → Text
  | notLambda => "exprql: invocation target is not a lambda"
  | argumentCount => "exprql: invocation argument count does not match lambda parameters"

/-- The argument that takes the place of a parameter: the one given for that very parameter or
else for one of the same name and type. When two parameters of a lambda are the same, the last
argument counts. -/
def substitution (params : List Param) (args : List Expr) (p : Param) : Option Expr :=
  let pairs := (params.zip args).reverse
  match pairs.find? fun (q, _) => q.id = p.id with
  | some (_, e) => some e
  | none => (pairs.find? fun (q, _) => q.name = p.name && q.type = p.type).map (·.2)

/-- The body of the invoked lambda with the arguments in the place of its parameters. -/
def inline (target : Expr) (args : List Expr) : Except InlineError Expr :=
  match target.unquote with
  | lambda body params =>
    if params.length = args.length then
      let rule := fun e => match e with
        | param p => substitution params args p
        | _ => none
      .ok (replace rule body).result
    else .error .argumentCount
  | _ => .error .notLambda

end Expr

end QueryTree
