import QueryTree.Expr.Build
import QueryTree.Shell.Definition
import QueryTree.Shell.Literal

/-!
# The expression language

Expressions of the command language, from the loosest binding to the tightest:

    or      = and { "or" and }
    and     = not { "and" not }
    not     = "not" not | compare
    compare = sum [ op sum | "is" ["not"] "null" | ["not"] "like" text | ["not"] "in" "(" list ")" ]
    sum     = product { ("+" | "-") product }
    product = unary { ("*" | "/" | "%") unary }
    unary   = "-" unary | primary
    primary = literal | reference | function "(" [list] ")" | "(" or ")"

Every rule but the last is a parser built from the parser of the next one, so only brackets nest.
`Grammar.expression n` reads expressions whose brackets are nested less than `n` deep; a list of
tokens holds no more brackets than tokens, and so its length is enough.

## Main definitions

* `ParseError`: why tokens are no expression
* `Resolver`: the meaning of names
* `Grammar.expression`, `Grammar.parse`, `Grammar.parseText`
-/

namespace QueryTree.Shell

/-- Why tokens are no expression. -/
inductive ParseError where
  | empty
  | unexpected (token : Token)
  | unexpectedEnd
  | expected (wanted : Token) (got : Option Token)
  | likePattern (token : Token)
  | emptyIn
  | afterNot (token : Token)
  | unknownFunction (name : Token)
  | argumentCount (function : Text) (wanted given : Nat)
  | tooManyArguments (function : Text)
  | listSeparator
  /-- A reference where names mean nothing. -/
  | unknownReference (token : Token)
  | unknownAlias (name : Text)
  /-- A name other than the one that a policy is about. -/
  | foreignAlias (allowed : Text)
  | noField (entity field : Text)
  deriving DecidableEq, Repr

namespace ParseError

/-- The message of a parse error. -/
def message : ParseError → Text
  | empty => "empty expression"
  | unexpected t => "unexpected " ++ t.quoted
  | unexpectedEnd => "unexpected end of expression"
  | expected t none => "expected " ++ t.quoted ++ " at end of input"
  | expected t (some got) => "expected " ++ t.quoted ++ ", got " ++ got.quoted
  | likePattern t => "like needs a quoted pattern, got " ++ t.quoted
  | emptyIn => "in needs at least one value"
  | afterNot t => "expected like or in after not, got " ++ t.quoted
  | unknownFunction name => "unknown function " ++ name
  | argumentCount f wanted given =>
    f ++ " takes " ++ Text.ofNat wanted ++ " argument(s), got " ++ Text.ofNat given
  | tooManyArguments f => f ++ " takes at most one argument"
  | listSeparator => "expected , or ) in list"
  | unknownReference t => "unknown reference " ++ t
  | unknownAlias name => "unknown alias " ++ name
  | foreignAlias allowed => "policy expressions may only use " ++ allowed
  | noField entity field => entity ++ " has no field " ++ field

/-- The classes of a parse error. -/
def classes : ParseError → List ErrorClass
  | empty => [.emptyExpression]
  | _ => []

end ParseError

/-- The row and entity that an alias stands for. -/
abbrev Resolver := Text → Except ParseError (Param × Declared)

/-- Reads something from the front of a list of tokens and leaves the rest. -/
abbrev Parser (α : Type) := List Token → Except ParseError (α × List Token)

namespace Grammar

/-! ### Words and operators -/

/-- Whether the list begins with a word, in any case. -/
def atWord (word : Text) (ts : List Token) : Bool := ts.head?.any fun t => t.toLower = word

/-- Skips a token that must be there. -/
def expect (wanted : Token) : List Token → Except ParseError (List Token)
  | [] => .error (.expected wanted none)
  | t :: ts => if t.equalFold wanted then .ok ts else .error (.expected wanted (some t))

/-- The comparisons. -/
def comparisons : List (Token × BinaryOp) :=
  [("=", .equal), ("!=", .notEqual), ("<>", .notEqual), (">", .greaterThan),
    (">=", .greaterThanOrEqual), ("<", .lessThan), ("<=", .lessThanOrEqual)]

/-- The operators of sums. -/
def additive : List (Token × BinaryOp) := [("+", .add), ("-", .subtract)]

/-- The operators of products. -/
def multiplicative : List (Token × BinaryOp) :=
  [("*", .multiply), ("/", .divide), ("%", .modulo)]

/-- A function of the language: what it is called in expressions, and whether it is a method of
its argument rather than an aggregate. -/
structure Function where
  method : Text
  ofReceiver : Bool

/-- The functions. -/
def functions : List (Text × Function) :=
  [("upper", ⟨"ToUpper", true⟩), ("lower", ⟨"ToLower", true⟩), ("trim", ⟨"Trim", true⟩),
    ("count", ⟨"Count", false⟩), ("sum", ⟨"Sum", false⟩), ("avg", ⟨"Avg", false⟩),
    ("min", ⟨"Min", false⟩), ("max", ⟨"Max", false⟩)]

/-- The function that may do without its argument. -/
def countName : Text := "count"

/-- The call of a function. All take one argument, except that rows can be counted without. -/
def build (name : Text) (f : Function) (args : List Expr) : Except ParseError Expr :=
  if name = countName then
    if args.length ≤ 1 then .ok (.staticOf f.method args) else .error (.tooManyArguments name)
  else match args with
    | [e] => .ok (if f.ofReceiver then .callOf e f.method [] else .staticOf f.method [e])
    | _ => .error (.argumentCount name 1 args.length)

/-! ### Chains and lists -/

/-- Operands joined to the left by operators, after the operand `left`. Every step takes an
operator, so there are no more steps than tokens. -/
def chainFrom (op? : Token → Option (Expr → Expr → Expr)) (operand : Parser Expr) :
    (steps : Nat) → Expr → Parser Expr
  | 0, left, ts => .ok (left, ts)
  | _, left, [] => .ok (left, [])
  | steps + 1, left, t :: ts =>
    match op? t with
    | none => .ok (left, t :: ts)
    | some join => do
      let (right, ts) ← operand ts
      chainFrom op? operand steps (join left right) ts

/-- Operands joined to the left by operators. -/
def chain (op? : Token → Option (Expr → Expr → Expr)) (operand : Parser Expr) : Parser Expr :=
  fun ts => do
    let (left, ts) ← operand ts
    chainFrom op? operand ts.length left ts

/-- Operands joined by a word. -/
def wordChain (word : Text) (op : BinaryOp) : Parser Expr → Parser Expr :=
  chain fun t => if t.toLower = word then some (.binary op) else none

/-- Operands joined by the operators of a table. -/
def tableChain (table : List (Token × BinaryOp)) : Parser Expr → Parser Expr :=
  chain fun t => (table.lookup t).map Expr.binary

/-- Items with commas between them, up to the closing bracket, which is taken too. -/
def itemsFrom (item : Parser Expr) : (steps : Nat) → Parser (List Expr)
  | 0, _ => .error .listSeparator
  | steps + 1, ts => do
    let (e, ts) ← item ts
    match ts with
    | t :: ts =>
      if t = ("," : Text) then do
        let (es, ts) ← itemsFrom item steps ts
        return (e :: es, ts)
      else if t = (")" : Text) then return ([e], ts)
      else .error .listSeparator
    | [] => .error .listSeparator

/-- The rest of a list in brackets after its opening bracket. -/
def items (item : Parser Expr) : Parser (List Expr) := fun ts =>
  match ts with
  | t :: rest => if t = (")" : Text) then .ok ([], rest) else itemsFrom item ts.length ts
  | [] => itemsFrom item 1 []

/-! ### The rules -/

/-- A reference: a row, a member of a row, or members of members. -/
def reference (resolver : Option Resolver) (t : Token) : Except ParseError Expr :=
  match resolver with
  | none => .error (.unknownReference t)
  | some resolve =>
    match t.splitByte (byte '.') with
    | [] => .error (.unknownReference t)
    | [name] => do return .param (← resolve name).1
    | name :: field :: more => do
      let (p, e) ← resolve name
      match e.member? field with
      | none => .error (.noField e.name field)
      | some m => return more.foldl Expr.memberOf (.field p m)

/-- The arguments of a function, after the opening bracket. A star counts rows. -/
def arguments (item : Parser Expr) (name : Text) : Parser (List Expr) := fun ts =>
  match ts with
  | t :: rest =>
    if t = ("*" : Text) && name = countName then do return ([], ← expect ")" rest)
    else items item ts
  | [] => items item ts

/-- The call of the function `t`, after the opening bracket. -/
def call (item : Parser Expr) (t : Token) : Parser Expr := fun ts =>
  let name := t.toLower
  match functions.lookup name with
  | none => .error (.unknownFunction t)
  | some f => do
    let (args, ts) ← arguments item name ts
    return (← build name f args, ts)

/-- A literal, a reference, a call or an expression in brackets. -/
def primary (resolver : Option Resolver) (inner : Parser Expr) : Parser Expr
  | [] => .error .unexpectedEnd
  | t :: ts =>
    if t = ("(" : Text) then do
      let (e, ts) ← inner ts
      return (e, ← expect ")" ts)
    else match t.value? with
      | some v => .ok (.value v, ts)
      | none =>
        if t.isIdentifier then
          match ts with
          | u :: rest =>
            if u = ("(" : Text) then call inner t rest
            else do return (← reference resolver t, ts)
          | [] => do return (← reference resolver t, ts)
        else .error (.unexpected t)

/-- The opposite of an expression. The sign of a number belongs to the number. -/
def negative : Expr → Expr
  | .const (.int .int64 n) _ => .value (.int .int64 (IntKind.int64.wrap (-n)))
  | .const (.float false x) _ => .value (.float false x.opposite)
  | e => .negateOf e

/-- An expression with any number of minus signs. -/
def unary (operand : Parser Expr) : Parser Expr
  | [] => operand []
  | t :: ts =>
    if t = ("-" : Text) then do
      let (e, ts) ← unary operand ts
      return (negative e, ts)
    else operand (t :: ts)

/-- The test that a value is like a pattern. A wildcard at one end only leaves that end open;
otherwise the pattern may stand anywhere. -/
def likeTest (left : Expr) (pattern : Text) : Expr :=
  let lead := pattern.hasPrefix "%"
  let trail := 1 < pattern.length && pattern.hasSuffix "%"
  let text := (pattern.trimPrefix "%").trimSuffix "%"
  let method : Text := if trail && !lead then "LikeRight" else if lead && !trail then "LikeLeft"
    else "Like"
  .staticOf method [left, .value (.string text)]

/-- The tail of a comparison that begins with `like` or `in`. -/
def matchTail (inner : Parser Expr) (left : Expr) : Parser Expr := fun ts =>
  let word := (ts.headD []).toLower
  if word = ("like" : Text) then
    let pattern := (ts.drop 1).headD []
    match pattern.value? with
    | some (.string s) => .ok (likeTest left s, ts.drop 2)
    | _ => .error (.likePattern pattern)
  else if word = ("in" : Text) then do
    let ts ← expect "(" (ts.drop 1)
    let (es, ts) ← items inner ts
    if es.isEmpty then .error .emptyIn
    else return (.staticOf "In" [left, .arrayOf es], ts)
  else .error (.afterNot (ts.headD []))

/-- The tail of a comparison that begins with `is`, after that word. -/
def nullTail (left : Expr) : Parser Expr := fun ts => do
  let negated := atWord "not" ts
  let ts ← expect "null" (if negated then ts.drop 1 else ts)
  return (.binary (if negated then .notEqual else .equal) left .null, ts)

/-- A comparison, or a sum without one. -/
def comparison (inner operand : Parser Expr) : Parser Expr := fun ts => do
  let (left, ts) ← operand ts
  match ts with
  | [] => return (left, ts)
  | t :: rest =>
    match comparisons.lookup t with
    | some op => do
      let (right, ts) ← operand rest
      return (.binary op left right, ts)
    | none =>
      let word := t.toLower
      if word = ("is" : Text) then nullTail left rest
      else if word = ("not" : Text) then do
        let (e, ts) ← matchTail inner left rest
        return (.notOf e, ts)
      else if word = ("like" : Text) || word = ("in" : Text) then matchTail inner left ts
      else return (left, ts)

/-- A condition with any number of negations. -/
def negation (operand : Parser Expr) : Parser Expr
  | [] => operand []
  | t :: ts =>
    if t.toLower = ("not" : Text) then do
      let (e, ts) ← negation operand ts
      return (.notOf e, ts)
    else operand (t :: ts)

/-- The expression whose inner expressions, in brackets, are read by `inner`. -/
def disjunction (resolver : Option Resolver) (inner : Parser Expr) : Parser Expr :=
  let product := tableChain multiplicative (unary (primary resolver inner))
  let sum := tableChain additive product
  wordChain "or" .orElse (wordChain "and" .andAlso (negation (comparison inner sum)))

/-- An expression with brackets nested less than `depth` deep. -/
def expression (resolver : Option Resolver) : (depth : Nat) → Parser Expr
  | 0 => fun _ => .error .unexpectedEnd
  | depth + 1 => disjunction resolver (expression resolver depth)

/-- The expression that all of the tokens make up. -/
def parse (resolver : Option Resolver) (ts : List Token) : Except ParseError Expr :=
  if ts.isEmpty then .error .empty
  else do
    let (e, rest) ← expression resolver ts.length ts
    match rest with
    | [] => return e
    | t :: _ => .error (.unexpected t)

/-- The expression that a text is. -/
def parseText (resolver : Option Resolver) (t : Text) : Except ParseError Expr :=
  parse resolver (Token.scan t)

end Grammar

end QueryTree.Shell
