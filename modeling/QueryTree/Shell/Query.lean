import QueryTree.Shell.Plan

/-!
# Building selections

The commands that start a selection and add to it: rows, joins, a projection, conditions, groups,
an ordering and a page. A command that is refused leaves the selection as it was, except that a
new selection replaces the old statement even if its alias is refused, and that the items of an
ordering before a wrong one stay.

## Main definitions

* `Session.from_`, `Session.join`
* `Session.select`, `Session.where_`, `Session.group`, `Session.having`, `Session.order`
* `Session.limit`, `Session.offset`, `Session.distinct`
-/

namespace QueryTree.Shell.Session

/-! ### Rows -/

/-- Starts a selection from the rows of an entity. -/
def from_ (s : Session) (args : Text) : Outcome :=
  match s.entityAndAlias args.fields with
  | .error e => .refusal s (.inside "from" e)
  | .ok (e, name) =>
    match s.cleared.bind e name with
    | .error err => .refusal s.cleared err
    | .ok (p, s) =>
      .success (s.withSelection (.all (some p)))
        ("  Query FROM " ++ e.table ++ " AS " ++ name ++ "\n")

/-- The tokens before and after the word `on`, which may be missing. -/
def splitOn (ts : List Token) : List Token × Option (List Token) :=
  match Token.indexOf? ts "on" with
  | some i => (ts.take i, some (ts.drop (i + 1)))
  | none => (ts, none)

/-- Joins the rows of an entity, on a condition if one is given. -/
def join (s : Session) (kind : JoinKind) (args : Text) : Except ShellError (Session × Text) := do
  let q ← s.selection
  let (head, condition) := splitOn (Token.scan args)
  let (e, name) ← (s.entityAndAlias head).mapError (.inside "join")
  let (p, s) ← s.bind e name
  let on ← match condition with
    | some ts => (s.parse ts).mapError (.inside "join")
    | none => .ok .hole
  return (s.withSelection (q.addJoin ⟨kind, some p, on⟩),
    "  " ++ kind.keywords ++ " " ++ e.table ++ " AS " ++ name ++ "\n")

/-! ### Projections -/

/-- An item of a projection and the name it is given. -/
def projectionItem (s : Session) (part : List Token) :
    Except ShellError (Expr × Option Text) := do
  match Token.indexOf? part "as" with
  | none => return (← s.parse part, none)
  | some i =>
    match part.drop (i + 1) with
    | [name] => return (← s.parse (part.take i), some name)
    | _ => .error .nameAfterAs

/-- The name of the item at position `i` of a projection with names: that of its column, or one
made up from the position. -/
def defaultName (s : Session) (i : Nat) (e : Expr) : Text :=
  let made := "expr" ++ Text.ofNat (i + 1)
  match e, e.root with
  | .member _ name _ _, .param p =>
    match s.registry.column p.type name with
    | .ok c => c.name
    | .error _ => made
  | _, _ => made

/-- The items of a projection. A single name makes all of them named. -/
def projection (s : Session) (parts : List (List Token)) : Except ShellError (List Expr) := do
  let items ← parts.mapM s.projectionItem
  if items.any fun (_, name) => name.isSome then
    return [.new none (items.zipIdx.map fun ((e, name), i) => (name.getD (s.defaultName i e), e))]
  else return items.map (·.1)

/-- Sets the projection; a star selects all columns. -/
def select (s : Session) (args : Text) : Except ShellError (Session × Text) := do
  let q ← s.selection
  if args = ("*" : Text) then
    return (s.withSelection (q.project []), "  Projection cleared (SELECT *)\n")
  else
    let parts := Token.splitCommas (Token.scan args)
    let items ← (s.projection parts).mapError (.inside "select")
    return (s.withSelection (q.project items),
      "  Projection set (" ++ Text.ofNat parts.length ++ " columns)\n")

/-- Selects different rows only. -/
def distinct (s : Session) : Except ShellError (Session × Text) := do
  let q ← s.selection
  return (s.withSelection { q with distinct := true }, "  DISTINCT enabled\n")

/-! ### Conditions and groups -/

/-- Adds a condition to the statement, of whatever kind it is. -/
def where_ (s : Session) (args : Text) : Except ShellError (Session × Text) := do
  let e ← (s.parse (Token.scan args)).mapError (.inside "where")
  let p ← match s.pending with
    | some (.select q) => .ok (Pending.select { q with wheres := q.wheres ++ [e] })
    | some (.update q) => .ok (.update { q with wheres := q.wheres ++ [e] })
    | some (.delete q) => .ok (.delete { q with wheres := q.wheres ++ [e] })
    | some (.insert _) => .error .whereInInsert
    | none => .error .noQuery
  return ({ s with pending := some p }, "  WHERE condition added\n")

/-- Adds groups. -/
def group (s : Session) (args : Text) : Except ShellError (Session × Text) := do
  let q ← s.selection
  let groups ← ((Token.splitCommas (Token.scan args)).mapM s.parse).mapError (.inside "group")
  return (s.withSelection { q with groups := q.groups ++ groups },
    "  GROUP BY set (" ++ Text.ofNat groups.length ++ " columns)\n")

/-- Adds a condition on groups. -/
def having (s : Session) (args : Text) : Except ShellError (Session × Text) := do
  let q ← s.selection
  let e ← (s.parse (Token.scan args)).mapError (.inside "having")
  return (s.withSelection { q with havings := q.havings ++ [e] }, "  HAVING condition added\n")

/-! ### Order and page -/

/-- The tokens of an item of an ordering without its direction, and the direction. -/
def splitDirection (part : List Token) : List Token × Direction :=
  let word := (part.getLastD []).toLower
  if part.length ≤ 1 then (part, .asc)
  else if word = ("desc" : Text) then (part.dropLast, .desc)
  else if word = ("asc" : Text) then (part.dropLast, .asc)
  else (part, .asc)

/-- The selection with items of an ordering added, up to the first that is no expression. -/
def addOrders (s : Session) (q : Select) : List (List Token) → Select × Option ShellError
  | [] => (q, none)
  | part :: parts =>
    let (ts, direction) := splitDirection part
    match s.parse ts with
    | .error e => (q, some e)
    | .ok e => addOrders s { q with orders := q.orders ++ [(e, [direction])] } parts

/-- Adds an ordering. -/
def order (s : Session) (args : Text) : Outcome :=
  match s.selection with
  | .error e => .refusal s e
  | .ok q =>
    let parts := Token.splitCommas (Token.scan args)
    match s.addOrders q parts with
    | (q, some e) => .refusal (s.withSelection q) (.inside "order" e)
    | (q, none) =>
      .success (s.withSelection q) ("  ORDER BY set (" ++ Text.ofNat parts.length ++ " columns)\n")

/-- A number of rows. -/
def rowCount (args name : Text) : Except ShellError Int :=
  match args.toInt64? with
  | some n => if n < 0 then .error (.usage (form name)) else .ok n
  | none => .error (.usage (form name))
where
  /-- How a command with a number of rows is written. -/
  form (name : Text) : Text := name ++ " <non-negative integer>"

/-- Bounds the number of rows. -/
def limit (s : Session) (args : Text) : Except ShellError (Session × Text) := do
  let q ← s.selection
  let n ← rowCount args "limit"
  return (s.withSelection { q with limit := n }, "  LIMIT " ++ Text.ofInt n ++ "\n")

/-- Skips rows. -/
def offset (s : Session) (args : Text) : Except ShellError (Session × Text) := do
  let q ← s.selection
  let n ← rowCount args "offset"
  return (s.withSelection { q with offset := n }, "  OFFSET " ++ Text.ofInt n ++ "\n")

end QueryTree.Shell.Session
