import QueryTree.Shell.Plan

/-!
# Building insertions, updates and deletions

The commands that start a statement that changes rows. Each of them replaces the statement that
was being built, also when it is refused after its entity is known. The entity name is the alias
of the row that an update or deletion is about; an insertion has no row.

## Main definitions

* `Session.assignments`: the members that tokens assign
* `Session.insert`, `Session.values`, `Session.update`, `Session.delete`
-/

namespace QueryTree.Shell.Session

/-! ### Assignments -/

/-- The tokens of a value and what follows it. A name before an equals sign begins the next
assignment, unless it is an operand of the comparison `before`. -/
def takeValue : (before : Token) → List Token → List Token × List Token
  | _, [] => ([], [])
  | before, t :: ts =>
    if ts.head? == some ("=" : Text) && t.isIdentifier
        && (Grammar.comparisons.lookup before).isNone then ([], t :: ts)
    else
      let (value, rest) := takeValue t ts
      (t :: value, rest)

/-- The tokens without a comma at their end. -/
def dropComma (ts : List Token) : List Token :=
  if ts.getLast? == some ("," : Text) then ts.dropLast else ts

/-- The members that tokens assign, and their values. Every step takes a token, so there are no
more steps than tokens. -/
def assignmentsFrom (s : Session) (e : Declared) :
    (steps : Nat) → List Token → Except ShellError (List (Text × Expr))
  | 0, _ => .ok []
  | _, [] => .ok []
  | steps + 1, t :: ts =>
    if t = ("," : Text) then assignmentsFrom s e steps ts
    else match ts with
      | [] => .error (.assignmentShape t)
      | sign :: ts =>
        if sign ≠ ("=" : Text) then .error (.assignmentShape t)
        else match e.member? t with
          | none => .error (.parse (.noField e.name t))
          | some member => do
            let (value, rest) := takeValue sign ts
            let x ← (s.parse (dropComma value)).mapError (.inside member)
            return (member, x) :: (← assignmentsFrom s e steps rest)

/-- The members that tokens assign, at least one. -/
def assignments (s : Session) (e : Declared) (ts : List Token) :
    Except ShellError (List (Text × Expr)) := do
  match ← assignmentsFrom s e ts.length ts with
  | [] => .error .noAssignments
  | assigned => return assigned

/-! ### Insertions -/

/-- Starts an insertion. -/
def insert (s : Session) (args : Text) : Outcome :=
  match Token.scan args with
  | name :: a :: b :: c :: ts =>
    match s.entity name with
    | .error e => .refusal s e
    | .ok e =>
      let s := s.cleared
      match s.assignments e (a :: b :: c :: ts) with
      | .error err => .refusal s (.inside "insert" err)
      | .ok assigned =>
        let (p, s) := s.row e e.name
        .success { s with pending := some (.insert ⟨some p, [.new none assigned], false⟩) }
          ("  INSERT INTO " ++ e.table ++ " (" ++ Text.ofNat assigned.length ++ " values)\n")
  | _ => .refusal s (.usage "insert <entity> <field>=<value> ...")

/-- Adds another row to an insertion. -/
def values (s : Session) (args : Text) : Attempt ShellError (Session × Text) :=
  match s.pending with
  | some (.insert q) =>
    match s.entities.find? fun e => q.target.any fun p => p.type = some e.type with
    | none => .fault
    | some e =>
      match s.assignments e (Token.scan args) with
      | .error err => .fail (.inside "values" err)
      | .ok assigned =>
        let q := { q with values := q.values ++ [.new none assigned] }
        .ok ({ s with pending := some (.insert q) },
          "  Row " ++ Text.ofNat q.values.length ++ " added\n")
  | _ => .fail .noInsert

/-! ### Updates and deletions -/

/-- The tokens before and after the word `where`, which may be missing. -/
def splitWhere (ts : List Token) : List Token × Option (List Token) :=
  match Token.indexOf? ts "where" with
  | some i => (ts.take i, some (ts.drop (i + 1)))
  | none => (ts, none)

/-- The condition of a statement, if it has one. -/
def condition (s : Session) : Option (List Token) → Except ShellError (List Expr)
  | none => .ok []
  | some ts => do return [← (s.parse ts).mapError (.inside "where")]

/-- An update of an entity as tokens describe it. -/
def updateOf (s : Session) (e : Declared) (ts : List Token) :
    Except ShellError (Session × Text) := do
  let (p, s) ← s.bind e e.name
  let (assigning, condition) := splitWhere ts
  let assigned ← (s.assignments e assigning).mapError (.inside "update")
  let wheres ← s.condition condition
  return ({ s with pending := some (.update ⟨some p, .new none assigned, wheres, false⟩) },
    "  UPDATE " ++ e.table ++ " (" ++ Text.ofNat assigned.length ++ " assignments)\n")

/-- Starts an update. -/
def update (s : Session) (args : Text) : Outcome :=
  match Token.scan args with
  | name :: word :: a :: b :: c :: ts =>
    if !word.equalFold "set" then .refusal s usage
    else match s.entity name with
      | .error e => .refusal s e
      | .ok e => .ofExcept s.cleared (s.cleared.updateOf e (a :: b :: c :: ts))
  | _ => .refusal s usage
where
  /-- How an update is written. -/
  usage : ShellError := .usage "update <entity> set <field>=<expr>, ... [where <expr>]"

/-- A deletion of an entity as tokens describe it. -/
def deleteOf (s : Session) (e : Declared) (ts : List Token) :
    Except ShellError (Session × Text) := do
  let (p, s) ← s.bind e e.name
  let wheres ← match ts with
    | [] => .ok []
    | word :: rest =>
      if word.equalFold "where" then s.condition (some rest)
      else .error (.inside "delete" (.trailing word))
  return ({ s with pending := some (.delete ⟨some p, wheres, []⟩) },
    "  DELETE FROM " ++ e.table ++ "\n")

/-- Starts a deletion. -/
def delete (s : Session) (args : Text) : Outcome :=
  match Token.scan args with
  | [] => .refusal s (.usage "delete <entity> [where <expr>]")
  | name :: ts =>
    match s.entity name with
    | .error e => .refusal s e
    | .ok e => .ofExcept s.cleared (s.cleared.deleteOf e ts)

end QueryTree.Shell.Session
