import QueryTree.Shell.Session

/-!
# Plans

Most commands are answered from the session alone. A few need something from outside: a file, or a
database. A plan is what a command does: either its outcome, or one request with what follows from
each answer. Whoever carries out plans answers the requests, so that the commands themselves stay
functions of sessions.

## Main definitions

* `Rows`, `Effect`: what databases answer
* `Plan`, `Plan.map`
* `Outcome`: what a command leaves behind
-/

namespace QueryTree.Shell

/-- The rows that answer a query. `failure` is what went wrong after the last of them. -/
structure Rows where
  columns : List Text
  rows : List (List Value)
  failure : Option Text

/-- What a statement did: the number of rows it changed, or why that is unknown. -/
inductive Effect where
  | affected (n : Int)
  | unknown (message : Text)

/-- The outcome of a command, or a request that it depends on. Requests fail with a message. -/
inductive Plan (α : Type) where
  | done (a : α)
  | read (path : Text) (next : Except Text Text → α)
  | write (path content : Text) (next : Except Text Unit → α)
  | query (sql : Text) (args : List Value) (next : Except Text Rows → α)
  | execute (sql : Text) (args : List Value) (next : Except Text Effect → α)
  /-- Opens a database; the answer lists its tables. -/
  | connect (dialect : Dialect) (dsn : Text) (next : Except Text (List Text) → α)

/-- The plan with its outcome mapped. -/
def Plan.map {α β : Type} (f : α → β) : Plan α → Plan β
  | done a => .done (f a)
  | read path next => .read path (f ∘ next)
  | write path content next => .write path content (f ∘ next)
  | query sql args next => .query sql args (f ∘ next)
  | execute sql args next => .execute sql args (f ∘ next)
  | connect d dsn next => .connect d dsn (f ∘ next)

/-- What a command leaves behind: the session, what it printed, and why it stopped if it did. -/
structure Outcome where
  session : Session
  output : Text
  stop : Option (Stop ShellError)

namespace Outcome

/-- A command that succeeded. -/
def success (s : Session) (output : Text) : Outcome := ⟨s, output, none⟩

/-- A command that was refused. -/
def refusal (s : Session) (e : ShellError) : Outcome := ⟨s, [], some (.error e)⟩

/-- The outcome of an attempt; the session stays as it was if the attempt stops. -/
def ofAttempt (s : Session) : Attempt ShellError (Session × Text) → Outcome
  | .ok (s, output) => .success s output
  | .error stop => ⟨s, [], some stop⟩

/-- The outcome of a change that may be refused; the session then stays as it was. -/
def ofExcept (s : Session) : Except ShellError (Session × Text) → Outcome
  | .ok (s, output) => .success s output
  | .error e => .refusal s e

/-- The outcome of something that leaves the session alone. -/
def ofReport (s : Session) : Attempt ShellError Text → Outcome
  | .ok output => .success s output
  | .error stop => ⟨s, [], some stop⟩

end Outcome

end QueryTree.Shell
