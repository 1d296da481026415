import QueryTree.Shell.Run

/-!
# Carrying out plans

A host carries out plans. The world of this module is a host without any effects: a directory of
files and a database that answers from a list. Sessions can be run in it to see what they print,
what they write and what they ask of the database.

## Main definitions

* `Host`: carries out plans in a monad
* `World`, `World.carryOut`, `World.host`
-/

namespace QueryTree.Shell

/-- Something that carries out plans. -/
structure Host (m : Type → Type) where
  perform : {α : Type} → Plan α → m α

/-- What a database answers to a request. -/
inductive Reply where
  | rows (r : Rows)
  | effect (e : Effect)
  | failure (message : Text)

/-- Files, the answers that a database has left, and what it has been asked. -/
structure World where
  files : List (Text × Text)
  replies : List Reply
  asked : List (Text × List Value)

namespace World

/-- Whether the path names a directory. -/
def isDirectory (path : Text) : Bool :=
  path = ("." : Text) || path = (".." : Text) || path = ("/" : Text)

/-- The content of a file. -/
def read (w : World) (path : Text) : Except Text Text :=
  match w.files.lookup path with
  | some content => .ok content
  | none =>
    if isDirectory path then .error ("read " ++ path ++ ": is a directory")
    else .error ("open " ++ path ++ ": no such file or directory")

/-- The world with a file written. There are no directories to write into but the one. -/
def write (w : World) (path content : Text) : Except Text World :=
  if isDirectory path then .error ("open " ++ path ++ ": is a directory")
  else if path.elem (byte '/') then .error ("open " ++ path ++ ": no such file or directory")
  else .ok { w with files := (path, content) :: w.files.filter fun f => f.1 ≠ path }

/-- The next answer of the database. -/
def ask (w : World) (sql : Text) (args : List Value) : Reply × World :=
  (w.replies.headD (.failure "no result left"),
    { w with replies := w.replies.drop 1, asked := w.asked ++ [(sql, args)] })

/-- The rows of an answer. -/
def rowsOf : Reply → Except Text Rows
  | .rows r => .ok r
  | .effect _ => .ok ⟨[], [], none⟩
  | .failure m => .error m

/-- The effect of an answer. -/
def effectOf : Reply → Except Text Effect
  | .rows _ => .ok (.affected 0)
  | .effect e => .ok e
  | .failure m => .error m

/-- Carries out a plan. No new connection can be made. -/
def carryOut {α : Type} (w : World) : Plan α → α × World
  | .done a => (a, w)
  | .read path next => (next (w.read path), w)
  | .write path content next =>
    match w.write path content with
    | .ok w => (next (.ok ()), w)
    | .error m => (next (.error m), w)
  | .query sql args next =>
    let (reply, w) := w.ask sql args
    (next (rowsOf reply), w)
  | .execute sql args next =>
    let (reply, w) := w.ask sql args
    (next (effectOf reply), w)
  | .connect _ _ next => (next (.error "ping: no database"), w)

/-- The world as a host. -/
def host : Host (StateM World) := ⟨fun p w => w.carryOut p⟩

end World

end QueryTree.Shell
