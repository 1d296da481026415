import QueryTree.Shell.Command
import QueryTree.Shell.Session

/-!
# Completion

What may follow a line that is being typed. A line that begins with a keyword is completed by what
the arguments of the keyword are made of, any other one by keywords. Candidates are compared with
the typed word in lower case, and the part of a candidate that is offered begins after as many
bytes as the typed word has.

## Main definitions

* `Completion.Context`, `Completion.context`: what is being typed
* `Session.complete`: what may follow it
-/

namespace QueryTree.Shell

namespace Completion

/-- What kind of word is being typed. -/
inductive Context where
  | command | entity | reference | dialect | direction | operator
  deriving DecidableEq, Repr

/-- Whether the last word before a space is a member of a row. -/
def afterMember (args : Text) : Bool :=
  (args.fields.getLast?).any fun w => w.elem (byte '.')

/-- What is typed in an expression; `next` is what follows a member of a row. -/
def inExpression (next : Context) (args : Text) : Context × Text :=
  if args.hasSuffix " " then (if afterMember args then next else .reference, [])
  else (.reference, Token.lastWord args)

/-- What is typed in the arguments of a command. -/
def inArguments (kind : ArgumentKind) (args : Text) : Context × Text :=
  match kind with
  | .entity => if args.elem (byte ' ') then inExpression .operator args else (.entity, args)
  | .join => if args.elem (byte ' ') then inExpression .reference args else (.entity, args)
  | .expression => inExpression .operator args
  | .ordering => inExpression .direction args
  | .dialect => (.dialect, args.trimSpace)

/-- What is being typed at the end of a line, and the word so far. -/
def context (line : Text) : Context × Text :=
  let lower := line.toLower
  let found := Keyword.all.find? fun k =>
    k.takesArguments && k.arguments.isSome && lower.hasPrefix k.text
  match found with
  | some ⟨text, _, some kind, _⟩ => inArguments kind (line.drop text.length)
  | _ => (.command, line.trimSpace)

/-- The items that begin with a word, in any case. -/
def startingWith (items : List Text) (word : Text) : List Text :=
  items.filter fun item => item.toLower.hasPrefix word.toLower

/-- The names of commands, in order. -/
def commandNames : List Text :=
  let names := ((Keyword.all.filter fun k => !k.hidden).map (·.name)).eraseDups
  let leaving : List Text := ["exit", "quit"]
  Text.sort (names ++ leaving)

/-- The directions. -/
def directions : List Text := ["asc", "desc"]

/-- The operators. -/
def operators : List Text :=
  ["!=", "%", "*", "+", "-", "/", "<", "<=", "<>", "=", ">", ">=",
    "and", "in", "is", "like", "not", "or"]

/-- The functions. -/
def functions : List Text :=
  ["avg(", "count(", "lower(", "max(", "min(", "sum(", "trim(", "upper("]

/-- What is offered of a candidate after the typed word: the rest, with a space unless a bracket
opens. None if the word is longer than the candidate. -/
def offered? (word candidate : Text) : Option Text :=
  if candidate.length < word.length then none
  else
    let rest := candidate.drop word.length
    some (if candidate.hasSuffix "(" then rest else rest ++ [byte ' '])

end Completion

namespace Session

open Completion

/-- The references that begin with a word: aliases and functions, or the members of a row. -/
def references (s : Session) (word : Text) : List Text :=
  match word.cut? (byte '.') with
  | some (name, _) =>
    match s.aliases.lookup name with
    | none => []
    | some (_, e) => startingWith (e.members.map fun m => name ++ "." ++ Mapping.snake m) word
  | none => startingWith (Text.sort (s.aliases.map (·.1))) word ++ startingWith functions word

/-- The candidates for a word. -/
def candidates (s : Session) (c : Context) (word : Text) : List Text :=
  match c with
  | .command => startingWith commandNames word
  | .entity => startingWith (Text.sort (s.entities.map fun e => e.name.toLower)) word
  | .reference => s.references word
  | .dialect => startingWith Dialect.names word
  | .direction => startingWith directions word
  | .operator => startingWith operators word

/-- What may follow a line, and the number of characters of the word that it completes. It faults
if the typed word is longer than a candidate. -/
def complete (s : Session) (line : Text) : Attempt Empty (List Text × Nat) :=
  let (c, word) := Completion.context line
  match (s.candidates c word).mapM (offered? word) with
  | some offers => .ok (offers, word.runeCount)
  | none => .fault

end Session

end QueryTree.Shell
