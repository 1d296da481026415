import QueryTree.Shell.Error
import QueryTree.Statement.Basic

/-!
# Commands

A line of the command language begins with a keyword. A keyword that ends in a space is followed
by arguments; any other one is the whole line. No keyword with arguments begins with another one,
so a line is at most one command. Keywords are matched in any case, and the arguments are what
follows as many bytes as the keyword has.

## Main definitions

* `Verb`: what a command does
* `Keyword`, `Keyword.all`
* `Command`, `Command.read`: the command of a line
-/

namespace QueryTree.Shell

/-- What a command does. -/
inductive Verb where
  | sql | inline | all | dot | reset | help
  | entity | load | entities
  | source | select | distinct | filter | group | having | order | limit | offset
  | join (kind : JoinKind)
  | insert | values | update | delete
  | dialect | quoted | softDelete | policy | plugins
  | connect | disconnect | execute
  deriving DecidableEq, Repr

/-- What the arguments of a command are made of, for their completion. -/
inductive ArgumentKind where
  /-- The name of an entity, then an expression. -/
  | entity
  /-- The name of an entity, then an expression that is not followed by operators. -/
  | join
  | expression
  /-- An expression that may be followed by a direction. -/
  | ordering
  | dialect
  deriving DecidableEq, Repr

/-- A keyword that begins commands. -/
structure Keyword where
  text : Text
  verb : Verb
  arguments : Option ArgumentKind
  /-- Whether the keyword is one among others for its command and not offered. -/
  hidden : Bool

namespace Keyword

/-- The keywords. -/
def all : List Keyword :=
  [⟨"sql", .sql, none, false⟩, ⟨"inline", .inline, none, false⟩, ⟨"all", .all, none, false⟩,
    ⟨"dot ", .dot, none, false⟩, ⟨"dot", .dot, none, false⟩, ⟨"reset", .reset, none, false⟩,
    ⟨"help", .help, none, false⟩,
    ⟨"entity ", .entity, none, false⟩, ⟨"load ", .load, none, false⟩,
    ⟨"entities", .entities, none, false⟩,
    ⟨"from ", .source, some .entity, false⟩, ⟨"select ", .select, some .expression, false⟩,
    ⟨"distinct", .distinct, none, false⟩, ⟨"where ", .filter, some .expression, false⟩,
    ⟨"group ", .group, some .expression, false⟩, ⟨"having ", .having, some .expression, false⟩,
    ⟨"order ", .order, some .ordering, false⟩, ⟨"limit ", .limit, none, false⟩,
    ⟨"offset ", .offset, none, false⟩,
    ⟨"join ", .join .inner, some .join, false⟩,
    ⟨"inner join ", .join .inner, some .join, true⟩,
    ⟨"left join ", .join .left, some .join, false⟩,
    ⟨"right join ", .join .right, some .join, false⟩,
    ⟨"full join ", .join .full, some .join, false⟩,
    ⟨"insert ", .insert, some .entity, false⟩, ⟨"values ", .values, some .expression, false⟩,
    ⟨"update ", .update, some .entity, false⟩, ⟨"delete ", .delete, some .entity, false⟩,
    ⟨"dialect ", .dialect, some .dialect, false⟩, ⟨"dialect", .dialect, none, false⟩,
    ⟨"quoted ", .quoted, none, false⟩, ⟨"softdelete ", .softDelete, none, false⟩,
    ⟨"softdelete", .softDelete, none, false⟩, ⟨"policy ", .policy, some .entity, false⟩,
    ⟨"plugins", .plugins, none, false⟩,
    ⟨"connect ", .connect, none, false⟩, ⟨"connect", .connect, none, false⟩,
    ⟨"disconnect", .disconnect, none, false⟩, ⟨"exec", .execute, none, false⟩]

/-- Whether arguments follow the keyword. -/
def takesArguments (k : Keyword) : Bool := k.text.hasSuffix " "

/-- Whether a line in lower case is a command of the keyword. -/
def begins (k : Keyword) (line : Text) : Bool :=
  if k.takesArguments then line.hasPrefix k.text else line = k.text

/-- The keyword without the space after it. -/
def name (k : Keyword) : Text := k.text.dropEndWhile (· == byte ' ')

end Keyword

/-- A command with its arguments. -/
structure Command where
  verb : Verb
  arguments : Text
  deriving DecidableEq, Repr

/-- The command of a line; none if the line is empty or a comment. -/
def Command.read (line : Text) : Except ShellError (Option Command) :=
  let line := line.trimSpace
  if line.isEmpty || line.hasPrefix "#" || line.hasPrefix "--" then .ok none
  else match Keyword.all.find? fun k => k.begins line.toLower with
    | some k => .ok (some ⟨k.verb, Text.trimSpace (line.drop k.text.length)⟩)
    | none => .error (.unknownCommand (line.fields.headD []))

end QueryTree.Shell
