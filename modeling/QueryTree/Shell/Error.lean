import QueryTree.Dialect.Basic
import QueryTree.Shell.Grammar
import QueryTree.Statement.Error

/-!
# Errors of commands

Why a command is refused. An error inside a part of a command carries the name of the part.
-/

namespace QueryTree.Shell

/-- Why a command is refused. -/
inductive ShellError where
  | unknownCommand (word : Text)
  /-- A command that is written wrongly, with the way to write it. -/
  | usage (form : Text)
  | noQuery
  | noDatabase
  | unknownDialect (name : Text)
  /-- The dialect cannot change while connected to a database of another one. -/
  | otherDatabase (connected : Dialect)
  | noDriver (dialect : Dialect)
  | definition (cause : DefinitionError)
  | alreadyDefined (entity : Text)
  | unknownEntity (name : Text)
  | entityAndAlias
  | aliasTaken (name : Text)
  | aliasName (name : Text)
  | parse (cause : ParseError)
  | nameAfterAs
  | assignmentShape (token : Token)
  | noAssignments
  | noInsert
  | whereInInsert
  | trailing (token : Token)
  | notHiding
  | fieldPair (pair : Text)
  | statement (cause : StatementError)
  /-- What the file system or a database reports. -/
  | reported (message : Text)
  /-- An error inside a part of a command. -/
  | inside (part : Text) (cause : ShellError)
  deriving DecidableEq

namespace ShellError

/-- The message of a shell error. -/
def message : ShellError → Text
  | unknownCommand word => "unknown command: " ++ word ++ " (type 'help' for commands)"
  | usage form => "usage: " ++ form
  | noQuery => "no query defined (use 'from <entity> <alias>' first)"
  | noDatabase => "not connected (use 'connect <dsn>' first)"
  | unknownDialect name => Dialect.unknownMessage name
  | otherDatabase d => "connected to a " ++ d.name ++ " database (disconnect first)"
  | noDriver d => "no driver for dialect " ++ d.name
  | definition e => e.message
  | alreadyDefined entity => "entity " ++ entity ++ " is already defined"
  | unknownEntity name => "unknown entity " ++ name ++ " (use 'entity' or 'load' first)"
  | entityAndAlias => "expected <entity> [alias]"
  | aliasTaken name => "alias " ++ name ++ " is already in use"
  | aliasName name => "invalid alias " ++ name.quoted
  | parse e => e.message
  | nameAfterAs => "expected a single name after as"
  | assignmentShape t => "expected <field>=<value> at " ++ t.quoted
  | noAssignments => "no assignments"
  | noInsert => "no INSERT defined (use 'insert <entity> ...' first)"
  | whereInInsert => "where does not apply to INSERT"
  | trailing t => "unexpected " ++ t.quoted
  | notHiding => "softdelete is not enabled"
  | fieldPair pair => "invalid table.field pair: " ++ pair.quoted
  | statement e => e.message
  | reported m => m
  | inside part cause => part ++ ": " ++ cause.message

/-- The classes of a shell error. -/
def classes : ShellError → List ErrorClass
  | noQuery => [.noQuery]
  | noDatabase => [.noDatabase]
  | definition e => e.classes
  | parse e => e.classes
  | statement e => e.classes
  | inside _ cause => cause.classes
  | _ => []

end ShellError

end QueryTree.Shell
