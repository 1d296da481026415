import QueryTree.Shell.Script

/-!
# The command line

The program is called with a command, its arguments and flags in any order. Flags have long names
after two hyphens and some have a letter after one; letters may be put together, and values follow
an equals sign or are the next argument.

## Main definitions

* `Flag`, `Options`: the flags and what they set
* `CommandLine.parse`: what arguments ask for
* `CommandLine.run`: runs a script in a new session
-/

namespace QueryTree.Shell

/-- A flag. -/
inductive Flag where
  | verbose | dialect | schema | help
  deriving DecidableEq, Repr

namespace Flag

/-- The flags. -/
def all : List Flag := [verbose, dialect, schema, help]

/-- The long name of a flag. -/
def name : Flag → Text
  | verbose => "verbose"
  | dialect => "dialect"
  | schema => "schema"
  | help => "help"

/-- The letter of a flag. -/
def letter? : Flag → Option UInt8
  | verbose => some (byte 'v')
  | dialect => some (byte 'd')
  | schema => none
  | help => some (byte 'h')

/-- Whether the flag is a switch, which needs no value. -/
def isSwitch : Flag → Bool
  | verbose | help => true
  | dialect | schema => false

/-- The flag of a long name. -/
def ofName? (t : Text) : Option Flag := all.find? fun f => f.name = t

/-- The flag of a letter. -/
def ofLetter? (b : UInt8) : Option Flag := all.find? fun f => f.letter? = some b

/-- How messages name a flag. -/
def label (f : Flag) : Text :=
  match f.letter? with
  | some b => "-" ++ [b] ++ ", --" ++ f.name
  | none => "--" ++ f.name

end Flag

/-- What the flags set. -/
structure Options where
  verbose : Bool
  dialect : Text
  schema : Text
  help : Bool
  deriving DecidableEq, Repr

namespace Options

/-- The position of a switch. -/
def switch? (t : Text) : Option Bool :=
  let words : List (Text × Bool) := [("1", true), ("t", true), ("T", true), ("true", true),
    ("TRUE", true), ("True", true), ("0", false), ("f", false), ("F", false), ("false", false),
    ("FALSE", false), ("False", false)]
  words.lookup t

/-- The position that a switch is given. -/
def switch (f : Flag) (value : Text) : Except Text Bool :=
  match switch? value with
  | some b => .ok b
  | none => .error ("invalid argument " ++ value.quoted ++ " for " ++ f.label.quoted
      ++ " flag: strconv.ParseBool: parsing " ++ value.quoted ++ ": invalid syntax")

/-- The options with a flag set. -/
def set (o : Options) (f : Flag) (value : Text) : Except Text Options :=
  match f with
  | .verbose => do return { o with verbose := ← switch f value }
  | .help => do return { o with help := ← switch f value }
  | .dialect => .ok { o with dialect := value }
  | .schema => .ok { o with schema := value }

end Options

/-- A command of the program. -/
inductive Subcommand where
  | repl | run | dialects
  deriving DecidableEq, Repr

namespace Subcommand

/-- The commands. -/
def all : List Subcommand := [repl, run, dialects]

/-- The name of a command. -/
def name : Subcommand → Text
  | repl => "repl"
  | run => "run"
  | dialects => "dialects"

/-- The command of a name. -/
def ofName? (t : Text) : Option Subcommand := all.find? fun c => c.name = t

end Subcommand

namespace CommandLine

/-- The name of the program. -/
def program : Text := "exprql"

/-! ### Finding the command -/

/-- Whether an argument is a flag whose value is the next argument. Flags that are not known before
the command is found are taken for one, and help is known only then. -/
def takesNext (arg : Text) : Bool :=
  if arg.elem (byte '=') then false
  else if arg.hasPrefix "--" then Flag.ofName? (arg.drop 2) ≠ some .verbose
  else match arg with
    | [dash, letter] => dash = byte '-' && Flag.ofLetter? letter ≠ some .verbose
    | _ => false

/-- The arguments that are no flags, nor values of flags, up to two hyphens. A flag before the last
argument ends them. -/
def words : List Text → List Text
  | [] => []
  | [arg] => if arg.isEmpty || arg.hasPrefix "-" then [] else [arg]
  | arg :: next :: rest =>
    if arg = ("--" : Text) then []
    else if takesNext arg then if rest.isEmpty then [] else words rest
    else if arg.isEmpty || arg.hasPrefix "-" then words (next :: rest)
    else arg :: words (next :: rest)

/-- The arguments without the first that is `word` and no value of a flag. -/
def without (word : Text) : List Text → List Text
  | [] => []
  | [arg] => if arg = word && !arg.hasPrefix "-" then [] else [arg]
  | arg :: next :: rest =>
    if arg = ("--" : Text) then arg :: next :: rest
    else if takesNext arg then arg :: next :: without word rest
    else if arg = word && !arg.hasPrefix "-" then next :: rest
    else arg :: without word (next :: rest)

/-- The row of edit distances to the prefixes of a word, from the row of a prefix `before` one
letter shorter; `left` is the distance to the empty word. -/
def distanceRow (letter : UInt8) : (left : Nat) → (before : List Nat) → (word : Text) → List Nat
  | left, d :: d' :: before, c :: word =>
    let cost := if c = letter then d else 1 + min d (min d' left)
    left :: distanceRow letter cost (d' :: before) word
  | left, _, _ => [left]

/-- The number of letters to add, remove or change to make one word of another. -/
def distance (s t : Text) : Nat :=
  let first := List.range (t.length + 1)
  let rows := s.foldl (fun (i, row) c => (i + 1, distanceRow c (i + 1) row t)) (0, first)
  rows.2.getLastD 0

/-- The commands that may have been meant. -/
def suggestions (word : Text) : List Text :=
  let names : List Text := Subcommand.all.map (·.name) ++ [("completion" : Text)]
  names.filter fun n =>
    distance word.toLower n ≤ 2 || n.hasPrefix word.toLower

/-- The message about a word that is no command. -/
def unknownCommand (word : Text) : Text :=
  let meant := suggestions word
  let lines : Text → Text := fun n => "\t" ++ n ++ "\n"
  let hint : Text := if meant.isEmpty then "" else "\n\nDid you mean this?\n" ++ meant.flatMap lines
  "unknown command " ++ word.quoted ++ " for " ++ program.quoted ++ hint

/-! ### Flags -/

/-- A byte in single quotes. -/
def quotedByte (b : UInt8) : Text :=
  if b = 39 then "'\\''"
  else if b = byte '"' then "'\"'"
  else
    let inner := Text.quoted (Text.ofChar (Char.ofNat b.toNat))
    "'" ++ (inner.drop 1).dropLast ++ "'"

/-- Reads flags put together after one hyphen; `next` is the argument after them. The result tells
whether that was taken as a value. -/
def letters (o : Options) (next : Option Text) : Text → Except Text (Options × Bool)
  | [] => .ok (o, false)
  | b :: rest =>
    match Flag.ofLetter? b with
    | none =>
      .error ("unknown shorthand flag: " ++ quotedByte b ++ " in -" ++ b :: rest)
    | some f =>
      match rest with
      | [] =>
        if f.isSwitch then do return (← o.set f "true", false)
        else match next with
          | some value => do return (← o.set f value, true)
          | none =>
            .error ("flag needs an argument: " ++ quotedByte b ++ " in -" ++ [b])
      | c :: value =>
        if c = byte '=' && !value.isEmpty then do return (← o.set f value, false)
        else if f.isSwitch then do letters (← o.set f "true") next (c :: value)
        else do return (← o.set f (c :: value), false)

/-- Reads a flag with a long name; `next` is the argument after it. The result tells whether that
was taken as a value. -/
def longFlag (o : Options) (next : Option Text) (arg : Text) : Except Text (Options × Bool) :=
  let body : Text := arg.drop 2
  if body.head?.any fun b => b == byte '-' || b == byte '=' then
    .error ("bad flag syntax: " ++ arg)
  else
    let name := (body.cut? (byte '=')).map (·.1) |>.getD body
    match Flag.ofName? name, body.cut? (byte '=') with
    | none, _ => .error ("unknown flag: --" ++ name)
    | some f, some (_, value) => do return (← o.set f value, false)
    | some f, none =>
      if f.isSwitch then do return (← o.set f "true", false)
      else match next with
        | some value => do return (← o.set f value, true)
        | none => .error ("flag needs an argument: " ++ arg)

/-- Reads the flags among arguments; the result holds the other arguments. -/
def readFlags (o : Options) : List Text → Except Text (Options × List Text)
  | [] => .ok (o, [])
  | [arg] =>
    if arg.length ≤ 1 || !arg.hasPrefix "-" then .ok (o, [arg])
    else if arg = ("--" : Text) then .ok (o, [])
    else do
      let (o, _) ← if arg.hasPrefix "--" then longFlag o none arg else letters o none (arg.drop 1)
      return (o, [])
  | arg :: next :: rest =>
    if arg.length ≤ 1 || !arg.hasPrefix "-" then do
      let (o, others) ← readFlags o (next :: rest)
      return (o, arg :: others)
    else if arg = ("--" : Text) then .ok (o, next :: rest)
    else do
      let (o, taken) ← if arg.hasPrefix "--" then longFlag o (some next) arg
        else letters o (some next) (arg.drop 1)
      if taken then readFlags o rest else readFlags o (next :: rest)

/-! ### Requests -/

/-- What the program is asked to do. -/
inductive Request where
  /-- Show how the program is used. -/
  | help
  | repl (o : Options)
  | run (o : Options) (path : Text)
  | dialects
  deriving DecidableEq, Repr

/-- What a command with its flags and other arguments asks for. -/
def request (c : Subcommand) (o : Options) (args : List Text) : Except Text Request :=
  let noArguments := fun (r : Request) => match args with
    | [] => .ok r
    | a :: _ =>
      .error ("unknown command " ++ a.quoted ++ " for " ++ (program ++ " " ++ c.name).quoted)
  if o.help then .ok .help
  else match c, args with
    | .repl, _ => noArguments (.repl o)
    | .dialects, _ => noArguments .dialects
    | .run, [path] => .ok (.run o path)
    | .run, _ => .error ("accepts 1 arg(s), received " ++ Text.ofNat args.length)

/-- What arguments ask for, given the options that hold without flags. -/
def parse (defaults : Options) (args : List Text) : Except Text Request :=
  match words args with
  | [] => do
    let _ ← readFlags defaults args
    return .help
  | word :: _ =>
    match Subcommand.ofName? word with
    | none =>
      if word = ("help" : Text) || word = ("completion" : Text) then .ok .help
      else .error (unknownCommand word)
    | some c => do
      let (o, others) ← readFlags defaults (without word args)
      request c o others

/-! ### Running -/

/-- The dialects and their drivers. -/
def dialectList : Text :=
  Dialect.all.flatMap fun d =>
    Text.padRight 10 d.name ++ " driver: " ++ (Database.driver? d).getD "-" ++ "\n"

/-- The dialect that is asked for. -/
def dialectOf (o : Options) : Except ShellError Dialect :=
  if o.dialect.isEmpty then .ok .postgres
  else match Dialect.parse? o.dialect with
    | some d => .ok d
    | none => .error (.unknownDialect o.dialect)

/-- A new session with the schema that is asked for. -/
def openSession {m : Type → Type} [Monad m] (h : Host m) (o : Options) : m Outcome :=
  match dialectOf o with
  | .error e => pure (.refusal (.new .postgres) e)
  | .ok d =>
    if o.schema.isEmpty then pure (.success (.new d) [])
    else h.perform (Session.load (.new d) o.schema)

/-- The outcome of a step after an outcome, unless that stopped. -/
def andThen {m : Type → Type} [Monad m] (o : Outcome) (next : Session → m Outcome) : m Outcome :=
  match o.stop with
  | some _ => pure o
  | none => do
    let after ← next o.session
    return { after with output := o.output ++ after.output }

/-- Connects to the database that is named outside of the arguments, if one is. -/
def openDatabase {m : Type → Type} [Monad m] (h : Host m) (url : Text) (s : Session) :
    m Outcome := do
  if url.isEmpty then return .success s []
  else
    let o ← h.perform (s.runLine ("connect " ++ url))
    match o.stop with
    | some (.error e) => return { o with stop := some (.error (.inside "DATABASE_URL" e)) }
    | _ => return o

/-- Runs the script at a path in a new session. -/
def run {m : Type → Type} [Monad m] (h : Host m) (o : Options) (url path : Text) :
    m Outcome := do
  andThen (← openSession h o) fun s => do
    andThen (← openDatabase h url s) fun s => do
      match ← h.perform (.read path id) with
      | .error message => return .refusal s (.reported message)
      | .ok script => s.runScript h path script

end CommandLine

end QueryTree.Shell
