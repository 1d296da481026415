import QueryTree.Shell.CommandLine

/-!
# The program

Runs the command line on the files and streams of the machine. There are no database drivers, so
connections are refused.
-/

namespace QueryTree

open Shell

/-- The bytes of a text. -/
def Text.toByteArray (t : Text) : ByteArray := ⟨t.toArray⟩

namespace Program

/-- What is reported about a file that cannot be used. -/
def fileMessage (path : Text) : IO.Error → Text
  | .noFileOrDirectory .. => "open " ++ path ++ ": no such file or directory"
  | .permissionDenied .. => "open " ++ path ++ ": permission denied"
  | .inappropriateType .. => "read " ++ path ++ ": is a directory"
  | e => "open " ++ path ++ ": " ++ Text.ofString e.toString

/-- Reads a file. -/
def readFile (path : Text) : IO (Except Text Text) := do
  try
    let content ← IO.FS.readBinFile path.toString
    return .ok content.data.toList
  catch e => return .error (fileMessage path e)

/-- Writes a file. -/
def writeFile (path content : Text) : IO (Except Text Unit) := do
  try
    IO.FS.writeBinFile path.toString content.toByteArray
    return .ok ()
  catch e => return .error (fileMessage path e)

/-- The message that there is no database. -/
def noDriverMessage : Text := "open: no database drivers are available"

/-- Carries out plans on the machine. -/
def host : Host IO where
  perform
    | .done a => return a
    | .read path next => return next (← readFile path)
    | .write path content next => return next (← writeFile path content)
    | .query _ _ next => return next (.error noDriverMessage)
    | .execute _ _ next => return next (.error noDriverMessage)
    | .connect _ _ next => return next (.error noDriverMessage)

/-- Prints a text. -/
def put (t : Text) : IO Unit := do
  let out ← IO.getStdout
  out.write t.toByteArray
  out.flush

/-- Prints a message about an error. -/
def putError (t : Text) : IO Unit := do
  let err ← IO.getStderr
  err.write t.toByteArray

/-- The message about why something stopped. -/
def stopMessage : Stop ShellError → Text
  | .error e => e.message
  | .fault => "internal error"

/-- Runs the lines that are typed until one of them leaves or there are no more. -/
partial def repl (s : Session) : IO Unit := do
  put "exprql> "
  let line ← (← IO.getStdin).getLine
  let word := (Text.ofString line).trimSpace.toLower
  if line.isEmpty || word = ("exit" : Text) || word = ("quit" : Text) then put "\n"
  else
    let o ← host.perform (s.runLine line)
    put o.output
    match o.stop with
    | some stop => putError ("  Error: " ++ stopMessage stop ++ "\n")
    | none => pure ()
    repl o.session

/-- The value of an environment variable, empty if it is not set. -/
def variable_ (name : String) : IO Text := do
  return ((← IO.getEnv name).map Text.ofString).getD []

/-- How the program is called. -/
def usage : Text :=
  "usage: exprql [-v] [-d dialect] [--schema file] repl | run <script> | dialects\n"

/-- Prints what an outcome says; the result is the exit code. -/
def finish (o : Outcome) : IO UInt32 := do
  put o.output
  match o.stop with
  | none => return 0
  | some stop =>
    putError ("Error: " ++ stopMessage stop ++ "\n")
    return 1

/-- Does what the arguments ask for. -/
def run (args : List Text) : IO UInt32 := do
  let defaults : Options :=
    ⟨false, ← variable_ "EXPRQL_DIALECT", ← variable_ "EXPRQL_SCHEMA", false⟩
  match CommandLine.parse defaults args with
  | .error m =>
    putError ("Error: " ++ m ++ "\n")
    return 1
  | .ok .help =>
    put usage
    return 0
  | .ok .dialects =>
    put CommandLine.dialectList
    return 0
  | .ok (.run o path) => finish (← CommandLine.run host o (← variable_ "DATABASE_URL") path)
  | .ok (.repl o) => do
    let opened ← CommandLine.openSession host o
    match opened.stop with
    | some _ => finish opened
    | none =>
      put (opened.output ++ "\nexprql - type 'help' for commands, 'exit' to quit\n\n")
      repl opened.session
      return 0

end Program

end QueryTree

/-- The program. -/
def main (args : List String) : IO UInt32 :=
  QueryTree.Program.run (args.map QueryTree.Text.ofString)
