import QueryTree.Shell.World

/-!
# Scripts

A script is a file of commands, one on each line. The first line that is refused ends it, and the
error names the line.

## Main definitions

* `Script.lines`: the lines of a text
* `Session.runLines`: runs lines one after the other
* `Session.runScript`: runs a script
-/

namespace QueryTree.Shell

namespace Script

/-- The line without a carriage return at its end. -/
def trimReturn (t : Text) : Text := t.trimSuffix "\r"

/-- The lines of a text. A line break at the end begins no line. -/
def lines (t : Text) : List Text :=
  let parts := t.splitByte (byte '\n')
  (if parts.getLast? = some [] then parts.dropLast else parts).map trimReturn

/-- The length from which on lines are too long to be read. -/
def maxLine : Nat := 65536

end Script

namespace Session

/-- Runs lines one after the other, up to the first that is refused; `number` is that of the first
line. -/
def runLines {m : Type → Type} [Monad m] (h : Host m) (name : Text) :
    Session → (number : Nat) → List Text → m Outcome
  | s, _, [] => pure (.success s [])
  | s, number, line :: rest => do
    if Script.maxLine ≤ line.length then
      return .refusal s (.reported "bufio.Scanner: token too long")
    let o ← h.perform (s.runLine line)
    match o.stop with
    | some (.error e) =>
      return { o with stop := some (.error (.inside (name ++ ":" ++ Text.ofNat number) e)) }
    | some .fault => return o
    | none =>
      let after ← runLines h name o.session (number + 1) rest
      return { after with output := o.output ++ after.output }

/-- Runs a script. -/
def runScript {m : Type → Type} [Monad m] (h : Host m) (s : Session) (name script : Text) :
    m Outcome :=
  s.runLines h name 1 (Script.lines script)

end Session

end QueryTree.Shell
