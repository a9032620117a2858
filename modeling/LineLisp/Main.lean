/-
  LineLisp.Main

  The program: runs a file or the standard input line by line. On a terminal
  each line is answered before the next one is asked for.
-/
import LineLisp.CommandLine.Outcome

namespace LineLisp.CommandLine

/-- The variables of the environment that have a meaning. -/
def readVariables : IO Variables := do
  let pairs ← Variables.names.filterMapM fun name => do
    return (← IO.getEnv name).map fun value => (name, value)
  return Variables.ofList pairs

/-- The fault of a path that could not be read. -/
def faultOf : IO.Error → PathFault
  | .inappropriateType _ code _ => if code = 20 then .notDirectory else .isDirectory
  | .invalidArgument .. => .tooLong
  | _ => .missing

/-- The text of a file. -/
def readText (path : String) : IO (Except PathFault String) := do
  try
    return .ok (← IO.FS.readFile path)
  catch e =>
    return .error (faultOf e)

/-- Writes the text of a run and ends with its exit code. -/
def finish (outcome : Outcome) : IO UInt32 := do
  IO.print outcome.output
  IO.eprint outcome.errors
  match outcome.ending with
  | .finished => return 0
  | .stopped code => return UInt32.ofNat code
  | .unread path fault =>
    IO.eprintln (fault.message path)
    return 1
  | .escaped fault =>
    IO.eprintln fault.message
    return 1

/-- Answers lines from a terminal up to the end of the input. -/
partial def converse (settings : Settings) (color : Bool) (shell : Shell) (console : Console)
    (s : Store (Value Empty)) : IO UInt32 := do
  let say (pieces : List Piece) : IO Unit := do
    IO.print (String.join (pieces.map (Piece.text color)))
    (← IO.getStdout).flush
  say console.asking
  let line ← (← IO.getStdin).getLine
  if line.isEmpty then
    say console.ended
    return 0
  let (report, s) := shell.command ((Text.universalLines line).headD "") s
  say report.pieces
  IO.eprint (shownLog settings report.log)
  match report.escaped with
  | some fault =>
    IO.eprintln fault.message
    return 1
  | none => converse settings color shell console s

end LineLisp.CommandLine

open LineLisp LineLisp.CommandLine

/-- Runs the program on the words of the command line. -/
def main (args : List String) : IO UInt32 := do
  let env ← readVariables
  let stdin ← IO.getStdin
  match plan args env with
  | .stop code output errors => finish ⟨.stopped code, output, errors⟩
  | .run (some file) settings =>
    let terminal ← (← IO.getStdout).isTty
    let console := consoleOf settings (some file) (← stdin.isTty)
    match ← readText file with
    | .ok text => finish (runText settings env terminal console text)
    | .error fault => finish ⟨.unread file fault, "", ""⟩
  | .run none settings =>
    if ← stdin.isTty then
      let (session, s) := Session.start (Store.empty : Store (Value Empty))
      let console := consoleOf settings none true
      let color := inColor settings env (← (← IO.getStdout).isTty)
      IO.print (String.join (console.opening.map (Piece.text color)))
      converse settings color ⟨session, settings.trace⟩ console s
    else
      let terminal ← (← IO.getStdout).isTty
      let console := consoleOf settings none false
      finish (runText settings env terminal console (← stdin.readToEnd))
