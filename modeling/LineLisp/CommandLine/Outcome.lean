/-
  LineLisp.CommandLine.Outcome

  A whole run of the program, as a function of the command line and of what it
  finds around it: the variables of the environment, the directory, the standard
  input, and whether there is a terminal at either end.
-/
import LineLisp.CommandLine.Directory
import LineLisp.CommandLine.Options
import LineLisp.Settings
import LineLisp.Shell

namespace LineLisp.CommandLine

/-- What a command line comes to: a text and an exit code, or lines to be run
    from a file or from the standard input. -/
inductive Plan where
  | stop (code : Nat) (output errors : String)
  | run (file : Option String) (settings : Settings)
  deriving DecidableEq, Repr

/-- The settings of the environment, overridden by a request. An empty name of a
    log level overrides nothing. -/
def settle (settings : Settings) (request : Request) : Settings where
  trace := settings.trace || request.trace
  color := settings.color && !request.noColor
  prompt := settings.prompt
  logLevel :=
    match request.logLevel with
    | some name => if name.isEmpty then settings.logLevel else Text.upper name
    | none => settings.logLevel

/-- What a command line comes to. -/
def plan (args : List String) (env : Variables) : Plan :=
  match readOptions args with
  | .ok request => .run request.file (settle (Settings.load env) request)
  | .error .help => .stop 0 helpText ""
  | .error .version => .stop 0 versionText ""
  | .error (.usage message) => .stop 2 "" (usageError message)

/-- Whether errors are written in colour. -/
def inColor (settings : Settings) (env : Variables) (terminal : Bool) : Bool :=
  settings.color && env.allowColor terminal

/-- The console of a run: a file and an input that is no terminal are run
    without intro and prompts. -/
def consoleOf (settings : Settings) (file : Option String) (interactive : Bool) : Console :=
  if file.isNone && interactive then ⟨Console.defaultIntro, settings.prompt, true⟩
  else .silent

/-- How a run ended. -/
inductive Ending where
  | finished
  | stopped (code : Nat)
  | unread (path : String) (fault : PathFault)
  | escaped (fault : Fault (Value Empty))
  deriving DecidableEq, Repr

/-- What a run wrote and how it ended. -/
structure Outcome where
  ending : Ending
  output : String
  errors : String
  deriving DecidableEq, Repr

/-- What a run finds around it. The output may go to a terminal, and the input may
    come from one; it does if nothing else is said. -/
structure Surroundings where
  env : Variables
  directory : Directory
  input : String
  terminal : Bool
  interactive : Bool := terminal

/-- The log of a report, as far as the settings show it. -/
def shownLog (settings : Settings) (log : List LogEntry) : String :=
  if settings.showsLog then String.join (log.map fun entry => asLine entry.text) else ""

/-- Runs the lines of a text. -/
def runText (settings : Settings) (env : Variables) (terminal : Bool)
    (console : Console) (text : String) : Outcome :=
  let (session, s) := Session.start (Store.empty : Store (Value Empty))
  let shell : Shell := ⟨session, settings.trace⟩
  let (report, _) := shell.run console [] (Text.universalLines text) s
  { ending := match report.escaped with
      | some fault => .escaped fault
      | none => .finished
    output := report.text (inColor settings env terminal)
    errors := shownLog settings report.log }

/-- Runs the program. -/
def run (args : List String) (around : Surroundings) : Outcome :=
  match plan args around.env with
  | .stop code output errors => ⟨.stopped code, output, errors⟩
  | .run none settings =>
    let console := consoleOf settings none around.interactive
    runText settings around.env around.terminal console around.input
  | .run (some file) settings =>
    match around.directory.read file with
    | .ok text =>
      let console := consoleOf settings (some file) around.interactive
      runText settings around.env around.terminal console text
    | .error fault => ⟨.unread file fault, "", ""⟩

end LineLisp.CommandLine
