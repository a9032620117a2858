/-
  LineLisp.Shell

  The shell: lines are fed to a session one by one, and for each it is written
  what came of it. Values are written as soon as they are there. A fault is
  written as an error and ends its line, not the shell. Only an integer that
  cannot be written ends more than its line: it escapes, and so do the faults
  that no line of text can cause. The lines come from a queue and then from the
  input; a loop takes them turn by turn until the input has ended.
-/
import LineLisp.Session
import LineLisp.Text.Lines

namespace LineLisp

/-- An entry of the log: the part of the program that it is filed under, and
    what it says. -/
structure LogEntry where
  logger : String
  message : String
  deriving DecidableEq, Repr

/-- An entry as a line of the log. -/
def LogEntry.text (entry : LogEntry) : String :=
  "DEBUG " ++ entry.logger ++ ": " ++ entry.message

/-- A text with a line end. -/
def asLine (text : String) : String := text ++ "\n"

/-- A piece of what a shell writes: text as it stands, or the line of an error,
    whose first word may be in colour. -/
inductive Piece where
  | plain (text : String)
  | error (message : String)
  deriving DecidableEq, Repr

namespace Piece

/-- A line of text. -/
def line (text : String) : Piece := .plain (asLine text)

/-- The word before an error. -/
def label (color : Bool) : String :=
  if color then "\x1b[1m\x1b[31merror: \x1b[0m" else "error: "

/-- The text of a piece. -/
def text (color : Bool) : Piece → String
  | .plain text => text
  | .error message => asLine (label color ++ message)

end Piece

/-- What came of some lines: the pieces written, the entries of the log, and the
    fault that escaped, if one did. -/
structure Report (η : Type) where
  pieces : List Piece
  log : List LogEntry
  escaped : Option (Fault (Value η))

namespace Report

variable {η : Type}

/-- The report of lines that did nothing. -/
def empty : Report η := ⟨[], [], none⟩

/-- Pieces ahead of those of a report. -/
def after (pieces : List Piece) (report : Report η) : Report η :=
  { report with pieces := pieces ++ report.pieces }

/-- Entries of the log ahead of those of a report. -/
def logged (entries : List LogEntry) (report : Report η) : Report η :=
  { report with log := entries ++ report.log }

/-- What is done after the lines of a report, unless a fault escaped from
    them. -/
def andThen {σ : Type} (first : Report η × σ) (next : σ → Report η × σ) : Report η × σ :=
  if first.1.escaped.isSome then first
  else
    let (second, s) := next first.2
    ((second.logged first.1.log).after first.1.pieces, s)

/-- The text that was written. -/
def text (color : Bool) (report : Report η) : String :=
  String.join (report.pieces.map (Piece.text color))

end Report

/-- A session, and whether the tokens and expressions of its lines are shown. -/
structure Shell where
  session : Session
  trace : Bool
  deriving DecidableEq, Repr

namespace Shell

variable {η : Type}

/-- The entry for an expression that was compiled. There is none when an integer
    in it cannot be written. -/
def compiledLog? (e : Expr) (node : Node) : Option LogEntry := do
  let text ← Written.text? e
  let dump ← node.dump?
  return ⟨"toylisp.interpreter", "compiled " ++ text ++ " -> " ++ dump⟩

/-- The entry for an expression that was run. There is none when an integer in
    it or in its value cannot be written. -/
def evaluatedLog? (e : Expr) (value : Value η) : Option LogEntry := do
  let text ← Written.text? e
  let result ← Written.text? value
  return ⟨"toylisp.interpreter", "evaluated " ++ text ++ " => " ++ result⟩

/-- The report of a line that a fault ended. A fault without a name in the log
    escapes, unless it is a lack of room. -/
def faultReport (line : String) (fault : Fault (Value η)) : Report η :=
  let fault := fault.settled
  let logger := "toylisp.interpreter.shell"
  if fault.isOverflow then
    ⟨[.error "maximum recursion depth exceeded"],
      [⟨logger, "line " ++ Text.quoted line ++ " exceeded the recursion limit"⟩], none⟩
  else match fault.logName? with
    | some name =>
      ⟨[.error fault.message],
        [⟨logger, "line " ++ Text.quoted line ++ " failed: " ++ name ++ ": " ++ fault.message⟩],
        none⟩
    | none => ⟨[], [], some fault⟩

/-- Runs the expressions of a line in order, up to the first fault. -/
def runExprs [Host η] (shell : Shell) (line : String) :
    List Expr → Store (Value η) → Report η × Store (Value η)
  | [], s => (.empty, s)
  | e :: es, s =>
    match compileExpr e with
    | .error fault => (faultReport line fault, s)
    | .ok node =>
      let entries := (compiledLog? e node).toList
      match Run.outcome (runNode shell.session.root node) s with
      | (.error fault, s) => ((faultReport line fault).logged entries, s)
      | (.ok value, s) =>
        let entries := entries ++ (evaluatedLog? e value).toList
        match Written.text? value with
        | none => (⟨[], entries, some .tooLong⟩, s)
        | some text =>
          let (report, s) := shell.runExprs line es s
          ((report.after [.line text]).logged entries, s)

/-- A line that is shown only with a trace. -/
def echo (shell : Shell) (text : String) : List Piece :=
  if shell.trace then [.line text] else []

/-- Lexes, reads and runs a line. With a trace, the tokens are shown as soon as
    the line is lexed, and the expressions as soon as it is read. -/
def feed [Host η] (shell : Shell) (line : String) (s : Store (Value η)) :
    Report η × Store (Value η) :=
  match tokenize line with
  | .error error => (faultReport line (.lexing error), s)
  | .ok tokens =>
    let echo := shell.echo (Token.shownAll tokens)
    match (Expr.readAll Expr.maxNesting tokens).1 with
    | .error error => ((faultReport line (.reading error)).after echo, s)
    | .ok exprs =>
      let echo := echo ++ shell.echo (" ".intercalate (exprs.map Expr.text))
      let (report, s) := shell.runExprs line exprs s
      (report.after echo, s)

/-- Carries out a line: nothing if it is blank. Every other line is code. -/
def command [Host η] (shell : Shell) (line : String) (s : Store (Value η)) :
    Report η × Store (Value η) :=
  if Text.isBlankLine line then (.empty, s) else shell.feed line s

end Shell

/-- How a shell meets its user: the text it begins with, the text before each
    line it asks for, and whether the end of the input is shown as a line
    end. -/
structure Console where
  intro : String
  prompt : String
  interactive : Bool
  deriving DecidableEq, Repr

namespace Console

/-- The text that a console begins with if it is given no other. -/
def defaultIntro : String :=
  "toylisp interpreter\nType an expression, or Ctrl-D to exit."

/-- A console that shows results only. -/
def silent : Console := ⟨"", "", false⟩

/-- What is written at the beginning. -/
def opening (console : Console) : List Piece :=
  if console.intro.isEmpty then [] else [.line console.intro]

/-- What is written before a line is asked for. -/
def asking (console : Console) : List Piece := [.plain console.prompt]

/-- What is written when the input has ended: a line end on an interactive
    console. -/
def ended (console : Console) : List Piece :=
  if console.interactive then [.line ""] else []

end Console

/-- The lines that are still to come. Those of the queue go before those of the
    input. -/
structure Supply where
  queue : List String
  input : List String
  deriving DecidableEq, Repr

/-- How many lines are still to come. -/
def Supply.size (supply : Supply) : Nat :=
  supply.queue.length + supply.input.length

/-- Takes the next line: one of the queue as it stands, and one of the input
    behind a prompt. The end of the input is no line, and it is found behind a
    prompt too. -/
def Console.readLine (console : Console) : Supply → List Piece × Option String × Supply
  | ⟨line :: queue, input⟩ => ([], some line, ⟨queue, input⟩)
  | ⟨[], line :: input⟩ => (console.asking, some line, ⟨[], input⟩)
  | ⟨[], []⟩ => (console.asking, none, ⟨[], []⟩)

/-- What one turn of the loop comes to: its report, the store and the lines that
    are left, and whether the loop stops. -/
structure Turn (η : Type) where
  report : Report η
  store : Store (Value η)
  rest : Supply
  stop : Bool

namespace Shell

variable {η : Type} [Host η]

/-- One turn of the loop: takes the next line and carries it out, or stops at the
    end of the input. -/
def turn (shell : Shell) (console : Console) (supply : Supply) (s : Store (Value η)) : Turn η :=
  match console.readLine supply with
  | (asked, none, rest) => ⟨Report.empty.after (asked ++ console.ended), s, rest, true⟩
  | (asked, some line, rest) =>
    let (report, s) := shell.command line s
    ⟨report.after asked, s, rest, false⟩

/-- A turn that does not stop the loop has taken a line. -/
theorem size_rest_lt_of_turn_eq {shell : Shell} {console : Console} {supply rest : Supply}
    {s t : Store (Value η)} {report : Report η}
    (h : shell.turn console supply s = ⟨report, t, rest, false⟩) : rest.size < supply.size := by
  match supply, h with
  | ⟨_ :: _, _⟩, h | ⟨[], _ :: _⟩, h =>
    obtain ⟨-, -, rfl, -⟩ := Turn.mk.inj h
    simp [Supply.size]

/-- Takes turns until one of them stops the loop or lets a fault escape. -/
def loop (shell : Shell) (console : Console) (supply : Supply) (s : Store (Value η)) :
    Report η × Store (Value η) :=
  match h : shell.turn console supply s with
  | ⟨report, s, _, true⟩ => (report, s)
  | ⟨report, s, rest, false⟩ =>
    have : rest.size < supply.size := size_rest_lt_of_turn_eq h
    Report.andThen (report, s) fun s => shell.loop console rest s
termination_by supply.size

/-- Carries out the lines of a queue without a prompt, then those of the input
    with one, up to the end of the input or the first escape. -/
def run (shell : Shell) (console : Console) (queue input : List String) (s : Store (Value η)) :
    Report η × Store (Value η) :=
  let (report, s) := shell.loop console ⟨queue, input⟩ s
  (report.after console.opening, s)

end Shell

end LineLisp
