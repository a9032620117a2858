/-
  LineLisp.Session

  Sessions: code is read as a whole, then its expressions are compiled and run
  one after the other in the root frame of the session. Bindings stay from one
  piece of code to the next. Sessions live in a common store; they may share
  their root frame, and those that do not are apart.
-/
import LineLisp.Evaluation

namespace LineLisp

variable {η : Type}

/-- The expressions of a source text, or why it has none. -/
def readSource (source : String) : Except (Fault (Value η)) (List Expr) :=
  match tokenize source with
  | .error error => .error (.lexing error)
  | .ok tokens =>
    match (Expr.readAll Expr.maxNesting tokens).1 with
    | .error error => .error (.reading error)
    | .ok exprs => .ok exprs

/-- The node of an expression, or why it has none. -/
def compileExpr (e : Expr) : Except (Fault (Value η)) Node :=
  match e.compile with
  | .ok node => .ok node
  | .error error => .error (.compiling error)

/-- How deeply runs may be nested when code is run. -/
def maxDepth : Nat := 1000

/-- Runs a node in a frame, with the room that code is given. -/
def runNode [Host η] (frame : Nat) (node : Node) : Run (Value η) (Value η) :=
  node.evaluate maxDepth frame

/-- Compiles an expression and runs it in a frame. -/
def runExpr [Host η] (frame : Nat) (e : Expr) : Run (Value η) (Value η) := do
  let node ← Run.ofExcept (compileExpr e)
  runNode frame node

/-- Reads code and runs its expressions in order in a frame, up to the first
    fault. -/
def runCode [Host η] (frame : Nat) (code : String) : Run (Value η) (List (Value η)) := do
  let exprs ← Run.ofExcept (readSource code)
  exprs.mapM (runExpr frame)

/-- Applies a value to arguments, with the room that code is given. -/
def call [Host η] (function : Value η) (args : List (Value η)) : Run (Value η) (Value η) :=
  function.apply maxDepth args

/-- A session: the root frame in which its code is run. -/
structure Session where
  root : Nat
  deriving DecidableEq, Repr

namespace Session

/-- Starts a session with a root frame of its own. -/
def start (s : Store (Value η)) : Session × Store (Value η) :=
  let (frame, s) := s.newGlobal
  (⟨frame⟩, s)

/-- Runs code in a session. -/
def eval [Host η] (session : Session) (code : String) : Run (Value η) (List (Value η)) :=
  runCode session.root code

/-- Offers a function of the host to the code of a session under a name. -/
def offer (session : Session) (name : String) (function : η) : Run (Value η) (Value η) := do
  let primitive := Value.primitive name (.host function)
  Run.update fun s => s.define session.root name primitive
  pure primitive

end Session

end LineLisp
