/-
  LineLisp.Fault

  Faults: everything that can end the work on a line early, kept as its cause
  with the data that belong to it. The wording is a function of the cause.
-/
import LineLisp.Expr.Reader
import LineLisp.Node.Compile
import LineLisp.Text.Quoted
import LineLisp.Token.Lexer

namespace LineLisp

/-- Why a line was not carried through. `ν` is the type of the values that a run
    deals with. -/
inductive Fault (ν : Type) where
  /-- The text does not fall into tokens. -/
  | lexing (error : LexError)
  /-- The tokens are no expressions. -/
  | reading (error : ReadError)
  /-- An expression does not compile. -/
  | compiling (error : CompileError)
  /-- A name was used that no frame of the chain binds. -/
  | unbound (name : String)
  /-- A closure was called with a wrong number of arguments. -/
  | arity (expected actual : Nat)
  /-- A value that is no function was called. -/
  | notApplicable (value : ν)
  /-- A primitive wanted an integer at this position of its arguments. -/
  | notInteger (function : String) (position : Nat) (value : ν)
  /-- A function of the host refused, with a kind and a wording of its own. -/
  | host (kind message : String)
  /-- A hole was run. -/
  | unknownNode
  /-- Calls are nested more deeply than there is room for. -/
  | tooDeep
  /-- An integer had to be written that has no numeral of bounded length. -/
  | tooLong
  deriving DecidableEq, Repr

namespace Fault

variable {ν : Type}

/-- The wording of a fault, with integers of any length. -/
def message [Written ν] : Fault ν → String
  | lexing error => "tokenize failed at " ++ Text.quoted error.remainder
  | reading error => error.message
  | compiling error => error.message
  | unbound name => "undefined variable " ++ name
  | arity expected actual =>
    "#<lambda> requires " ++ expected.repr ++ " arguments, but got " ++ actual.repr
  | notApplicable value => "cannot apply non-function " ++ Written.text value
  | notInteger function position value =>
    function ++ " argument[" ++ position.repr ++ "] is not int: " ++ Written.text value
  | host _ message => message
  | unknownNode => "unknown node type: NoneType"
  | tooDeep => "maximum recursion depth exceeded"
  | tooLong =>
    "Exceeds the limit (4300 digits) for integer string conversion; "
      ++ "use sys.set_int_max_str_digits() to increase the limit"

/-- The name under which the log files a fault that a session goes on after.
    A lack of room is filed without a name. There is none either for misuse from
    outside (a hole) and for an integer that cannot be written, which stop a
    session. -/
def logName? : Fault ν → Option String
  | lexing _ => some "ToyLispLexError"
  | reading .tooDeep => none
  | reading _ => some "ToyLispSyntaxError"
  | compiling .hole => none
  | compiling _ => some "ToyLispCompileError"
  | unbound _ => some "ToyLispUnboundSymbol"
  | arity _ _ => some "ToyLispArityError"
  | notApplicable _ => some "ToyLispNotApplicable"
  | notInteger _ _ _ => some "ToyLispTypeError"
  | host kind _ => some kind
  | unknownNode => none
  | tooDeep => none
  | tooLong => none

/-- Whether every integer in the wording of a fault has a numeral of bounded
    length. -/
def fits [Written ν] : Fault ν → Bool
  | compiling (.malformed _ form) => form.fits
  | notApplicable value => Written.fits value
  | notInteger _ _ value => Written.fits value
  | _ => true

/-- A fault as it is seen from outside: one whose wording cannot be written
    gives way to the fault of the integer that stands in the way. -/
def settled [Written ν] (fault : Fault ν) : Fault ν :=
  if fault.fits then fault else .tooLong

/-- Whether a fault is a lack of room for nesting. -/
def isOverflow : Fault ν → Bool
  | reading .tooDeep => true
  | tooDeep => true
  | _ => false

-- ============================================================================
-- Lemmas
-- ============================================================================

theorem settled_of_fits [Written ν] {fault : Fault ν} (h : fault.fits = true) :
    fault.settled = fault := by
  simp [settled, h]

@[simp] theorem fits_settled [Written ν] (fault : Fault ν) : fault.settled.fits = true := by
  unfold settled
  split
  · assumption
  · rfl

end Fault

end LineLisp
