/-
  LineLisp.Node.Compile

  Compiling expressions to nodes. A list whose first item is one of four
  symbols is a special form and must have the shape of that form; any other
  list that is not empty is an application. The shape of every form is checked
  before anything runs, also inside bodies that are never called. Quoted
  expressions, names of parameters and names to be bound are not compiled.
-/
import LineLisp.Expr.Printer
import LineLisp.Node.Basic

namespace LineLisp

/-- The special forms. -/
inductive SpecialForm where
  | branch
  | assign
  | quote
  | lambda
  deriving DecidableEq, Repr

/-- The special form that a symbol at the head of a list stands for. -/
def SpecialForm.ofName? (name : String) : Option SpecialForm :=
  if name = "if" then some .branch
  else if name = "set" then some .assign
  else if name = "quote" then some .quote
  else if name = "lambda" then some .lambda
  else none

/-- The rules on the shape of special forms. -/
inductive FormRule where
  | branchCount
  | assignCount
  | assignTarget
  | quoteCount
  | lambdaCount
  | lambdaParams
  deriving DecidableEq, Repr

/-- The wording of a rule. -/
def FormRule.text : FormRule → String
  | branchCount => "if requires 2 or 3 args"
  | assignCount => "set requires 2 args"
  | assignTarget => "1st argument to set must be a symbol"
  | quoteCount => "quote requires 1 arg"
  | lambdaCount => "lambda requires at least 2 arguments"
  | lambdaParams => "1st argument to lambda must be a list of symbols"

/-- Why an expression does not compile. -/
inductive CompileError where
  /-- A special form that breaks a rule on its shape. -/
  | malformed (rule : FormRule) (form : Expr)
  /-- A hole. -/
  | hole
  deriving DecidableEq, Repr

/-- The wording of an error, with integers of any length. -/
def CompileError.message : CompileError → String
  | malformed rule form => rule.text ++ ": " ++ form.text
  | hole => "cannot compile None (unknown expression type)"

namespace Expr

/-- The names of a list of parameters. -/
def paramNames? : Expr → Option (List String)
  | .list items => items.mapM symbol?
  | _ => none

mutual

/-- The node of an expression, or the first fault of form found in it, from the
    outside in and from left to right. -/
def compile : Expr → Except CompileError Node
  | .int n => .ok (.literal (.int n))
  | .str contents => .ok (.literal (.str contents))
  | .sym name => .ok (.lookup name)
  | .hole => .error .hole
  | .list [] => .ok (.literal .nil)
  | .list (head :: args) =>
    match head.symbol?.bind SpecialForm.ofName? with
    | some .branch =>
      match args with
      | [condition, consequent] => do
        let c ← condition.compile
        let t ← consequent.compile
        return .branch c t (.literal .nil)
      | [condition, consequent, alternative] => do
        let c ← condition.compile
        let t ← consequent.compile
        let e ← alternative.compile
        return .branch c t e
      | _ => .error (.malformed .branchCount (.list (head :: args)))
    | some .assign =>
      match args with
      | [target, value] =>
        match target.symbol? with
        | some name => do
          let v ← value.compile
          return .assign name v
        | none => .error (.malformed .assignTarget (.list (head :: args)))
      | _ => .error (.malformed .assignCount (.list (head :: args)))
    | some .quote =>
      match args with
      | [datum] => .ok (.literal datum)
      | _ => .error (.malformed .quoteCount (.list (head :: args)))
    | some .lambda =>
      match args with
      | params :: first :: others =>
        match params.paramNames? with
        | some names => do
          let n ← first.compile
          let ns ← compileAll others
          return .lambda names (n :: ns)
        | none => .error (.malformed .lambdaParams (.list (head :: args)))
      | _ => .error (.malformed .lambdaCount (.list (head :: args)))
    | none => do
      let f ← head.compile
      let ns ← compileAll args
      return .apply f ns

/-- The nodes of a list of expressions. -/
def compileAll : List Expr → Except CompileError (List Node)
  | [] => .ok []
  | e :: es => do
    let n ← e.compile
    let ns ← compileAll es
    return n :: ns

end

@[simp] theorem compileAll_eq_mapM (es : List Expr) : compileAll es = es.mapM compile := by
  induction es with
  | nil => rfl
  | cons e es ih => simp [compileAll, ih]

end Expr

end LineLisp
