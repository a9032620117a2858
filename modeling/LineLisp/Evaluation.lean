/-
  LineLisp.Evaluation

  Running nodes. A node runs in a frame: names are looked up along the chain of
  that frame and bound in the frame itself. A call of a closure runs its body in
  a fresh frame inside the one where the closure was made, whoever calls it.

  The nesting of runs is bounded by a limit: each node and each application
  inside another costs one, and where nothing is left the run ends with the
  fault `tooDeep`.
-/
import LineLisp.Builtins
import LineLisp.Host
import LineLisp.Run

namespace LineLisp

variable {η : Type}

/-- Carries out an action, given the way in which functions are called. -/
def Action.run {ν : Type} (call : ν → List ν → Run ν ν) : Action ν → Run ν ν
  | .yield value => pure value
  | .refuse fault => .fail fault
  | .tell line next => do
    Run.update fun s => s.tell line
    next.run call
  | .ask next => do
    (next (← get).journal).run call
  | .call function args next => do
    let value ← call function args
    (next value).run call
  | .attempt function args next => do
    let outcome ← Run.attempt (call function args)
    (next outcome).run call

mutual

/-- Runs a node in a frame. -/
def Node.evaluate [Host η] : Nat → Node → Nat → Run (Value η) (Value η)
  | 0, _, _ => .fail .tooDeep
  | limit + 1, node, frame =>
    match node with
    | .literal datum => pure (.datum datum)
    | .lookup name => Run.lookup frame name
    | .branch condition consequent alternative => do
      let chosen ← Node.evaluate limit condition frame
      if chosen.isNil then Node.evaluate limit alternative frame
      else Node.evaluate limit consequent frame
    | .assign name valueNode => do
      let value ← Node.evaluate limit valueNode frame
      Run.update fun s => s.define frame name value
      pure value
    | .lambda params body => pure (.closure params body frame)
    | .apply functionNode argNodes => do
      let function ← Node.evaluate limit functionNode frame
      let args ← argNodes.mapM fun arg => Node.evaluate limit arg frame
      Value.apply limit function args
    | .hole => .fail .unknownNode

/-- Applies a value to arguments. The value of a closure's call is that of the
    last node of its body, and nil if there is none. -/
def Value.apply [Host η] : Nat → Value η → List (Value η) → Run (Value η) (Value η)
  | 0, _, _ => .fail .tooDeep
  | limit + 1, function, args =>
    match function with
    | .closure params body scope => do
      let frame ← Run.bindArguments params scope args
      body.foldlM (fun _ node => Node.evaluate limit node frame) .nil
    | .primitive _ .add => .ofExcept (Value.sum args)
    | .primitive _ (.host function) => (Host.act function args).run (Value.apply limit)
    | .datum _ => .fail (.notApplicable function)

end

end LineLisp
