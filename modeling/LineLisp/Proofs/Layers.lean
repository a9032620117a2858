/-
  LineLisp.Proofs.Layers

  Code by layers. To run a piece of code it is enough to know what it does itself and
  which pieces its parts are. Nodes are such code, and so are nodes that carry something
  else with them, such as the place that they come from. What is proved of all such code
  holds of nodes, since the record of a run is the same (`Node.recorded_eq`).
-/
import LineLisp.Proofs.History

namespace LineLisp

variable {η κ : Type}

-- ============================================================================
-- Code
-- ============================================================================

/-- What a piece of code does, and the pieces that are its parts. -/
inductive Layer (κ : Type) where
  | literal (datum : Expr)
  | lookup (name : String)
  | branch (condition consequent alternative : κ)
  | assign (name : String) (value : κ)
  | lambda (params : List String) (body : List κ)
  | apply (function : κ) (args : List κ)
  | hole

/-- The parts that are run in the frame of the whole. The body of a closure is not
    among them, since it is run in the frames of calls. -/
def Layer.parts : Layer κ → List κ
  | .branch condition consequent alternative => [condition, consequent, alternative]
  | .assign _ value => [value]
  | .apply function args => function :: args
  | _ => []

/-- Types whose members can be run. -/
class Code (κ : Type) where
  layer : κ → Layer κ

mutual

/-- Runs a piece of code in a frame with a record. -/
def Code.recorded [Code κ] [Host η κ] :
    Nat → κ → Nat → Recorded (Value η κ) (Value η κ)
  | 0, _, _ => .fail .tooDeep
  | limit + 1, code, frame =>
    match Code.layer code with
    | .literal datum => pure (.datum datum)
    | .lookup name => Recorded.lookup frame name
    | .branch condition consequent alternative => do
      let chosen ← Code.recorded limit condition frame
      if chosen.isNil then Code.recorded limit alternative frame
      else Code.recorded limit consequent frame
    | .assign name part => do
      let value ← Code.recorded limit part frame
      Recorded.perform (.bind frame name value)
      pure value
    | .lambda params body => pure (.closure params body frame)
    | .apply part parts => do
      let function ← Code.recorded limit part frame
      let args ← parts.mapM fun arg => Code.recorded limit arg frame
      Value.recordedCall limit function args
    | .hole => .fail .unknownNode

/-- Applies a value to arguments with a record. -/
def Value.recordedCall [Code κ] [Host η κ] :
    Nat → Value η κ → List (Value η κ) → Recorded (Value η κ) (Value η κ)
  | 0, _, _ => .fail .tooDeep
  | limit + 1, function, args =>
    match function with
    | .closure params body scope => do
      let frame ← Recorded.enterCall params scope args
      Recorded.leaving frame (body.foldlM (fun _ code => Code.recorded limit code frame) .nil)
    | .primitive _ .add => .ofExcept (Value.sum args)
    | .primitive _ (.host function) => (Host.act function args).recorded (Value.recordedCall limit)
    | .datum _ => .fail (.notApplicable function)

end

-- ============================================================================
-- Nodes
-- ============================================================================

/-- What a node does, and its parts. -/
def Node.layer : Node → Layer Node
  | .literal datum => .literal datum
  | .lookup name => .lookup name
  | .branch condition consequent alternative => .branch condition consequent alternative
  | .assign name value => .assign name value
  | .lambda params body => .lambda params body
  | .apply function args => .apply function args
  | .hole => .hole

instance : Code Node := ⟨Node.layer⟩

/-- Running nodes with a record is running code of which nodes are one kind. -/
theorem recorded_eq_code [Host η] (limit : Nat) :
    (∀ (node : Node) (frame : Nat),
      (node.recorded limit frame : Recorded (Value η) (Value η)) =
        Code.recorded limit node frame) ∧
    (∀ (function : Value η) (args : List (Value η)),
      function.recordedApply limit args = function.recordedCall limit args) := by
  induction limit with
  | zero =>
    constructor
    · intro node frame
      rw [Node.recorded, Code.recorded]
    · intro function args
      rw [Value.recordedApply, Value.recordedCall]
  | succ limit ih =>
    obtain ⟨ihNode, ihApply⟩ := ih
    constructor
    · intro node frame
      cases node <;>
        simp only [Node.recorded, Code.recorded, Code.layer, Node.layer, ihNode, ihApply]
    · intro function args
      have hcall : (Value.recordedApply limit : Value η → _) = Value.recordedCall limit :=
        funext fun function => funext fun args => ihApply function args
      cases function with
      | datum e => rw [Value.recordedApply, Value.recordedCall]
      | closure params body scope =>
        simp only [Value.recordedApply, Value.recordedCall, ihNode]
      | primitive name operation =>
        cases operation with
        | add => rw [Value.recordedApply, Value.recordedCall]
        | host f => rw [Value.recordedApply, Value.recordedCall, hcall]

theorem Node.recorded_eq [Host η] (limit : Nat) (node : Node) (frame : Nat) :
    (node.recorded limit frame : Recorded (Value η) (Value η)) = Code.recorded limit node frame :=
  (recorded_eq_code limit).1 node frame

end LineLisp
