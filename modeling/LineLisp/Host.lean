/-
  LineLisp.Host

  Functions of the host program. A host can offer functions of its own to a
  session under names of its choice. What such a function does is described by
  an action: a tree of steps that ends with a value or a fault, and whose only
  effects are lines in the journal and calls of functions. What a function of the
  host remembers from one call to the next stands in the journal, which actions
  can read. An action has no access to frames.
-/
import LineLisp.Fault
import LineLisp.Value

namespace LineLisp

/-- What a function of the host does with its arguments. `ν` is the type of the
    values that a run deals with. -/
inductive Action (ν : Type) where
  /-- Yields a value. -/
  | yield (value : ν)
  /-- Ends with a fault. -/
  | refuse (fault : Fault ν)
  /-- Adds a line to the journal and goes on. -/
  | tell (line : String) (next : Action ν)
  /-- Goes on with the lines of the journal. -/
  | ask (next : Array String → Action ν)
  /-- Calls a function and goes on with its value. A fault of the call ends the
      action. -/
  | call (function : ν) (args : List ν) (next : ν → Action ν)
  /-- Calls a function and goes on with its value or its fault. Only a lack of room
      ends the action. -/
  | attempt (function : ν) (args : List ν) (next : Except (Fault ν) ν → Action ν)

/-- A host: what each of its functions does with its arguments. -/
class Host (η : Type) (κ : Type := Node) where
  act : η → List (Value η κ) → Action (Value η κ)

/-- The host without functions. -/
instance {κ : Type} : Host Empty κ := ⟨fun function _ => nomatch function⟩

end LineLisp
