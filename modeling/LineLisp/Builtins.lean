/-
  LineLisp.Builtins

  What every session starts with: the name of the empty list, and one primitive,
  which adds integers.
-/
import LineLisp.Fault
import LineLisp.Store.Basic
import LineLisp.Value

namespace LineLisp

variable {η κ : Type}

/-- The integer that an argument holds, or the fault of a function that wants
    an integer at that position. -/
def Value.asInt (function : String) (position : Nat) (value : Value η κ) :
    Except (Fault (Value η κ)) Int :=
  match value.int? with
  | some n => .ok n
  | none => .error (.notInteger function position value)

/-- The sum of arguments on top of a start, the first of them standing at the
    given position. -/
def Value.sumFrom (total : Int) (position : Nat) : List (Value η κ) → Except (Fault (Value η κ)) Int
  | [] => .ok total
  | value :: values =>
    match value.asInt "add" position with
    | .ok n => sumFrom (total + n) (position + 1) values
    | .error fault => .error fault

/-- The sum of any number of integers; the first argument that is none is a
    fault. -/
def Value.sum (args : List (Value η κ)) : Except (Fault (Value η κ)) (Value η κ) :=
  (sumFrom 0 0 args).map .int

/-- The names that every session starts with. -/
def builtins : Bindings (Value η κ) :=
  [("nil", .nil), ("add", .primitive "add" .add)]

/-- Makes a frame that lies in no other and binds what every session starts
    with. -/
def Store.newGlobal (s : Store (Value η κ)) : Nat × Store (Value η κ) :=
  let (frame, s) := s.newRoot
  (frame, s.defineAll frame builtins)

end LineLisp
