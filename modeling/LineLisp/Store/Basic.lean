/-
  LineLisp.Store.Basic

  The store: all frames that were ever made, in the order of their making, and
  the journal that functions of the host may write to. Frames are numbered and
  never taken away. A frame made by `child` or `root` lies in one that was there
  before, so the frames around it form a chain that ends at one without parent.
-/
import LineLisp.Store.Frame

namespace LineLisp

/-- The frames and the journal. -/
structure Store (ν : Type) where
  frames : Array (Frame ν)
  journal : Array String

namespace Store

variable {ν : Type}

/-- A store without frames. -/
def empty : Store ν := ⟨#[], #[]⟩

/-- The number of the next frame to be made. -/
def next (s : Store ν) : Nat := s.frames.size

/-- Adds an empty frame. -/
def add (s : Store ν) (parent : Option Nat) : Store ν :=
  { s with frames := s.frames.push ⟨parent, []⟩ }

/-- Makes a frame that lies in no other. -/
def newRoot (s : Store ν) : Nat × Store ν :=
  (s.next, s.add none)

/-- Makes an empty frame inside another. -/
def newChild (s : Store ν) (parent : Nat) : Nat × Store ν :=
  (s.next, s.add (some parent))

/-- Binds a name in one frame, and in no other. -/
def define (s : Store ν) (frame : Nat) (name : String) (value : ν) : Store ν :=
  { s with frames := s.frames.modify frame fun f => f.define name value }

/-- Binds names one after the other in one frame. -/
def defineAll (s : Store ν) (frame : Nat) (bindings : Bindings ν) : Store ν :=
  bindings.foldl (fun s (name, value) => s.define frame name value) s

/-- Adds a line to the journal. -/
def tell (s : Store ν) (line : String) : Store ν :=
  { s with journal := s.journal.push line }

/-- The bindings of one frame. -/
def bindings (s : Store ν) (frame : Nat) : Bindings ν :=
  match s.frames[frame]? with
  | some f => f.bindings
  | none => []

/-- The frame around a frame. -/
def parent? (s : Store ν) (frame : Nat) : Option Nat :=
  s.frames[frame]?.bind Frame.parent

/-- A frame and the frames around it, as many as asked for at most, from the
    inside out. -/
def ancestry (s : Store ν) : Nat → Nat → List Nat
  | 0, _ => []
  | n + 1, frame =>
    frame :: match s.parent? frame with
      | some outer => s.ancestry n outer
      | none => []

/-- The chain of a frame: the frame itself and all frames around it, from the
    inside out. Since frames lie in older ones, the number of a frame bounds the
    length of its chain. -/
def chain (s : Store ν) (frame : Nat) : List Nat :=
  s.ancestry (frame + 1) frame

/-- The outermost frame of a chain. -/
def root (s : Store ν) (frame : Nat) : Nat :=
  (s.chain frame).getLastD frame

/-- The value of a name in one frame alone. -/
def get? (s : Store ν) (frame : Nat) (name : String) : Option ν :=
  (s.bindings frame).get? name

/-- The innermost frame of a chain that binds a name. -/
def find? (s : Store ν) (frame : Nat) (name : String) : Option Nat :=
  (s.chain frame).find? fun f => (s.get? f name).isSome

/-- The value of a name as seen from a frame: that of the innermost frame that
    binds it. -/
def lookup? (s : Store ν) (frame : Nat) (name : String) : Option ν :=
  (s.find? frame name).bind fun f => s.get? f name

-- ============================================================================
-- The text of frames
-- ============================================================================

/-- The text of one frame: its bindings, and a mark if it lies in another. -/
def frameText [Written ν] (s : Store ν) (frame : Nat) : String :=
  (s.bindings frame).text ++ if (s.parent? frame).isSome then " -> ..." else ""

/-- The text of one frame, when all integers in it can be written. -/
def frameText? [Written ν] (s : Store ν) (frame : Nat) : Option String :=
  if (s.bindings frame).fits then some (s.frameText frame) else none

/-- The text of a chain of frames, from the inside out. -/
def chainText [Written ν] (s : Store ν) (frame : Nat) : String :=
  "<Environment chain: "
    ++ " -> ".intercalate ((s.chain frame).map fun f => (s.bindings f).text) ++ ">"

/-- The text of a chain of frames, when all integers in it can be written. -/
def chainText? [Written ν] (s : Store ν) (frame : Nat) : Option String :=
  if (s.chain frame).all fun f => (s.bindings f).fits then some (s.chainText frame) else none

end Store

end LineLisp
