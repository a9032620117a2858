/-
  LineLisp.Value

  Values: what running a node yields and what names are bound to.
-/
import LineLisp.Node.Dump
import LineLisp.Store.Frame

namespace LineLisp

/-- What a primitive does: sum integers, or whatever a function of the host
    program does. `η` is the type of the host's functions; it is `Empty` in a
    session that has none. -/
inductive Primitive (η : Type) where
  | add
  | host (function : η)
  deriving DecidableEq, Repr

/-- A value: an expression as a datum, a closure with the number of the frame in
    which it was made, or a primitive with the name it was defined under. The
    body of a closure is code of the type `κ`: nodes, unless said otherwise. -/
inductive Value (η : Type) (κ : Type := Node) where
  | datum (expr : Expr)
  | closure (params : List String) (body : List κ) (scope : Nat)
  | primitive (name : String) (operation : Primitive η)
  deriving DecidableEq, Repr

namespace Value

variable {η κ : Type}

/-- The empty list, the only false value. -/
def nil : Value η κ := .datum .nil

/-- An integer as a value. -/
def int (n : Int) : Value η κ := .datum (.int n)

instance : Inhabited (Value η κ) := ⟨nil⟩

/-- Whether a value counts as false. -/
def isNil : Value η κ → Bool
  | .datum e => e.isNil
  | _ => false

/-- The integer that a value holds. -/
def int? : Value η κ → Option Int
  | .datum (.int n) => some n
  | _ => none

/-- The text of a value, with integers of any length. -/
def text : Value η κ → String
  | .datum e => e.text
  | .closure _ _ _ => "#<lambda>"
  | .primitive name _ => "#<primitive " ++ name ++ ">"

/-- Whether every integer in a value has a numeral of bounded length. -/
def fits : Value η κ → Bool
  | .datum e => e.fits
  | _ => true

instance : Written (Value η κ) := ⟨text, fits⟩

/-- The dump of a value, with integers of any length. -/
def dump : Value η κ → String
  | .datum e => e.dumpDatum
  | .closure params _ _ => "<Closure (" ++ " ".intercalate params ++ ")>"
  | .primitive name _ => "#<primitive " ++ name ++ ">"

/-- The dump of a value, when all of its integers can be written. -/
def dump? (v : Value η κ) : Option String :=
  if v.fits then some v.dump else none

-- ============================================================================
-- Lemmas
-- ============================================================================

@[simp] theorem isNil_iff {v : Value η κ} : v.isNil = true ↔ v = nil := by
  cases v <;> simp [isNil, nil]

@[simp] theorem int?_eq_some_iff {v : Value η κ} {n : Int} : v.int? = some n ↔ v = int n := by
  unfold int? int
  split <;> simp_all

end Value

end LineLisp
