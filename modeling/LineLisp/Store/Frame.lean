/-
  LineLisp.Store.Frame

  Frames: the bindings of one scope in the order in which their names were
  first bound, and the frame around them.
-/
import LineLisp.Written

namespace LineLisp

/-- Names with their values, each name once, in the order of first binding. -/
abbrev Bindings (ν : Type) := List (String × ν)

namespace Bindings

variable {ν : Type}

/-- The value of a name. -/
def get? (name : String) : Bindings ν → Option ν
  | [] => none
  | (bound, value) :: rest => if bound = name then some value else get? name rest

/-- Binds a name: at its place if it is bound already, else behind the others. -/
def define (name : String) (value : ν) : Bindings ν → Bindings ν
  | [] => [(name, value)]
  | (bound, old) :: rest =>
    if bound = name then (bound, value) :: rest else (bound, old) :: define name value rest

/-- The names that are bound. -/
def names (bindings : Bindings ν) : List String := bindings.map Prod.fst

/-- The text of bindings, with integers of any length. -/
def text [Written ν] (bindings : Bindings ν) : String :=
  "\x7b" ++ ", ".intercalate (bindings.map fun (name, value) => name ++ ": " ++ Written.text value)
    ++ "\x7d"

/-- Whether every integer in bindings has a numeral of bounded length. -/
def fits [Written ν] (bindings : Bindings ν) : Bool :=
  bindings.all fun (_, value) => Written.fits value

-- ============================================================================
-- Lemmas
-- ============================================================================

@[simp] theorem get?_nil (name : String) : get? name ([] : Bindings ν) = none := rfl

theorem get?_define_self (name : String) (value : ν) (bindings : Bindings ν) :
    get? name (define name value bindings) = some value := by
  induction bindings with
  | nil => simp [define, get?]
  | cons b rest ih =>
    obtain ⟨bound, old⟩ := b
    by_cases h : bound = name <;> simp [define, get?, h, ih]

theorem get?_define_of_ne {name other : String} (h : other ≠ name) (value : ν)
    (bindings : Bindings ν) : get? other (define name value bindings) = get? other bindings := by
  induction bindings with
  | nil => simp [define, get?, h.symm]
  | cons b rest ih =>
    obtain ⟨bound, old⟩ := b
    by_cases hb : bound = name
    · simp [define, get?, hb, h.symm]
    · by_cases ho : bound = other <;> simp [define, get?, hb, ho, h, ih]

/-- Binding a name that is bound already changes no place; binding a new one
    adds it at the end. -/
theorem names_define (name : String) (value : ν) (bindings : Bindings ν) :
    names (define name value bindings) =
      if name ∈ names bindings then names bindings else names bindings ++ [name] := by
  induction bindings with
  | nil => simp [define, names]
  | cons b rest ih =>
    obtain ⟨bound, old⟩ := b
    simp only [names] at ih
    by_cases hb : bound = name
    · simp [define, names, hb]
    · have hb' : ¬ name = bound := fun e => hb e.symm
      by_cases hm : name ∈ rest.map Prod.fst <;> simp_all [define, names]

theorem get?_isSome_iff {name : String} {bindings : Bindings ν} :
    (get? name bindings).isSome = true ↔ name ∈ names bindings := by
  induction bindings with
  | nil => simp [names]
  | cons b rest ih =>
    obtain ⟨bound, old⟩ := b
    simp only [names] at ih
    by_cases hb : bound = name
    · simp [get?, names, hb]
    · have hb' : ¬ name = bound := fun e => hb e.symm
      simp [get?, names, hb, hb', ih]

end Bindings

/-- One scope: its bindings, and the number of the frame that it lies in. -/
structure Frame (ν : Type) where
  parent : Option Nat
  bindings : Bindings ν

namespace Frame

variable {ν : Type}

/-- The value of a name in this frame alone. -/
def get? (frame : Frame ν) (name : String) : Option ν :=
  frame.bindings.get? name

/-- Binds a name in this frame. -/
def define (frame : Frame ν) (name : String) (value : ν) : Frame ν :=
  { frame with bindings := frame.bindings.define name value }

@[simp] theorem parent_define (frame : Frame ν) (name : String) (value : ν) :
    (frame.define name value).parent = frame.parent := rfl

end Frame

end LineLisp
