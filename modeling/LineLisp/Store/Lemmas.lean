/-
  LineLisp.Store.Lemmas

  What the operations on a store do to its two views: the frame around each
  frame, and the bindings of each frame. In a well-formed store every frame lies
  in an older one; there a chain is a frame followed by the chain around it.
-/
import LineLisp.Store.Basic

namespace LineLisp.Store

variable {ν : Type}

-- ============================================================================
-- New frames
-- ============================================================================

@[simp] theorem next_add (s : Store ν) (parent : Option Nat) :
    (s.add parent).next = s.next + 1 := by
  simp [next, add]

theorem parent?_add_self (s : Store ν) (parent : Option Nat) :
    (s.add parent).parent? s.next = parent := by
  simp [parent?, add, next]

theorem parent?_add_of_ne {s : Store ν} {parent : Option Nat} {f : Nat}
    (h : f ≠ s.next) : (s.add parent).parent? f = s.parent? f := by
  have hf : f ≠ s.frames.size := h
  simp [parent?, add, Array.getElem?_push, hf]

theorem bindings_add (s : Store ν) (parent : Option Nat) (f : Nat) :
    (s.add parent).bindings f = s.bindings f := by
  by_cases hf : f = s.frames.size
  · simp [bindings, add, hf]
  · simp [bindings, add, Array.getElem?_push, hf]

theorem parent?_eq_none {s : Store ν} {f : Nat} (h : s.next ≤ f) : s.parent? f = none := by
  have hf : s.frames.size ≤ f := h
  simp [parent?, Array.getElem?_eq_none hf]

theorem bindings_eq_nil {s : Store ν} {f : Nat} (h : s.next ≤ f) : s.bindings f = [] := by
  have hf : s.frames.size ≤ f := h
  simp [bindings, Array.getElem?_eq_none hf]

-- ============================================================================
-- Bindings
-- ============================================================================

@[simp] theorem next_define (s : Store ν) (f : Nat) (name : String) (value : ν) :
    (s.define f name value).next = s.next := by
  simp [next, define]

@[simp] theorem parent?_define (s : Store ν) (f g : Nat) (name : String) (value : ν) :
    (s.define f name value).parent? g = s.parent? g := by
  simp only [parent?, define, Array.getElem?_modify]
  split
  · cases s.frames[g]? <;> rfl
  · rfl

theorem bindings_define_self {s : Store ν} {f : Nat} (h : f < s.next) (name : String)
    (value : ν) :
    (s.define f name value).bindings f = (s.bindings f).define name value := by
  have hf : f < s.frames.size := h
  simp [bindings, define, Array.getElem?_modify, Array.getElem?_eq_getElem hf, Frame.define]

/-- Binding a name in one frame leaves the others as they are. -/
theorem bindings_define_of_ne {s : Store ν} {f g : Nat} (h : g ≠ f) (name : String)
    (value : ν) : (s.define f name value).bindings g = s.bindings g := by
  simp [bindings, define, Array.getElem?_modify, h.symm]

@[simp] theorem next_defineAll (s : Store ν) (f : Nat) (bs : Bindings ν) :
    (s.defineAll f bs).next = s.next := by
  induction bs generalizing s with
  | nil => rfl
  | cons b bs ih => exact (ih _).trans (next_define ..)

@[simp] theorem parent?_defineAll (s : Store ν) (f g : Nat) (bs : Bindings ν) :
    (s.defineAll f bs).parent? g = s.parent? g := by
  induction bs generalizing s with
  | nil => rfl
  | cons b bs ih => exact (ih _).trans (parent?_define ..)

theorem bindings_defineAll_self {s : Store ν} {f : Nat} (h : f < s.next) (bs : Bindings ν) :
    (s.defineAll f bs).bindings f = bs.foldl (fun b (name, value) => b.define name value)
      (s.bindings f) := by
  induction bs generalizing s with
  | nil => rfl
  | cons b bs ih =>
    obtain ⟨name, value⟩ := b
    simp only [List.foldl_cons, ← bindings_define_self h]
    exact ih (by simpa using h)

theorem bindings_defineAll_of_ne {s : Store ν} {f g : Nat} (h : g ≠ f) (bs : Bindings ν) :
    (s.defineAll f bs).bindings g = s.bindings g := by
  induction bs generalizing s with
  | nil => rfl
  | cons b bs ih => exact ih.trans (bindings_define_of_ne h ..)

-- ============================================================================
-- Chains
-- ============================================================================

/-- Every frame lies in an older one, if in any. -/
def WellFormed (s : Store ν) : Prop :=
  ∀ f g, s.parent? f = some g → g < f

theorem wellFormed_empty : (empty : Store ν).WellFormed := by
  intro f g h
  simp [empty, parent?] at h

theorem WellFormed.add {s : Store ν} (h : s.WellFormed) {parent : Option Nat}
    (hp : ∀ g, parent = some g → g < s.next) : (s.add parent).WellFormed := by
  intro f g hfg
  by_cases hf : f = s.next
  · subst hf
    rw [parent?_add_self] at hfg
    exact hp g hfg
  · rw [parent?_add_of_ne hf] at hfg
    exact h f g hfg

theorem WellFormed.define {s : Store ν} (h : s.WellFormed) (f : Nat) (name : String)
    (value : ν) : (s.define f name value).WellFormed := by
  intro g k hgk
  exact h g k (by simpa using hgk)

/-- More room than the number of a frame does not make its chain longer. -/
theorem ancestry_eq_chain {s : Store ν} (h : s.WellFormed) {n : Nat} {f : Nat} (hn : f < n) :
    s.ancestry n f = s.chain f := by
  induction f using Nat.strongRecOn generalizing n with
  | ind f ih =>
    obtain ⟨n, rfl⟩ : ∃ m, n = m + 1 := ⟨n - 1, by omega⟩
    simp only [chain, ancestry]
    cases hp : s.parent? f with
    | none => rfl
    | some g =>
      have hg := h f g hp
      simp only [ih g hg (by omega : g < n), ih g hg (by omega : g < f)]

/-- A chain is a frame followed by the chain of the frame around it. -/
theorem chain_eq {s : Store ν} (h : s.WellFormed) (f : Nat) :
    s.chain f = f :: match s.parent? f with
      | some g => s.chain g
      | none => [] := by
  rw [chain, ancestry]
  cases hp : s.parent? f with
  | none => rfl
  | some g => simp only [ancestry_eq_chain h (h f g hp)]

end LineLisp.Store
