/-
  LineLisp.Expr.Basic

  Symbolic expressions: what source text is read into, what a quoted form
  yields, and so both the code and the data of a session.
-/

namespace LineLisp

/-- A symbolic expression. A string holds the raw text between its quotation
    marks, backslashes included. A hole stands where an expression should be
    and none was given; reading never makes one, and it can be neither
    compiled nor run. -/
inductive Expr where
  | int (value : Int)
  | sym (name : String)
  | str (contents : String)
  | list (items : List Expr)
  | hole
  deriving Repr, Inhabited

namespace Expr

/-- The empty list, which also stands for falsehood. -/
def nil : Expr := .list []

/-- Whether an expression is the empty list. -/
def isNil : Expr → Bool
  | .list [] => true
  | _ => false

/-- The name of a symbol. -/
def symbol? : Expr → Option String
  | .sym name => some name
  | _ => none

-- ============================================================================
-- Induction
-- ============================================================================

/-- Induction over expressions: a property of all items of a list carries over
    to the list. -/
@[elab_as_elim, induction_eliminator]
theorem induct {motive : Expr → Prop} (int : ∀ value, motive (.int value))
    (sym : ∀ name, motive (.sym name)) (str : ∀ contents, motive (.str contents))
    (list : ∀ items, (∀ e ∈ items, motive e) → motive (.list items)) (hole : motive .hole)
    (e : Expr) : motive e :=
  @Expr.rec motive (fun items => ∀ e ∈ items, motive e) int sym str list hole
    (fun _ h => nomatch h)
    (fun _ _ hhead htail _ h => (List.mem_cons.1 h).elim (fun heq => heq ▸ hhead) (htail _)) e

-- ============================================================================
-- Equality
-- ============================================================================

mutual

/-- Whether two expressions are the same. -/
def same : Expr → Expr → Bool
  | .int m, .int n => m == n
  | .sym x, .sym y => x == y
  | .str s, .str t => s == t
  | .list xs, .list ys => sameAll xs ys
  | .hole, .hole => true
  | _, _ => false

/-- Whether two lists of expressions are the same. -/
def sameAll : List Expr → List Expr → Bool
  | [], [] => true
  | x :: xs, y :: ys => same x y && sameAll xs ys
  | _, _ => false

end

theorem sameAll_iff {xs ys : List Expr} (h : ∀ x ∈ xs, ∀ y, same x y = true ↔ x = y) :
    sameAll xs ys = true ↔ xs = ys := by
  induction xs generalizing ys with
  | nil => cases ys <;> simp [sameAll]
  | cons x xs ih =>
    cases ys with
    | nil => simp [sameAll]
    | cons y ys =>
      have hx := h x List.mem_cons_self y
      have hxs := @ih ys fun z hz => h z (List.mem_cons_of_mem _ hz)
      simp [sameAll, hx, hxs]

theorem same_iff {x y : Expr} : same x y = true ↔ x = y := by
  induction x generalizing y with
  | int m => cases y <;> simp [same]
  | sym m => cases y <;> simp [same]
  | str m => cases y <;> simp [same]
  | list xs ih =>
    cases y <;> simp [same]
    exact sameAll_iff fun x hx y => ih x hx
  | hole => cases y <;> simp [same]

instance : DecidableEq Expr := fun _ _ => decidable_of_iff _ same_iff

@[simp] theorem isNil_iff {e : Expr} : e.isNil = true ↔ e = .nil := by
  unfold isNil nil
  split <;> simp_all

end Expr

end LineLisp
