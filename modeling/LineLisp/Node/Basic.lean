/-
  LineLisp.Node.Basic

  Nodes: the form in which expressions are run. Every node says what to do, so
  running it needs no further look at the shape of the source.
-/
import LineLisp.Expr.Basic

namespace LineLisp

/-- A compiled expression. A hole stands where a node should be and none was
    given; compiling never makes one, and it cannot be run. -/
inductive Node where
  /-- A fixed datum. -/
  | literal (datum : Expr)
  /-- The value of a name. -/
  | lookup (name : String)
  /-- A choice: the second part unless the first yields the empty list, in
      which case the third. -/
  | branch (condition consequent alternative : Node)
  /-- Binding a name in the current frame. -/
  | assign (name : String) (value : Node)
  /-- Making a closure. -/
  | lambda (params : List String) (body : List Node)
  /-- Applying a function to arguments. -/
  | apply (function : Node) (args : List Node)
  | hole
  deriving Repr, Inhabited

namespace Node

-- ============================================================================
-- Induction
-- ============================================================================

/-- Induction over nodes: a property of all nodes in a body or among arguments
    carries over to the closure or the application. -/
@[elab_as_elim, induction_eliminator]
theorem induct {motive : Node → Prop} (literal : ∀ datum, motive (.literal datum))
    (lookup : ∀ name, motive (.lookup name))
    (branch : ∀ condition consequent alternative, motive condition → motive consequent →
      motive alternative → motive (.branch condition consequent alternative))
    (assign : ∀ name value, motive value → motive (.assign name value))
    (lambda : ∀ params body, (∀ n ∈ body, motive n) → motive (.lambda params body))
    (apply : ∀ function args, motive function → (∀ n ∈ args, motive n) →
      motive (.apply function args))
    (hole : motive .hole) (n : Node) : motive n :=
  @Node.rec motive (fun nodes => ∀ n ∈ nodes, motive n) literal lookup branch assign lambda apply
    hole (fun _ h => nomatch h)
    (fun _ _ hhead htail _ h => (List.mem_cons.1 h).elim (fun heq => heq ▸ hhead) (htail _)) n

-- ============================================================================
-- Equality
-- ============================================================================

mutual

/-- Whether two nodes are the same. -/
def same : Node → Node → Bool
  | .literal d, .literal e => d == e
  | .lookup x, .lookup y => x == y
  | .branch c t e, .branch c' t' e' => same c c' && same t t' && same e e'
  | .assign x n, .assign y m => x == y && same n m
  | .lambda ps b, .lambda qs c => ps == qs && sameAll b c
  | .apply f xs, .apply g ys => same f g && sameAll xs ys
  | .hole, .hole => true
  | _, _ => false

/-- Whether two lists of nodes are the same. -/
def sameAll : List Node → List Node → Bool
  | [], [] => true
  | x :: xs, y :: ys => same x y && sameAll xs ys
  | _, _ => false

end

theorem sameAll_iff {xs ys : List Node} (h : ∀ x ∈ xs, ∀ y, same x y = true ↔ x = y) :
    sameAll xs ys = true ↔ xs = ys := by
  induction xs generalizing ys with
  | nil => cases ys <;> simp [sameAll]
  | cons x xs ih =>
    cases ys with
    | nil => simp [sameAll]
    | cons y ys =>
      have hx := h x List.mem_cons_self y
      have hxs := @ih ys fun z hz => h z (List.mem_cons_of_mem _ hz)
      simp [sameAll, hx, hxs]

theorem same_iff {x y : Node} : same x y = true ↔ x = y := by
  induction x generalizing y with
  | literal d => cases y <;> simp [same]
  | lookup x => cases y <;> simp [same]
  | branch c t e hc ht he => cases y <;> simp [same, hc, ht, he, and_assoc]
  | assign x n hn => cases y <;> simp [same, hn]
  | lambda ps b hb =>
    cases y <;> simp [same]
    rw [sameAll_iff fun x hx y => hb x hx]
    simp
  | apply f xs hf hxs =>
    cases y <;> simp [same, hf]
    rw [sameAll_iff fun x hx y => hxs x hx]
    simp
  | hole => cases y <;> simp [same]

instance : DecidableEq Node := fun _ _ => decidable_of_iff _ same_iff

end Node

end LineLisp
