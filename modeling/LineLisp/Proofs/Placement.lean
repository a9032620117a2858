/-
  LineLisp.Proofs.Placement

  Code that knows where it comes from. A place in an expression is a path of item numbers
  that leads through forms that are code; on the way it may enter the bodies of lambdas,
  which are the ones that enclose the place. A placed node is a node with the expression
  and the path that it comes from, and its parts are placed behind it. Running placed nodes
  is running nodes, step by step, so each closure of a run has one place; and what stands
  there compiles to its code.
-/
import LineLisp.Proofs.CompiledForm
import LineLisp.Proofs.HistoryCorrespondence

namespace LineLisp

variable {η : Type}

-- ============================================================================
-- Places
-- ============================================================================

namespace Expr

/-- The item of a form with this number, if it is code. The names of targets and parameters
    and quoted data are not. The item comes with the parameters of the lambda in whose body
    it is, if the form is one. -/
def part? (form : Expr) (i : Nat) : Option (List (List String) × Expr) :=
  match form with
  | .list (head :: args) =>
    match head.special? with
    | some .branch => if i = 0 then none else (args[i - 1]?).map fun item => ([], item)
    | some .assign => if i = 2 then (args[i - 1]?).map fun item => ([], item) else none
    | some .quote => none
    | some .lambda =>
      if i < 2 then none
      else do
        let params ← args[0]?
        let names ← params.paramNames?
        (args[i - 1]?).map fun item => ([names], item)
    | none => ((head :: args)[i]?).map fun item => ([], item)
  | _ => none

section

variable {head item params : Expr} {args : List Expr} {names : List String} {k : Nat}

theorem part?_branch (hhead : head.special? = some .branch) (hk : args[k]? = some item) :
    (Expr.list (head :: args)).part? (k + 1) = some ([], item) := by
  simp only [part?, hhead, if_neg (Nat.succ_ne_zero k), Nat.add_sub_cancel, hk, Option.map_some]

theorem part?_assign (hhead : head.special? = some .assign) (hitem : args[1]? = some item) :
    (Expr.list (head :: args)).part? 2 = some ([], item) := by
  simp only [part?, hhead, if_true, Nat.add_one_sub_one, hitem, Option.map_some]

theorem part?_lambda (hhead : head.special? = some .lambda)
    (hparams : params.paramNames? = some names) (hk : args[k]? = some item) :
    (Expr.list (head :: params :: args)).part? (k + 2) = some ([names], item) := by
  have hbehind : ¬ k + 2 < 2 := Nat.not_lt.2 (Nat.le_add_left 2 k)
  have hnumber : k + 2 - 1 = k + 1 := rfl
  simp only [part?, hhead, if_neg hbehind, hnumber, List.getElem?_cons_zero,
    List.getElem?_cons_succ, hparams, hk, Option.bind_eq_bind, Option.bind_some, Option.map_some]

theorem part?_apply (hhead : head.special? = none) (hk : (head :: args)[k]? = some item) :
    (Expr.list (head :: args)).part? k = some ([], item) := by
  simp only [part?, hhead, hk, Option.map_some]

end

/-- The form at a place in an expression, with the parameters of the lambdas that enclose
    the place, the innermost first. The path to the place is given from its end, that is,
    with the number of the last item in front. -/
def place? (top : Expr) : List Nat → Option (List (List String) × Expr)
  | [] => some ([], top)
  | i :: path => do
    let (around, form) ← top.place? path
    let (entered, item) ← form.part? i
    pure (entered ++ around, item)

theorem place?_cons {top form item : Expr} {path : List Nat} {around entered : List (List String)}
    {i : Nat} (h : top.place? path = some (around, form))
    (hitem : form.part? i = some (entered, item)) :
    top.place? (i :: path) = some (entered ++ around, item) := by
  simp only [place?, h, hitem, Option.bind_eq_bind, Option.bind_some, Option.pure_def]

-- The inner of two lambdas, in an item of an application, and its body.
example :
    let inner : Expr := .list [.sym "lambda", .list [.sym "y"], .sym "x"]
    let outer : Expr := .list [.sym "lambda", .list [.sym "x"], inner]
    let top : Expr := .list [.sym "f", outer]
    top.place? [2, 1] = some ([["x"]], inner) ∧
      top.place? [2, 2, 1] = some ([["y"], ["x"]], .sym "x") ∧ top.place? [1, 2, 1] = none := by
  decide

end Expr

-- ============================================================================
-- Placed nodes
-- ============================================================================

/-- A node with the expression and the path to the place in it that the node comes from. -/
structure Placed where
  node : Node
  top : Expr
  path : List Nat
  deriving DecidableEq

namespace Placed

/-- Nodes that come from the items of one form that begin with this number. -/
def items (top : Expr) (path : List Nat) : Nat → List Node → List Placed
  | _, [] => []
  | i, node :: nodes => ⟨node, top, i :: path⟩ :: items top path (i + 1) nodes

/-- What a placed node does. Its parts are placed at the items of the form. -/
def layer : Placed → Layer Placed
  | ⟨.literal datum, _, _⟩ => .literal datum
  | ⟨.lookup name, _, _⟩ => .lookup name
  | ⟨.branch condition consequent alternative, top, path⟩ =>
    .branch ⟨condition, top, 1 :: path⟩ ⟨consequent, top, 2 :: path⟩ ⟨alternative, top, 3 :: path⟩
  | ⟨.assign name value, top, path⟩ => .assign name ⟨value, top, 2 :: path⟩
  | ⟨.lambda params body, top, path⟩ => .lambda params (items top path 2 body)
  | ⟨.apply function args, top, path⟩ =>
    .apply ⟨function, top, 0 :: path⟩ (items top path 1 args)
  | ⟨.hole, _, _⟩ => .hole

instance : Code Placed := ⟨layer⟩

/-- The node of a whole expression. -/
def whole (top : Expr) (node : Node) : Placed := ⟨node, top, []⟩

/-- A node of which nothing is known. -/
def nowhere (node : Node) : Placed := ⟨node, .hole, []⟩

-- ============================================================================
-- Running placed nodes
-- ============================================================================

/-- A placed node and its node. -/
def Of (code : Placed) (node : Node) : Prop := code.node = node

theorem items_of (top : Expr) (path : List Nat) (i : Nat) (nodes : List Node) :
    List.Forall₂ Of (items top path i nodes) nodes := by
  induction nodes generalizing i with
  | nil => exact .nil
  | cons node nodes ih => exact .cons rfl (ih (i + 1))

/-- A placed node does what its node does. -/
theorem layer_rel (code : Placed) (node : Node) (h : code.Of node) :
    (Code.layer code).Rel Of (Code.layer node) := by
  obtain ⟨same, top, path⟩ := code
  obtain rfl : same = node := h
  cases same with
  | literal datum => exact .literal datum
  | lookup name => exact .lookup name
  | branch condition consequent alternative => exact .branch rfl rfl rfl
  | assign name value => exact .assign name rfl
  | lambda params body => exact .lambda params (items_of top path 2 body)
  | apply function args => exact .apply rfl (items_of top path 1 args)
  | hole => exact .hole

end Placed

/-- A value whose closures come from nowhere. -/
def Value.nowhere : Value η → Value η Placed
  | .datum e => .datum e
  | .closure params body scope => .closure params (body.map Placed.nowhere) scope
  | .primitive name operation => .primitive name operation

theorem Value.nowhere_rel (v : Value η) : v.nowhere.Rel Placed.Of v := by
  cases v with
  | datum e => exact .datum e
  | primitive name operation => exact .primitive name operation
  | closure params body scope =>
    refine .closure params scope ?_
    rw [List.forall₂_map_left_iff, List.forall₂_same]
    exact fun _ _ => rfl

-- ============================================================================
-- What stands at a place
-- ============================================================================

/-- A placed node stands where it says, inside lambdas with these parameters: the form
    there compiles to it. A choice without a third part has the empty list in its place,
    which stands anywhere. -/
inductive Placed.Stands : Placed → List (List String) → Prop where
  | form {node : Node} {top form : Expr} {path : List Nat} {around : List (List String)}
    (hplace : top.place? path = some (around, form)) (h : form.CompilesTo node) :
    Stands ⟨node, top, path⟩ around
  | missing (top : Expr) (path : List Nat) (around : List (List String)) :
    Stands ⟨.literal .nil, top, path⟩ around

namespace Placed

theorem whole_stands {top : Expr} {node : Node} (h : top.compile = .ok node) :
    (whole top node).Stands [] :=
  .form rfl h

/-- Nodes of consecutive items stand where these items are. -/
theorem items_stand {top form : Expr} {path : List Nat} {around entered : List (List String)}
    (hplace : top.place? path = some (around, form)) {items : List Expr} {nodes : List Node}
    (hnodes : List.Forall₂ Expr.CompilesTo items nodes) (i : Nat)
    (hitems : ∀ k item, items[k]? = some item → form.part? (i + k) = some (entered, item)) :
    ∀ part ∈ Placed.items top path i nodes, part.Stands (entered ++ around) := by
  induction hnodes generalizing i with
  | nil => exact nofun
  | @cons item node items nodes hnode _ ih =>
    intro part hpart
    rcases List.mem_cons.1 hpart with rfl | hpart
    · exact .form (Expr.place?_cons hplace (hitems 0 item rfl)) hnode
    · refine ih (i + 1) (fun k item hk => ?_) part hpart
      rw [Nat.add_assoc, Nat.add_comm 1 k]
      exact hitems (k + 1) item hk

/-- The parts of a node that are run in its frame stand inside the same lambdas. -/
theorem Stands.part {code part : Placed} {around : List (List String)} (h : code.Stands around)
    (hpart : part ∈ (Code.layer code).parts) : part.Stands around := by
  cases h with
  | missing top path around => cases hpart
  | @form node top form path around hplace hform =>
    -- An item of the form that is code, in the body of no further lambda.
    have hitem : ∀ i item node, form.part? i = some ([], item) → item.CompilesTo node →
        Stands ⟨node, top, i :: path⟩ around := fun i item node hi hnode =>
      .form (Expr.place?_cons hplace hi) hnode
    cases hform.form with
    | int value => cases hpart
    | str contents => cases hpart
    | sym name => cases hpart
    | nil => cases hpart
    | quote hhead datum => cases hpart
    | lambda hhead hparams hbody => cases hpart
    | @choice head c t cn tn hhead hc ht =>
      simp only [Code.layer, layer, Layer.parts, List.mem_cons, List.not_mem_nil, or_false] at hpart
      rcases hpart with rfl | rfl | rfl
      · exact hitem 1 c cn (Expr.part?_branch hhead rfl) hc
      · exact hitem 2 t tn (Expr.part?_branch hhead rfl) ht
      · exact .missing top _ around
    | @branch head c t e cn tn en hhead hc ht he =>
      simp only [Code.layer, layer, Layer.parts, List.mem_cons, List.not_mem_nil, or_false] at hpart
      rcases hpart with rfl | rfl | rfl
      · exact hitem 1 c cn (Expr.part?_branch hhead rfl) hc
      · exact hitem 2 t tn (Expr.part?_branch hhead rfl) ht
      · exact hitem 3 e en (Expr.part?_branch hhead rfl) he
    | @assign head target value name vn hhead htarget hvalue =>
      obtain rfl := List.mem_singleton.1 hpart
      exact hitem 2 value vn (Expr.part?_assign hhead rfl) hvalue
    | @apply head args fn nodes hhead hf hargs =>
      rcases List.mem_cons.1 hpart with rfl | hpart
      · exact hitem 0 head fn (Expr.part?_apply hhead rfl) hf
      · have hitems : ∀ k item, args[k]? = some item →
            (Expr.list (head :: args)).part? (1 + k) = some ([], item) := by
          intro k item hk
          rw [Nat.add_comm 1 k]
          exact Expr.part?_apply hhead ((List.getElem?_cons_succ ..).trans hk)
        exact items_stand hplace hargs 1 hitems part hpart

/-- The body of a lambda stands inside that lambda as well. -/
theorem Stands.body {code : Placed} {params : List String} {body : List Placed}
    {around : List (List String)} (h : code.Stands around)
    (hlayer : Code.layer code = .lambda params body) :
    ∀ part ∈ body, part.Stands (params :: around) := by
  cases h with
  | missing top path around => cases hlayer
  | @form node top form path around hplace hform =>
    cases hform.form with
    | int value => cases hlayer
    | str contents => cases hlayer
    | sym name => cases hlayer
    | nil => cases hlayer
    | quote hhead datum => cases hlayer
    | choice hhead hc ht => cases hlayer
    | branch hhead hc ht he => cases hlayer
    | assign hhead htarget hvalue => cases hlayer
    | apply hhead hf hargs => cases hlayer
    | @lambda head paramList first others names nodes hhead hparams hbody =>
      cases hlayer
      have hitems : ∀ k item, (first :: others)[k]? = some item →
          (Expr.list (head :: paramList :: first :: others)).part? (2 + k) =
            some ([params], item) := by
        intro k item hk
        rw [Nat.add_comm 2 k]
        exact Expr.part?_lambda hhead hparams hk
      exact items_stand hplace hbody 2 hitems

end Placed

end LineLisp
