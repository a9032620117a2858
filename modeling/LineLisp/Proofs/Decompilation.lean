/-
  LineLisp.Proofs.Decompilation

  Compiling backwards. From a node an expression can be put together that compiles to it,
  as long as the node has no hole, no lambda without a body, and no application whose
  function is a lookup of the name of a special form; and these are the nodes that
  expressions compile to. From the node of an expression the expression comes back, with
  all data that are code behind a quote. So nothing else is lost in a node.
-/
import LineLisp.Proofs.CompiledForm

namespace LineLisp

-- ============================================================================
-- Names of special forms
-- ============================================================================

namespace SpecialForm

/-- The name that a special form has at the head of a list. -/
def name : SpecialForm → String
  | branch => "if"
  | assign => "set"
  | quote => "quote"
  | lambda => "lambda"

theorem ofName?_eq_some_iff {text : String} {form : SpecialForm} :
    ofName? text = some form ↔ text = form.name := by
  constructor
  · intro h
    unfold ofName? at h
    split_ifs at h <;> cases h <;> assumption
  · rintro rfl
    cases form <;> rfl

end SpecialForm

namespace Expr

theorem symbol?_eq_some_iff {e : Expr} {name : String} : e.symbol? = some name ↔ e = .sym name := by
  cases e <;> simp [symbol?]

theorem special?_eq_some_iff {head : Expr} {form : SpecialForm} :
    head.special? = some form ↔ head = .sym form.name := by
  rw [special?, Option.bind_eq_some_iff]
  constructor
  · rintro ⟨name, hname, hform⟩
    rw [symbol?_eq_some_iff.1 hname, SpecialForm.ofName?_eq_some_iff.1 hform]
  · rintro rfl
    exact ⟨form.name, rfl, SpecialForm.ofName?_eq_some_iff.2 rfl⟩

theorem paramNames?_eq_some_iff {params : Expr} {names : List String} :
    params.paramNames? = some names ↔ params = .list (names.map .sym) := by
  cases params with
  | list items =>
    show items.mapM symbol? = some names ↔ _
    rw [Expr.list.injEq]
    induction items generalizing names with
    | nil => cases names <;> simp
    | cons item items ih =>
      constructor
      · intro h
        simp only [List.mapM_cons, Option.bind_eq_bind, Option.bind_eq_some_iff, Option.pure_def,
          Option.some.injEq] at h
        obtain ⟨name, hname, others, hothers, rfl⟩ := h
        rw [symbol?_eq_some_iff.1 hname, ih.1 hothers, List.map_cons]
      · intro h
        obtain ⟨name, others, rfl, hname, hothers⟩ := List.map_eq_cons_iff.1 h.symm
        rw [List.mapM_cons, symbol?_eq_some_iff.2 hname.symm, ih.2 hothers.symm]
        rfl
  | _ => simp [paramNames?]

/-- A special form with these items behind its name. -/
def special (form : SpecialForm) (args : List Expr) : Expr := .list (.sym form.name :: args)

/-- A datum behind a quote. -/
def quoted (datum : Expr) : Expr := special .quote [datum]

end Expr

-- ============================================================================
-- From nodes to expressions
-- ============================================================================

namespace Node

mutual

/-- An expression that says what a node does. -/
def decompile : Node → Expr
  | .literal datum => .quoted datum
  | .lookup name => .sym name
  | .branch condition consequent alternative =>
    .special .branch [decompile condition, decompile consequent, decompile alternative]
  | .assign name value => .special .assign [.sym name, decompile value]
  | .lambda params body => .special .lambda (.list (params.map .sym) :: decompileAll body)
  | .apply function args => .list (decompile function :: decompileAll args)
  | .hole => .hole

/-- Expressions that say what nodes do. -/
def decompileAll : List Node → List Expr
  | [] => []
  | n :: ns => decompile n :: decompileAll ns

end

theorem decompileAll_eq_map (ns : List Node) : decompileAll ns = ns.map decompile := by
  induction ns with
  | nil => rfl
  | cons n ns ih => rw [decompileAll, ih, List.map_cons]

/-- Nodes that expressions can stand for: without holes, with something in the body of each
    lambda, and with no application whose function is the value of a name that a special
    form has. -/
inductive Expressible : Node → Prop where
  | literal (datum : Expr) : Expressible (.literal datum)
  | lookup (name : String) : Expressible (.lookup name)
  | branch {condition consequent alternative : Node} (hc : condition.Expressible)
    (ht : consequent.Expressible) (he : alternative.Expressible) :
    Expressible (.branch condition consequent alternative)
  | assign (name : String) {value : Node} (hvalue : value.Expressible) :
    Expressible (.assign name value)
  | lambda (params : List String) {body : List Node} (hne : body ≠ [])
    (hbody : ∀ n ∈ body, n.Expressible) : Expressible (.lambda params body)
  | apply {function : Node} {args : List Node} (hfunction : function.Expressible)
    (hname : ∀ form : SpecialForm, function ≠ .lookup form.name)
    (hargs : ∀ n ∈ args, n.Expressible) : Expressible (.apply function args)

end Node

namespace Expr

-- ============================================================================
-- Data written behind a quote
-- ============================================================================

mutual

/-- An expression with all data in it that are code written behind a quote, and with the
    empty list, behind a quote, for the third part of a choice that has none. -/
def spelledOut : Expr → Expr
  | .int n => .quoted (.int n)
  | .str contents => .quoted (.str contents)
  | .sym name => .sym name
  | .hole => .hole
  | .list [] => .quoted .nil
  | .list (head :: args) =>
    match head.special? with
    | some .branch =>
      match args with
      | [condition, consequent] =>
        .list [head, condition.spelledOut, consequent.spelledOut, .quoted .nil]
      | [condition, consequent, alternative] =>
        .list [head, condition.spelledOut, consequent.spelledOut, alternative.spelledOut]
      | _ => .list (head :: args)
    | some .assign =>
      match args with
      | [target, value] => .list [head, target, value.spelledOut]
      | _ => .list (head :: args)
    | some .quote => .list (head :: args)
    | some .lambda =>
      match args with
      | params :: body => .list (head :: params :: spelledOutAll body)
      | [] => .list [head]
    | none => .list (head.spelledOut :: spelledOutAll args)

/-- Each of some expressions with its data behind a quote. -/
def spelledOutAll : List Expr → List Expr
  | [] => []
  | e :: es => e.spelledOut :: spelledOutAll es

end

theorem spelledOutAll_eq_map (es : List Expr) : spelledOutAll es = es.map spelledOut := by
  induction es with
  | nil => rfl
  | cons e es ih => rw [spelledOutAll, ih, List.map_cons]

section

variable {head : Expr}

theorem spelledOut_choice (hhead : head.special? = some .branch) (c t : Expr) :
    (Expr.list [head, c, t]).spelledOut =
      .list [head, c.spelledOut, t.spelledOut, .quoted .nil] := by
  rw [spelledOut.eq_def]
  simp only [hhead]

theorem spelledOut_branch (hhead : head.special? = some .branch) (c t e : Expr) :
    (Expr.list [head, c, t, e]).spelledOut =
      .list [head, c.spelledOut, t.spelledOut, e.spelledOut] := by
  rw [spelledOut.eq_def]
  simp only [hhead]

theorem spelledOut_assign (hhead : head.special? = some .assign) (target value : Expr) :
    (Expr.list [head, target, value]).spelledOut = .list [head, target, value.spelledOut] := by
  rw [spelledOut.eq_def]
  simp only [hhead]

theorem spelledOut_quote (hhead : head.special? = some .quote) (args : List Expr) :
    (Expr.list (head :: args)).spelledOut = .list (head :: args) := by
  rw [spelledOut.eq_def]
  simp only [hhead]

theorem spelledOut_lambda (hhead : head.special? = some .lambda) (params : Expr)
    (body : List Expr) :
    (Expr.list (head :: params :: body)).spelledOut =
      .list (head :: params :: body.map spelledOut) := by
  rw [spelledOut.eq_def]
  simp only [hhead, spelledOutAll_eq_map]

theorem spelledOut_apply (hhead : head.special? = none) (args : List Expr) :
    (Expr.list (head :: args)).spelledOut = .list (head.spelledOut :: args.map spelledOut) := by
  rw [spelledOut.eq_def]
  simp only [hhead, spelledOutAll_eq_map]

end

end Expr

-- ============================================================================
-- There and back
-- ============================================================================

namespace Node

variable {n : Node}

/-- What stands for a function in an application is no name of a special form. -/
theorem Expressible.special?_decompile (hname : ∀ form : SpecialForm, n ≠ .lookup form.name) :
    n.decompile.special? = none := by
  rw [Option.eq_none_iff_forall_ne_some]
  intro form hform
  have heq : n.decompile = .sym form.name := Expr.special?_eq_some_iff.1 hform
  cases n with
  | lookup name =>
    rw [decompile, Expr.sym.injEq] at heq
    exact hname form (heq ▸ rfl)
  | _ => cases heq

theorem forall₂_decompile {nodes : List Node} (h : ∀ n ∈ nodes, n.decompile.CompilesTo n) :
    List.Forall₂ Expr.CompilesTo (nodes.map decompile) nodes := by
  rw [List.forall₂_map_left_iff, List.forall₂_same]
  exact h

/-- An expression that stands for a node compiles to it. -/
theorem Expressible.compilesTo (h : n.Expressible) : n.decompile.CompilesTo n := by
  refine Expr.CompiledForm.compilesTo ?_
  have keyword : ∀ form : SpecialForm, (Expr.sym form.name).special? = some form :=
    fun form => Expr.special?_eq_some_iff.2 rfl
  induction h with
  | literal datum => exact .quote (keyword .quote) datum
  | lookup name => exact .sym name
  | branch _ _ _ hc ht he =>
    exact .branch (keyword .branch) hc.compilesTo ht.compilesTo he.compilesTo
  | assign name _ hvalue => exact .assign (keyword .assign) rfl hvalue.compilesTo
  | @lambda params body hne _ hbody =>
    have hparams : (Expr.list (params.map .sym)).paramNames? = some params :=
      Expr.paramNames?_eq_some_iff.2 rfl
    rw [decompile, decompileAll_eq_map]
    obtain ⟨first, others, rfl⟩ := List.exists_cons_of_ne_nil hne
    refine .lambda (keyword .lambda) hparams ?_
    exact forall₂_decompile fun n hn => (hbody n hn).compilesTo
  | apply _ hname _ hfunction hargs =>
    rw [decompile, decompileAll_eq_map]
    refine .apply (Expressible.special?_decompile hname) hfunction.compilesTo ?_
    exact forall₂_decompile fun n hn => (hargs n hn).compilesTo

end Node

namespace Expr

/-- An expression comes back from its node, with its data spelled out. -/
structure ComesBack (e : Expr) (n : Node) : Prop where
  expressible : n.Expressible
  decompile_eq : n.decompile = e.spelledOut

theorem comesBack_all {es : List Expr} {nodes : List Node}
    (h : List.Forall₂ ComesBack es nodes) :
    (∀ n ∈ nodes, n.Expressible) ∧ nodes.map Node.decompile = es.map spelledOut := by
  induction h with
  | nil => exact ⟨nofun, rfl⟩
  | cons hfirst _ ih =>
    obtain ⟨hrest, heq⟩ := ih
    refine ⟨List.forall_mem_cons.2 ⟨hfirst.expressible, hrest⟩, ?_⟩
    rw [List.map_cons, List.map_cons, hfirst.decompile_eq, heq]

/-- Every expression that compiles comes back. The induction is on the expression, and the
    cases are the forms that compile. -/
theorem CompilesTo.comesBack {e : Expr} {n : Node} (h : e.CompilesTo n) : e.ComesBack n := by
  induction e generalizing n with
  | int value =>
    cases h
    exact ⟨.literal _, rfl⟩
  | sym name =>
    cases h
    exact ⟨.lookup name, rfl⟩
  | str contents =>
    cases h
    exact ⟨.literal _, rfl⟩
  | hole => cases h
  | list items ih =>
    have hall : ∀ {es : List Expr} {nodes : List Node}, es ⊆ items →
        List.Forall₂ CompilesTo es nodes → List.Forall₂ ComesBack es nodes := by
      intro es nodes hes hnodes
      have hmem : List.Forall₂ (fun e n => e ∈ items ∧ e.CompilesTo n) es nodes :=
        (List.forall₂_and_left _ _).2 ⟨fun e he => hes he, hnodes⟩
      exact hmem.imp fun e n ⟨he, hcompile⟩ => ih e he hcompile
    cases h.form with
    | nil => exact ⟨.literal _, rfl⟩
    | @choice head c t cn tn hhead hc ht =>
      have hname : head = .sym SpecialForm.branch.name := special?_eq_some_iff.1 hhead
      obtain ⟨hcn, hceq⟩ := ih c (by simp) hc
      obtain ⟨htn, hteq⟩ := ih t (by simp) ht
      refine ⟨.branch hcn htn (.literal _), ?_⟩
      rw [spelledOut_choice hhead, ← hceq, ← hteq, hname]
      rfl
    | @branch head c t e cn tn en hhead hc ht he =>
      have hname : head = .sym SpecialForm.branch.name := special?_eq_some_iff.1 hhead
      obtain ⟨hcn, hceq⟩ := ih c (by simp) hc
      obtain ⟨htn, hteq⟩ := ih t (by simp) ht
      obtain ⟨hen, heeq⟩ := ih e (by simp) he
      refine ⟨.branch hcn htn hen, ?_⟩
      rw [spelledOut_branch hhead, ← hceq, ← hteq, ← heeq, hname]
      rfl
    | @assign head target form name node hhead htarget hform =>
      have hname : head = .sym SpecialForm.assign.name := special?_eq_some_iff.1 hhead
      obtain ⟨hnode, heq⟩ := ih form (by simp) hform
      refine ⟨.assign name hnode, ?_⟩
      rw [spelledOut_assign hhead, ← heq, hname, symbol?_eq_some_iff.1 htarget]
      rfl
    | @quote head hhead datum =>
      have hname : head = .sym SpecialForm.quote.name := special?_eq_some_iff.1 hhead
      refine ⟨.literal datum, ?_⟩
      rw [spelledOut_quote hhead, hname]
      rfl
    | @lambda head params first others names nodes hhead hparams hbody =>
      have hname : head = .sym SpecialForm.lambda.name := special?_eq_some_iff.1 hhead
      obtain ⟨hnodes, heq⟩ := comesBack_all (hall (by simp) hbody)
      have hne : nodes ≠ [] := by
        rintro rfl
        cases hbody
      refine ⟨.lambda names hne hnodes, ?_⟩
      rw [spelledOut_lambda hhead, ← heq, hname, paramNames?_eq_some_iff.1 hparams, Node.decompile,
        Node.decompileAll_eq_map]
      rfl
    | @apply head args fn nodes hhead hf hargs =>
      obtain ⟨hfn, hfeq⟩ := ih head (by simp) hf
      obtain ⟨hnodes, heq⟩ := comesBack_all (hall (by simp) hargs)
      refine ⟨.apply hfn ?_ hnodes, ?_⟩
      · rintro form rfl
        cases hf.form with
        | sym _ =>
          have hspecial : (Expr.sym form.name).special? = some form := special?_eq_some_iff.2 rfl
          rw [hspecial] at hhead
          cases hhead
      · rw [spelledOut_apply hhead, ← hfeq, ← heq, Node.decompile, Node.decompileAll_eq_map]

end Expr

-- ============================================================================
-- The theorem
-- ============================================================================

end LineLisp
