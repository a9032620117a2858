/-
  LineLisp.Proofs.Interpreter

  The meaning of symbolic expressions, without compiling them. An interpreter
  walks the expression itself, and its closures hold the forms of their bodies as
  they were written. Running the node of an expression does the same as
  interpreting the expression: a closure over nodes stands for one over forms
  that compile to them, and with this relation on values both sides end in the
  same way and leave corresponding stores.
-/
import LineLisp.Proofs.CompiledForm
import LineLisp.Proofs.Correspondence
import LineLisp.Proofs.Limit

namespace LineLisp

variable {η : Type}

-- ============================================================================
-- The interpreter
-- ============================================================================

mutual

/-- The value of an expression in a frame. A form that breaks a rule on its shape
    has none. -/
def Expr.interpret [Host η Expr] : Nat → Expr → Nat → Run (Value η Expr) (Value η Expr)
  | 0, _, _ => .fail .tooDeep
  | limit + 1, e, frame =>
    match e with
    | .int n => pure (.int n)
    | .str contents => pure (.datum (.str contents))
    | .sym name => Run.lookup frame name
    | .hole => .fail (.compiling .hole)
    | .list [] => pure .nil
    | .list (head :: args) =>
      match head.special? with
      | some .branch =>
        match args with
        | [condition, consequent] => do
          let chosen ← Expr.interpret limit condition frame
          if chosen.isNil then Expr.interpret limit .nil frame
          else Expr.interpret limit consequent frame
        | [condition, consequent, alternative] => do
          let chosen ← Expr.interpret limit condition frame
          if chosen.isNil then Expr.interpret limit alternative frame
          else Expr.interpret limit consequent frame
        | _ => .fail (.compiling (.malformed .branchCount e))
      | some .assign =>
        match args with
        | [target, form] =>
          match target.symbol? with
          | some name => do
            let value ← Expr.interpret limit form frame
            Run.update fun s => s.define frame name value
            pure value
          | none => .fail (.compiling (.malformed .assignTarget e))
        | _ => .fail (.compiling (.malformed .assignCount e))
      | some .quote =>
        match args with
        | [datum] => pure (.datum datum)
        | _ => .fail (.compiling (.malformed .quoteCount e))
      | some .lambda =>
        match args with
        | params :: first :: others =>
          match params.paramNames? with
          | some names => pure (.closure names (first :: others) frame)
          | none => .fail (.compiling (.malformed .lambdaParams e))
        | _ => .fail (.compiling (.malformed .lambdaCount e))
      | none => do
        let function ← Expr.interpret limit head frame
        let values ← args.mapM fun arg => Expr.interpret limit arg frame
        Value.applyForms limit function values

/-- Applies a value to arguments. The forms of a closure's body are interpreted in
    order in a fresh frame inside its own, and the last one gives the value. -/
def Value.applyForms [Host η Expr] :
    Nat → Value η Expr → List (Value η Expr) → Run (Value η Expr) (Value η Expr)
  | 0, _, _ => .fail .tooDeep
  | limit + 1, function, args =>
    match function with
    | .closure params body scope => do
      let frame ← Run.bindArguments params scope args
      body.foldlM (fun _ form => Expr.interpret limit form frame) .nil
    | .primitive _ .add => .ofExcept (Value.sum args)
    | .primitive _ (.host function) => (Host.act function args).run (Value.applyForms limit)
    | .datum _ => .fail (.notApplicable function)

end

-- ============================================================================
-- Values
-- ============================================================================

/-- Values that stand for each other: the same datum, the same primitive, or two
    closures with the same parameters and frame of which one has forms for its
    body and the other has the nodes of these forms. -/
inductive Value.Compiles : Value η Expr → Value η → Prop where
  | datum (e : Expr) : Compiles (.datum e) (.datum e)
  | closure (params : List String) {forms : List Expr} {nodes : List Node} (scope : Nat)
    (h : List.Forall₂ Expr.CompilesTo forms nodes) :
    Compiles (.closure params forms scope) (.closure params nodes scope)
  | primitive (name : String) (operation : Primitive η) :
    Compiles (.primitive name operation) (.primitive name operation)

/-- The functions of the host take the same steps whether closures hold forms or
    nodes. -/
def HostsCorrespond (η : Type) [Host η Expr] [Host η] : Prop :=
  ∀ (function : η) (vs : List (Value η Expr)) (ws : List (Value η)),
    List.Forall₂ Value.Compiles vs ws →
      (Host.act function vs).Rel Value.Compiles (Host.act function ws)

namespace Value.Compiles

theorem isNil_eq {v : Value η Expr} {w : Value η} (h : v.Compiles w) : v.isNil = w.isNil := by
  cases h with
  | datum e => rfl
  | closure params scope hbody => rfl
  | primitive name operation => rfl

theorem int?_eq {v : Value η Expr} {w : Value η} (h : v.Compiles w) : v.int? = w.int? := by
  cases h with
  | datum e => cases e <;> rfl
  | closure params scope hbody => rfl
  | primitive name operation => rfl

end Value.Compiles

-- ============================================================================
-- Running nodes and interpreting expressions
-- ============================================================================

variable [Host η Expr] [Host η]

/-- With this much room, expressions do the same as the nodes they compile to. -/
def FormsCorrespond (η : Type) [Host η Expr] [Host η] (limit : Nat) : Prop :=
  ∀ (e : Expr) (node : Node) (frame : Nat), e.CompilesTo node →
    Run.Rel Value.Compiles Value.Compiles
      (e.interpret limit frame : Run (Value η Expr) (Value η Expr))
      (node.evaluate limit frame : Run (Value η) (Value η))

/-- With this much room, calls of corresponding functions with corresponding arguments
    do the same. -/
def CallsCorrespond (η : Type) [Host η Expr] [Host η] (limit : Nat) : Prop :=
  ∀ (v : Value η Expr) (w : Value η) (vs : List (Value η Expr)) (ws : List (Value η)),
    v.Compiles w → List.Forall₂ Value.Compiles vs ws →
      Run.Rel Value.Compiles Value.Compiles (v.applyForms limit vs) (w.apply limit ws)

/-- A form and its node run their parts in the same order and with the same room, so
    each kind of form follows from its parts. -/
theorem FormsCorrespond.succ {limit : Nat} (hforms : FormsCorrespond η limit)
    (hcalls : CallsCorrespond η limit) : FormsCorrespond η (limit + 1) := by
  intro e node frame h
  cases h.form with
  | int value => exact .pure (.datum _)
  | str contents => exact .pure (.datum _)
  | sym name => exact .lookup frame name
  | nil => exact .pure (.datum _)
  | @choice head c t cn tn hhead hc ht =>
    rw [Expr.interpret.eq_def, Node.evaluate]
    simp only [hhead]
    refine (hforms c cn frame hc).bind fun v w hvw => ?_
    rw [hvw.isNil_eq]
    split
    · exact hforms .nil _ frame rfl
    · exact hforms t tn frame ht
  | @branch head c t e cn tn en hhead hc ht he =>
    rw [Expr.interpret.eq_def, Node.evaluate]
    simp only [hhead]
    refine (hforms c cn frame hc).bind fun v w hvw => ?_
    rw [hvw.isNil_eq]
    split
    · exact hforms e en frame he
    · exact hforms t tn frame ht
  | @assign head target form name formNode hhead htarget hform =>
    rw [Expr.interpret.eq_def, Node.evaluate]
    simp only [hhead, htarget]
    refine (hforms form formNode frame hform).bind fun v w hvw => ?_
    have hdefine : Run.Rel Value.Compiles (fun _ _ => True)
        (.update fun s : Store (Value η Expr) => s.define frame name v)
        (.update fun t : Store (Value η) => t.define frame name w) :=
      .update fun s t hst => hst.define frame name hvw
    exact hdefine.bind fun _ _ _ => .pure hvw
  | quote hhead datum =>
    rw [Expr.interpret.eq_def, Node.evaluate]
    simp only [hhead]
    exact .pure (.datum datum)
  | @lambda head params first others names nodes hhead hparams hbody =>
    rw [Expr.interpret.eq_def, Node.evaluate]
    simp only [hhead, hparams]
    exact .pure (.closure names frame hbody)
  | @apply head args fn nodes hhead hf hargs =>
    rw [Expr.interpret.eq_def, Node.evaluate]
    simp only [hhead]
    refine (hforms head fn frame hf).bind fun v w hvw => ?_
    refine (Run.Rel.mapM (fun arg argNode harg => hforms arg argNode frame harg) hargs).bind
      fun vs ws hvs => ?_
    exact hcalls v w vs ws hvw hvs

theorem CallsCorrespond.succ {limit : Nat} (hhost : HostsCorrespond η)
    (hforms : FormsCorrespond η limit) (hcalls : CallsCorrespond η limit) :
    CallsCorrespond η (limit + 1) := by
  intro v w vs ws hvw hvs
  cases hvw with
  | datum e =>
    rw [Value.applyForms, Value.apply]
    exact .fail (.notApplicable (.datum e))
  | @closure params forms nodes scope hbody =>
    rw [Value.applyForms, Value.apply]
    refine (Run.Rel.bindArguments params scope hvs).bind fun frame frame' hframe => ?_
    subst hframe
    exact .foldlM (fun _ _ form node _ hform => hforms form node frame hform) hbody (.datum _)
  | primitive name operation =>
    cases operation with
    | add =>
      rw [Value.applyForms, Value.apply]
      exact .ofExcept (.sum (fun _ _ h => h.int?_eq) .datum hvs)
    | host function =>
      rw [Value.applyForms, Value.apply]
      refine .action (fun f g as bs hfg has => ?_) (hhost function vs ws hvs)
      exact hcalls f g as bs hfg has

theorem forms_and_calls_correspond (hhost : HostsCorrespond η) (limit : Nat) :
    FormsCorrespond η limit ∧ CallsCorrespond η limit := by
  induction limit with
  | zero =>
    constructor
    · intro e node frame _
      rw [Expr.interpret, Node.evaluate]
      exact .fail .tooDeep
    · intro v w vs ws _ _
      rw [Value.applyForms, Value.apply]
      exact .fail .tooDeep
  | succ limit ih =>
    obtain ⟨hforms, hcalls⟩ := ih
    exact ⟨hforms.succ hcalls, .succ hhost hforms hcalls⟩

-- ============================================================================
-- Stores
-- ============================================================================

/-- A value whose code is compiled: every node in the body of a closure is the node
    of some form. -/
def Value.IsCompiled : Value η → Prop
  | .closure _ nodes _ => ∀ node ∈ nodes, ∃ form : Expr, form.CompilesTo node
  | _ => True

/-- A store in which all code is compiled. -/
def Store.IsCompiled (t : Store (Value η)) : Prop :=
  ∀ frame ∈ t.frames, ∀ binding ∈ frame.bindings, binding.2.IsCompiled

omit [Host η Expr] [Host η] in
theorem Value.isCompiled_iff {w : Value η} : w.IsCompiled ↔ ∃ v : Value η Expr, v.Compiles w := by
  cases w with
  | datum e => exact ⟨fun _ => ⟨.datum e, .datum e⟩, fun _ => trivial⟩
  | primitive name operation =>
    exact ⟨fun _ => ⟨.primitive name operation, .primitive name operation⟩, fun _ => trivial⟩
  | closure params nodes scope =>
    have hforms : (∀ node ∈ nodes, ∃ form : Expr, form.CompilesTo node) ↔
        ∃ forms : List Expr, List.Forall₂ Expr.CompilesTo forms nodes := by
      rw [← exists_forall₂_iff]
      exact exists_congr fun forms => ⟨List.Forall₂.flip, List.Forall₂.flip⟩
    refine hforms.trans ⟨?_, ?_⟩
    · rintro ⟨forms, hbody⟩
      exact ⟨.closure params forms scope, .closure params scope hbody⟩
    · rintro ⟨_, hv⟩
      cases hv with
      | closure _ _ hbody => exact ⟨_, hbody⟩

omit [Host η Expr] [Host η] in
/-- The stores with compiled code are those that correspond to one with the forms of
    that code. -/
theorem Store.isCompiled_iff {t : Store (Value η)} :
    t.IsCompiled ↔ ∃ s : Store (Value η Expr), s.Rel Value.Compiles t := by
  classical
  constructor
  · intro h
    -- One form of each value is chosen, and put in its place in every frame.
    let source (w : Value η) : Value η Expr :=
      if hw : ∃ v : Value η Expr, v.Compiles w then hw.choose else .nil
    have hsource : ∀ w : Value η, w.IsCompiled → (source w).Compiles w := by
      intro w hw
      have hex := Value.isCompiled_iff.1 hw
      simp only [source, dif_pos hex]
      exact hex.choose_spec
    exact ⟨t.mapValues source, .mapValues fun frame hframe b hb =>
      hsource b.2 (h frame hframe b hb)⟩
  · rintro ⟨s, hst⟩ frame hframe b hb
    obtain ⟨f, hf⟩ := Array.getElem?_of_mem hframe
    have hbindings : (s.bindings f).Rel Value.Compiles frame.bindings := by
      have hrel := hst.bindings f
      rwa [show t.bindings f = frame.bindings by simp only [Store.bindings, hf]] at hrel
    exact Value.isCompiled_iff.2 (hbindings.exists_left hb)

-- ============================================================================
-- The theorem
-- ============================================================================

theorem Outcome.Rel.overflows_iff {ν ν' α β : Type} {R : ν → ν' → Prop} {Q : α → β → Prop}
    {x : Except (Fault ν) α × Store ν} {y : Except (Fault ν') β × Store ν'}
    (h : Outcome.Rel R Q x y) : Outcome.Overflows x ↔ Outcome.Overflows y := by
  obtain ⟨r, s⟩ := x
  obtain ⟨r', t⟩ := y
  obtain ⟨hresult, -⟩ := h
  unfold Outcome.Overflows
  cases hresult with
  | ok hab => exact ⟨nofun, nofun⟩
  | error hfault => cases hfault <;> simp

/-- Compiling preserves meaning. To every store with compiled code there is one with
    forms in place of nodes, and between such stores the node of an expression and
    the expression itself do the same: with the same room they have corresponding
    outcomes, and also with different room, as long as neither lacks any. -/
theorem compiling_preserves_meaning (hhost : HostsCorrespond η) :
    (∀ t : Store (Value η), t.IsCompiled ↔
      ∃ s : Store (Value η Expr), s.Rel Value.Compiles t) ∧
    ∀ (e : Expr) (node : Node), e.compile = .ok node →
      ∀ (frame : Nat) (s : Store (Value η Expr)) (t : Store (Value η)), s.Rel Value.Compiles t →
        (∀ limit : Nat, Outcome.Rel Value.Compiles Value.Compiles
          ((e.interpret limit frame).outcome s) ((node.evaluate limit frame).outcome t)) ∧
        (∀ m n : Nat, ¬ Outcome.Overflows ((e.interpret m frame).outcome s) →
          ¬ Outcome.Overflows ((node.evaluate n frame).outcome t) →
            Outcome.Rel Value.Compiles Value.Compiles
              ((e.interpret m frame).outcome s) ((node.evaluate n frame).outcome t)) := by
  refine ⟨fun t => t.isCompiled_iff, fun e node hnode frame s t hst => ?_⟩
  have hsame : ∀ limit : Nat, Outcome.Rel Value.Compiles Value.Compiles
      ((e.interpret limit frame).outcome s) ((node.evaluate limit frame).outcome t) :=
    fun limit => (forms_and_calls_correspond hhost limit).1 e node frame hnode s t hst
  refine ⟨hsame, fun m n hm hn => ?_⟩
  have hm' : ¬ Outcome.Overflows ((node.evaluate m frame).outcome t) := by
    rwa [← (hsame m).overflows_iff]
  have hnodes : (node.evaluate n frame).outcome t = (node.evaluate m frame).outcome t := by
    rcases Nat.le_total m n with hmn | hnm
    · exact node.evaluate_extends hmn frame t hm'
    · exact (node.evaluate_extends hnm frame t hn).symm
  rw [hnodes]
  exact hsame m

-- ============================================================================
-- A host function that calls back
-- ============================================================================

/-- A host with one function, which calls its first argument on the others. -/
inductive Relay where
  | relay

instance {κ : Type} : Host Relay κ where
  act _ args :=
    match args with
    | function :: others => .call function others .yield
    | [] => .refuse (.host "TypeError" "relay needs a function")

theorem hostsCorrespond_relay : HostsCorrespond Relay := by
  intro function vs ws h
  cases h with
  | nil => exact .refuse (.host _ _)
  | cons hvw hrest => exact .call hvw hrest fun _ _ h => .yield h

/-- A closure made by a call of a closure that a function of the host was given: the
    interpreter yields it with a form, the node with the node of that form. -/
theorem relayed_closure_compiles :
    let root : Bindings (Value Relay Expr) := [("relay", .primitive "relay" (.host .relay))]
    let root' : Bindings (Value Relay) := [("relay", .primitive "relay" (.host .relay))]
    let s : Store (Value Relay Expr) := (Store.empty.add none).defineAll 0 root
    let t : Store (Value Relay) := (Store.empty.add none).defineAll 0 root'
    let keep : Expr := .list [.sym "lambda", .list [.sym "x"],
      .list [.sym "lambda", .list [], .sym "x"]]
    let e : Expr := .list [.sym "relay", keep, .int 5]
    let node : Node := .apply (.lookup "relay")
      [.lambda ["x"] [.lambda [] [.lookup "x"]], .literal (.int 5)]
    HostsCorrespond Relay ∧ e.compile = .ok node ∧ s.Rel Value.Compiles t ∧
      ((e.interpret 9 0).outcome s).1.toOption = some (.closure [] [.sym "x"] 1) ∧
      ((node.evaluate 9 0).outcome t).1.toOption = some (.closure [] [.lookup "x"] 1) ∧
      Outcome.Rel Value.Compiles Value.Compiles
        ((e.interpret 9 0).outcome s) ((node.evaluate 9 0).outcome t) := by
  intro root root' s t keep e node
  have hnode : e.compile = .ok node := rfl
  have hempty : (Store.empty : Store (Value Relay Expr)).Rel Value.Compiles
      (Store.empty : Store (Value Relay)) := ⟨rfl, fun _ => rfl, fun _ => .nil, rfl⟩
  have hst : s.Rel Value.Compiles t :=
    (hempty.add none).defineAll 0 (.cons ⟨rfl, .primitive _ _⟩ .nil)
  have hmain := (compiling_preserves_meaning hostsCorrespond_relay).2 e node hnode 0 s t hst
  exact ⟨hostsCorrespond_relay, hnode, hst, rfl, rfl, hmain.1 9⟩

end LineLisp
