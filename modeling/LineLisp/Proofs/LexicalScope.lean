/-
  LineLisp.Proofs.LexicalScope

  The chains of closures follow the source. Each closure that a run of expressions makes in
  a fresh root comes from a lambda at a place in one of them. The chain of the frame that
  it captures has one frame for each lambda that encloses the place, from the inside out,
  in which the parameters of that lambda are bound, and then the root. Who called whom when
  the closure was made does not matter. Where a closure comes from is told by running placed
  nodes; they take the same steps as nodes.
-/
import LineLisp.Proofs.Interpreter
import LineLisp.Proofs.Placement
import LineLisp.Proofs.SessionStore

namespace LineLisp

variable {η ν ν' : Type}

-- ============================================================================
-- Chains that follow enclosing lambdas
-- ============================================================================

/-- The frames from a frame outward, followed by the root, bind the parameters of the
    enclosing lambdas, each frame those of one. -/
structure Store.Mirrors (s : Store ν) (root frame : Nat) (frames : List Nat)
    (around : List (List String)) : Prop where
  lt : frame < s.next
  outward : s.Outward frame (frames ++ [root])
  binds : List.Forall₂ (fun f params => ∀ param ∈ params, (s.get? f param).isSome = true)
    frames around

namespace Store.Mirrors

variable {s t : Store ν} {root frame : Nat} {frames : List Nat} {around : List (List String)}

theorem grows (h : s.Mirrors root frame frames around) (hwf : s.WellFormed) (hst : s.Grows t) :
    t.Mirrors root frame frames around where
  lt := Nat.lt_of_lt_of_le h.lt hst.next
  outward := h.outward.grows hwf h.lt hst
  binds := h.binds.imp fun f _ hf param hparam => hst.bound f param (hf param hparam)

theorem rooted (h : s.Mirrors root frame frames around) (hwf : s.WellFormed) :
    s.Rooted (· = root) frame :=
  h.outward.rooted hwf h.lt rfl

/-- The frame of a call is one more frame inside, for the lambda that is called. -/
theorem call (h : s.Mirrors root frame frames around) {inner : Nat} {params : List String}
    (hlt : inner < s.next) (hparent : s.parent? inner = some frame)
    (hbound : ∀ param ∈ params, (s.get? inner param).isSome = true) :
    s.Mirrors root inner (inner :: frames) (params :: around) :=
  ⟨hlt, .inside hparent h.outward, .cons hbound h.binds⟩

theorem rel {R : ν → ν' → Prop} {t : Store ν'} (h : s.Mirrors root frame frames around)
    (hst : s.Rel R t) : t.Mirrors root frame frames around where
  lt := hst.next ▸ h.lt
  outward := h.outward.congr fun f => (hst.parent f).symm
  binds := h.binds.imp fun f _ hf param hparam =>
    (isSome_eq_of_rel (hst.get? f param)) ▸ hf param hparam

end Store.Mirrors

-- ============================================================================
-- The policy of lexical scope
-- ============================================================================

/-- The body of a closure comes from a lambda that stands in one of these expressions,
    inside lambdas with these parameters. -/
def Placed.BodyIn (tops : List Expr) (params : List String) (body : List Placed)
    (around : List (List String)) : Prop :=
  ∃ top ∈ tops, ∃ path form nodes, top.place? path = some (around, form) ∧
    form.CompilesTo (.lambda params nodes) ∧ body = Placed.items top path 2 nodes

theorem Placed.top_of_mem_items {top : Expr} {path : List Nat} {i : Nat} {nodes : List Node}
    {part : Placed} (h : part ∈ Placed.items top path i nodes) : part.top = top := by
  induction nodes generalizing i with
  | nil => cases h
  | cons node nodes ih =>
    rcases List.mem_cons.1 h with rfl | h
    · rfl
    · exact ih h

/-- The parts of a placed node come from the same expression. -/
theorem Placed.top_of_mem_parts {code part : Placed} (h : part ∈ (Code.layer code).parts) :
    part.top = code.top := by
  obtain ⟨node, top, path⟩ := code
  cases node with
  | literal datum => cases h
  | lookup name => cases h
  | lambda params body => cases h
  | hole => cases h
  | branch condition consequent alternative =>
    simp only [Code.layer, layer, Layer.parts, List.mem_cons, List.not_mem_nil, or_false] at h
    rcases h with rfl | rfl | rfl <;> rfl
  | assign name value =>
    obtain rfl := List.mem_singleton.1 h
    rfl
  | apply function args =>
    rcases List.mem_cons.1 h with rfl | h
    · rfl
    · exact Placed.top_of_mem_items h

/-- Code is run in frames whose chains follow the lambdas around its place, and closures
    capture such frames. -/
def lexicalPolicy (root : Nat) (tops : List Expr) : CodePolicy η Placed where
  roots := (· = root)
  Holds s v := ∀ params body scope, v = .closure params body scope →
    ∃ around frames, Placed.BodyIn tops params body around ∧ s.Mirrors root scope frames around
  holds_grows hwf hst h := fun params body scope hv => by
    obtain ⟨around, frames, hbody, hscope⟩ := h params body scope hv
    exact ⟨around, frames, hbody, hscope.grows hwf hst⟩
  Fits s code frame := code.top ∈ tops ∧
    ∃ around frames, code.Stands around ∧ s.Mirrors root frame frames around
  fits_grows hwf hst h := by
    obtain ⟨htop, around, frames, hcode, hframe⟩ := h
    exact ⟨htop, around, frames, hcode, hframe.grows hwf hst⟩
  rooted_of_fits hwf h := by
    obtain ⟨-, around, frames, -, hframe⟩ := h
    exact hframe.rooted hwf
  fits_part h hpart := by
    obtain ⟨htop, around, frames, hcode, hframe⟩ := h
    rw [← Placed.top_of_mem_parts hpart] at htop
    exact ⟨htop, around, frames, hcode.part hpart, hframe⟩
  fits_body {s params body scope frame} _ h hlt hparent hbound := by
    obtain ⟨around, frames, ⟨top, htop, path, form, nodes, hplace, hform, rfl⟩, hscope⟩ :=
      h params body scope rfl
    have hlambda : Placed.Stands ⟨.lambda params nodes, top, path⟩ around := .form hplace hform
    intro code hcode
    rw [← Placed.top_of_mem_items hcode] at htop
    exact ⟨htop, params :: around, frame :: frames, hlambda.body rfl code hcode,
      hscope.call hlt hparent hbound⟩
  holds_plain h := by
    rintro params body scope rfl
    cases h
  holds_closure {s code params body frame} h hlayer := by
    obtain ⟨htop, around, frames, hcode, hframe⟩ := h
    intro params' body' scope hv
    cases hv
    refine ⟨around, frames, ?_, hframe⟩
    cases hcode with
    | missing top path around => cases hlayer
    | @form node top form path around hplace hform =>
      cases node with
      | lambda names nodes =>
        cases hlayer
        exact ⟨top, htop, path, form, nodes, hplace, hform, rfl⟩
      | _ => cases hlayer
  rooted_of_holds hwf h := by
    obtain ⟨around, frames, -, hscope⟩ := h _ _ _ rfl
    exact hscope.rooted hwf

-- ============================================================================
-- Runs of expressions in a fresh root
-- ============================================================================

/-- A fresh root in which the same names are bound, where all code is placed nowhere. -/
def Store.placedRoot (s : Store (Value η)) (bindings : Bindings (Value η)) :
    Store (Value η Placed) :=
  (s.mapValues Value.nowhere).withRoot (bindings.map fun b => (b.1, b.2.nowhere))

theorem Value.isClosure_nowhere (v : Value η) : v.nowhere.isClosure = v.isClosure := by
  cases v <;> rfl

theorem Store.mapValues_nowhere_rel (s : Store (Value η)) :
    (s.mapValues Value.nowhere).Rel (Value.Rel Placed.Of) s :=
  .mapValues fun _ _ b _ => b.2.nowhere_rel

theorem Store.placedRoot_rel (s : Store (Value η)) (bindings : Bindings (Value η)) :
    (s.placedRoot bindings).Rel (Value.Rel Placed.Of) (s.withRoot bindings) := by
  have hs := s.mapValues_nowhere_rel
  have hbindings : Bindings.Rel (Value.Rel Placed.Of)
      (bindings.map fun b => (b.1, b.2.nowhere)) bindings := by
    rw [Bindings.Rel, List.forall₂_map_left_iff, List.forall₂_same]
    exact fun b _ => ⟨rfl, b.2.nowhere_rel⟩
  rw [placedRoot, withRoot, withRoot, hs.next]
  exact (hs.add none).defineAll s.next hbindings

section

variable [Host η] [Host η Placed]

/-- Expressions do the same as placed nodes and as nodes, step by step. -/
theorem recordedExprs_rel (hhost : HostsRel η Placed.Of) (frame : Nat)
    (exprs : List (Nat × Expr)) :
    Recorded.Rel (Value.Rel Placed.Of)
      (List.Forall₂ (Result.Rel (Value.Rel Placed.Of) (Value.Rel Placed.Of)))
      (recordedExprs Placed.whole frame exprs :
        Recorded (Value η Placed) (List (Except (Fault (Value η Placed)) (Value η Placed))))
      (recordedExprs bareNode frame exprs :
        Recorded (Value η) (List (Except (Fault (Value η)) (Value η)))) := by
  refine .mapM (E := Eq) (fun a b hab => .settle ?_) (List.forall₂_refl exprs)
  subst hab
  obtain ⟨limit, e⟩ := a
  simp only [recordedExpr]
  cases e.compile with
  | ok node => exact (code_recorded_rel Placed.layer_rel hhost limit).1 _ _ frame rfl
  | error error => exact .fail (.compiling error)

end

/-- A closure among the results of one run corresponds to one in the same place among those
    of the other. -/
theorem exists_yielded_closure {κ κ' : Type} {C : κ → κ' → Prop}
    {results : List (Except (Fault (Value η κ)) (Value η κ))}
    {results' : List (Except (Fault (Value η κ')) (Value η κ'))}
    (hall : List.Forall₂ (Result.Rel (Value.Rel C) (Value.Rel C)) results results') {i : Nat}
    {params : List String} {body' : List κ'} {scope : Nat}
    (hi : results'[i]? = some (.ok (.closure params body' scope))) :
    ∃ body, List.Forall₂ C body body' ∧
      results[i]? = some (.ok (.closure params body scope)) := by
  obtain ⟨hlt', hget⟩ := List.getElem?_eq_some_iff.1 hi
  have hlt : i < results.length := hall.length_eq ▸ hlt'
  have hr : Result.Rel (Value.Rel C) (Value.Rel C) results[i] results'[i] := hall.get hlt hlt'
  rw [hget] at hr
  generalize hfound : results[i] = r at hr
  cases hr with
  | ok hv =>
    obtain ⟨body, hbody, rfl⟩ := hv.exists_closure
    exact ⟨body, hbody, List.getElem?_eq_some_iff.2 ⟨hlt, hfound⟩⟩

/-- The body of a closure comes from a lambda at a place in one of these expressions, and
    the chain of the frame that it captures follows the lambdas that enclose the place: one
    frame for each, from the inside out, that binds at least its parameters, and then the
    root. -/
def CapturesLexically (tops : List Expr) (root : Nat) (t : Store ν) (params : List String)
    (body : List Placed) (scope : Nat) : Prop :=
  ∃ top ∈ tops, ∃ path around form nodes frames,
    top.place? path = some (around, form) ∧ form.CompilesTo (.lambda params nodes) ∧
    body = Placed.items top path 2 nodes ∧
    t.chain scope = frames ++ [root] ∧ (t.chain scope).length = 1 + around.length ∧
    List.Forall₂ (fun f names => ∀ name ∈ names, (t.get? f name).isSome = true) frames around

/-- A closure that keeps to the policy captures a frame as it is written in the source. -/
theorem capturesLexically_of_holds {tops : List Expr} {root : Nat} {t : Store (Value η Placed)}
    {u : Store (Value η)} (htu : t.Rel (Value.Rel Placed.Of) u) (hwf : u.WellFormed)
    {params : List String} {body : List Placed} {scope : Nat}
    (h : (lexicalPolicy root tops).Holds t (.closure params body scope)) :
    CapturesLexically tops root u params body scope := by
  obtain ⟨around, frames, ⟨top, htop, path, form, nodes, hplace, hform, hbody⟩, hscope⟩ :=
    h params body scope rfl
  have hscope' := hscope.rel htu
  have hchain : u.chain scope = frames ++ [root] := hscope'.outward.chain_eq hwf
  refine ⟨top, htop, path, around, form, nodes, frames, hplace, hform, hbody, hchain, ?_,
    hscope'.binds⟩
  rw [hchain, List.length_append, hscope'.binds.length_eq, List.length_singleton, Nat.add_comm]

/-- The expressions that are run in a fresh root, each with its room, with what was there
    before and with what is bound in the root at the start. -/
structure FreshRun (η : Type) where
  before : Store (Value η)
  bindings : Bindings (Value η)
  exprs : List (Nat × Expr)

namespace FreshRun

/-- The root in which the expressions are run. -/
def root (run : FreshRun η) : Nat := run.before.next

/-- The store in which the run begins. -/
def start (run : FreshRun η) : Store (Value η) := run.before.withRoot run.bindings

/-- The expressions without their room. -/
def tops (run : FreshRun η) : List Expr := run.exprs.map Prod.snd

section

variable [Host η]

/-- What comes of the run. -/
def outcome (run : FreshRun η) :
    Except (Fault (Value η)) (List (Except (Fault (Value η)) (Value η))) × Store (Value η) :=
  (runExprs run.root run.exprs).outcome run.start

/-- The history of the run. -/
def history (run : FreshRun η) : List (Step (Value η)) :=
  (recordedExprs bareNode run.root run.exprs).history run.start

/-- The state after some steps of the run. -/
def state (run : FreshRun η) (n : Nat) : Store (Value η) :=
  run.start.replay (run.history.take n)

theorem replay_history (run : FreshRun η) : run.start.replay run.history = run.outcome.2 :=
  (recordedExprs_follows run.root run.exprs).replay_history run.start

end

/-- The run begins in a store of older frames, and no closure is bound in its root. -/
structure Fresh (run : FreshRun η) : Prop where
  wellFormed : run.before.WellFormed
  plain : ∀ b ∈ run.bindings, b.2.isClosure = false

section

variable [Host η Placed]

/-- The outcome and the history of the same run over placed nodes. -/
def placed (run : FreshRun η) :
    Except (Fault (Value η Placed)) (List (Except (Fault (Value η Placed)) (Value η Placed))) ×
      Store (Value η Placed) × List (Step (Value η Placed)) :=
  (recordedExprs Placed.whole run.root run.exprs).outcome
    (run.before.placedRoot run.bindings) []

/-- The state after some steps of the run over placed nodes. -/
def placedState (run : FreshRun η) (n : Nat) : Store (Value η Placed) :=
  (run.before.placedRoot run.bindings).replay (run.placed.2.2.take n)

/-- What a closure has to hold in a run over placed nodes. -/
def policy (run : FreshRun η) : CodePolicy η Placed := lexicalPolicy run.root run.tops

variable {run : FreshRun η}

omit [Host η Placed] in
theorem placedRoot_sound (hrun : run.Fresh) :
    run.policy.Sound (run.before.placedRoot run.bindings) := by
  have hs := run.before.mapValues_nowhere_rel
  have hbefore : run.policy.Sound (run.before.mapValues Value.nowhere) :=
    Policy.sound_of_next_le (hs.wellFormed_iff.2 hrun.wellFormed) fun f hf =>
      Nat.le_of_eq (hs.next.trans hf.symm)
  refine hbefore.withRoot hs.next fun b hb => CodePolicy.holds_plain _ ?_
  obtain ⟨b, hmem, rfl⟩ := List.mem_map.1 hb
  rw [Value.isClosure_nowhere]
  exact hrun.plain b hmem

omit [Host η Placed] in
theorem placedRoot_mirrors (run : FreshRun η) :
    (run.before.placedRoot run.bindings).Mirrors run.root run.root [] [] := by
  have hrel := run.before.placedRoot_rel run.bindings
  refine ⟨?_, .outermost ?_, .nil⟩
  · rw [hrel.next, root]
    simp
  · rw [hrel.parent, root]
    simp

/-- Running placed nodes in a fresh root keeps the policy, whatever comes of them. -/
theorem placed_keptBy (hconfined : HostConfined η Placed) (hrun : run.Fresh) :
    run.policy.KeptBy (recordedExprs Placed.whole run.root run.exprs)
      (fun t results => ∀ r ∈ results, run.policy.After run.policy.Holds t r)
      (run.before.placedRoot run.bindings) := by
  have hsound := placedRoot_sound hrun
  refine (run.policy.upholds_recordedExprs hconfined hsound fun e he node hnode => ?_).keptBy hsound
  exact ⟨he, [], [], Placed.whole_stands hnode, run.placedRoot_mirrors⟩

/-- The closures that are bound in the root or in a later frame keep to the policy. -/
theorem holds_of_bound (hconfined : HostConfined η Placed) (hrun : run.Fresh) {n f : Nat}
    {name : String} {v : Value η Placed} (hf : run.root ≤ f)
    (hv : (run.placedState n).get? f name = some v) :
    run.policy.Holds (run.placedState n) v := by
  have hkept := placed_keptBy hconfined hrun
  refine (hkept.sound n).holds f name v ?_ hv
  rcases Nat.eq_or_lt_of_le hf with rfl | hlt
  · have hroot := run.placedRoot_mirrors.rooted (placedRoot_sound hrun).wellFormed
    exact hroot.grows (Store.grows_replay _ _)
  · refine hkept.rooted n f ?_ (Store.lt_next_of_get? hv)
    rw [(run.before.placedRoot_rel run.bindings).next, Store.next_withRoot]
    exact hlt

/-- The closures that the expressions yield keep to the policy. -/
theorem holds_of_yielded (hconfined : HostConfined η Placed) (hrun : run.Fresh)
    {results : List (Except (Fault (Value η Placed)) (Value η Placed))}
    (hresults : run.placed.1 = .ok results) {v : Value η Placed} (hv : .ok v ∈ results) :
    run.policy.Holds (run.placedState run.placed.2.2.length) v := by
  have hafter := (placed_keptBy hconfined hrun).after
  have hresults' : ((recordedExprs Placed.whole run.root run.exprs).outcome
      (run.before.placedRoot run.bindings) []).1 = .ok results := hresults
  rw [hresults'] at hafter
  rw [placedState, List.take_length]
  exact hafter _ hv

variable [Host η]

/-- The run over placed nodes takes the steps of the run and has its results. -/
theorem placed_rel (hhost : HostsRel η Placed.Of) (run : FreshRun η) :
    Result.Rel (Value.Rel Placed.Of)
      (List.Forall₂ (Result.Rel (Value.Rel Placed.Of) (Value.Rel Placed.Of)))
      run.placed.1 run.outcome.1 ∧
    List.Forall₂ (Step.Rel (Value.Rel Placed.Of)) run.placed.2.2 run.history := by
  obtain ⟨hresults, -, hsteps⟩ := recordedExprs_rel hhost run.root run.exprs
    (run.before.placedRoot run.bindings) run.start [] [] (run.before.placedRoot_rel _) .nil
  rw [(recordedExprs_follows run.root run.exprs).result run.start] at hresults
  exact ⟨hresults, hsteps⟩

theorem placedState_rel (hhost : HostsRel η Placed.Of) (run : FreshRun η) (n : Nat) :
    (run.placedState n).Rel (Value.Rel Placed.Of) (run.state n) :=
  (run.before.placedRoot_rel run.bindings).replay
    (List.forall₂_take n (run.placed_rel hhost).2)

/-- What keeps to the policy in a state of the placed run captures a frame of the run as it
    is written. -/
theorem capturesLexically (hhost : HostsRel η Placed.Of) (hconfined : HostConfined η Placed)
    (hrun : run.Fresh) {n : Nat} {params : List String} {body : List Placed} {scope : Nat}
    (h : run.policy.Holds (run.placedState n) (.closure params body scope)) :
    CapturesLexically run.tops run.root (run.state n) params body scope := by
  have hrel := run.placedState_rel hhost n
  exact capturesLexically_of_holds hrel
    (hrel.wellFormed_iff.1 ((placed_keptBy hconfined hrun).sound n).wellFormed) h

end

end FreshRun

-- ============================================================================
-- The theorem
-- ============================================================================

/-- Lexical scope. Expressions are run one after the other in a fresh root in which no
    closure is bound; some of them may fail. Running them placed takes the same steps. So
    in every state on the way each closure that is bound in the root or in a later frame has
    a counterpart there that tells its place, and captures a frame as it is written: the
    chain has one frame for each lambda that encloses the lambda of the closure, from the
    inside out, which binds at least the parameters of that lambda, and then the root. The
    same holds of the closures that the expressions yield. -/
theorem closures_capture_lexical_chains [Host η] [Host η Placed] (hhost : HostsRel η Placed.Of)
    (hconfined : HostConfined η Placed) (run : FreshRun η) (hrun : run.Fresh) :
    run.start.replay run.history = run.outcome.2 ∧
    List.Forall₂ (Step.Rel (Value.Rel Placed.Of)) run.placed.2.2 run.history ∧
    (∀ n f name params nodes scope, run.root ≤ f →
      (run.state n).get? f name = some (.closure params nodes scope) →
      ∃ body, List.Forall₂ Placed.Of body nodes ∧
        (run.placedState n).get? f name = some (.closure params body scope) ∧
        CapturesLexically run.tops run.root (run.state n) params body scope) ∧
    ∃ results placedResults, run.outcome.1 = .ok results ∧ run.placed.1 = .ok placedResults ∧
      ∀ (i : Nat) params nodes scope, results[i]? = some (.ok (.closure params nodes scope)) →
        ∃ body, List.Forall₂ Placed.Of body nodes ∧
          placedResults[i]? = some (.ok (.closure params body scope)) ∧
          CapturesLexically run.tops run.root run.outcome.2 params body scope := by
  obtain ⟨hresults, hsteps⟩ := run.placed_rel hhost
  refine ⟨run.replay_history, hsteps, ?_, ?_⟩
  · intro n f name params nodes scope hf hget
    obtain ⟨body, hbody, hfound⟩ := (run.placedState_rel hhost n).exists_closure hget
    refine ⟨body, hbody, hfound, FreshRun.capturesLexically hhost hconfined hrun ?_⟩
    exact FreshRun.holds_of_bound hconfined hrun hf hfound
  · obtain ⟨results, hrun'⟩ : ∃ results, run.outcome.1 = .ok results :=
      runExprs_eq_ok run.root run.exprs run.start
    rw [hrun'] at hresults
    generalize hplaced : run.placed.1 = placedOutcome at hresults
    cases hresults with
    | @ok placedResults _ hall =>
      refine ⟨results, placedResults, hrun', rfl, fun i params nodes scope hi => ?_⟩
      obtain ⟨body, hbody, hmem⟩ := exists_yielded_closure hall hi
      refine ⟨body, hbody, hmem, ?_⟩
      have hlast : run.state run.placed.2.2.length = run.outcome.2 := by
        rw [FreshRun.state, hsteps.length_eq, List.take_length, run.replay_history]
      rw [← hlast]
      exact FreshRun.capturesLexically hhost hconfined hrun
        (FreshRun.holds_of_yielded hconfined hrun hplaced (List.mem_of_getElem? hmem))

theorem hostsRel_relay {κ κ' : Type} {C : κ → κ' → Prop} : HostsRel Relay C := by
  intro function vs ws h
  cases h with
  | nil => exact .refuse (.host _ _)
  | cons hvw hrest => exact .call hvw hrest fun _ _ h => .yield h

/-- The innermost of three lambdas makes its closure in a call that a function of the host
    makes inside the call of another closure; an expression before it lacks room, and one
    after it fails. The chain of the closure has the frames of the two lambdas around its
    own and the root, and none of the calls that led to it. -/
theorem relayed_call_captures_lexical_chain :
    let lambda (params : List String) (body : Expr) : Expr :=
      .list [.sym "lambda", .list (params.map .sym), body]
    let innermost : Expr := lambda [] (.list [.sym "x", .sym "y"])
    let make : Expr := .list [.sym "set", .sym "make", lambda ["x"] (lambda ["y"] innermost)]
    let via : Expr :=
      .list [.sym "set", .sym "via", lambda ["f"] (.list [.sym "relay", .sym "f", .int 1])]
    let deep : Expr :=
      .list [.sym "set", .sym "deep", .list [.sym "via", .list [.sym "make", .int 5]]]
    let run : FreshRun Relay :=
      ⟨.empty, [("relay", .primitive "relay" (.host .relay))],
        [(20, make), (20, via), (4, deep), (20, deep), (20, .sym "gone")]⟩
    let body : Node := .apply (.lookup "x") [.lookup "y"]
    HostsRel Relay Placed.Of ∧ HostConfined Relay Placed ∧ run.Fresh ∧
      make.place? [2, 2, 2] = some ([["y"], ["x"]], innermost) ∧
      (run.state 100).get? 0 "deep" = some (.closure [] [body] 4) ∧
      (run.state 100).chain 4 = [4, 2, 0] ∧
      CapturesLexically run.tops run.root (run.state 100) [] [⟨body, make, [2, 2, 2, 2]⟩] 4 := by
  intro lambda innermost make via deep run body
  have hrun : run.Fresh := by
    refine ⟨Store.wellFormed_empty, fun b hb => ?_⟩
    obtain rfl := List.mem_singleton.1 hb
    rfl
  have hdeep : (run.state 100).get? 0 "deep" = some (.closure [] [body] 4) := by decide +kernel
  have hplaced : (run.placedState 100).get? 0 "deep" =
      some (.closure [] [⟨body, make, [2, 2, 2, 2]⟩] 4) := by decide +kernel
  obtain ⟨body', -, hfound, hcaptures⟩ :=
    (closures_capture_lexical_chains hostsRel_relay hostConfined_relay run hrun).2.2.1
      100 0 "deep" [] [body] 4 (Nat.zero_le 0) hdeep
  rw [hplaced] at hfound
  cases hfound
  exact ⟨hostsRel_relay, hostConfined_relay, hrun, by decide +kernel, hdeep, by decide +kernel,
    hcaptures⟩

end LineLisp
