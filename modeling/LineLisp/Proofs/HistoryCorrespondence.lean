/-
  LineLisp.Proofs.HistoryCorrespondence

  Recorded runs over two kinds of code, related step by step. Pieces of code correspond
  if they do the same and their parts correspond; closures correspond if their bodies do.
  Then recorded runs that begin in corresponding stores take corresponding steps and end
  in the same way (`code_recorded_rel`), so that all states on their ways correspond.
-/
import LineLisp.Proofs.Correspondence
import LineLisp.Proofs.Layers

namespace LineLisp

variable {η κ κ' ν ν' α α' β β' : Type}

-- ============================================================================
-- Steps
-- ============================================================================

/-- Steps of one kind with the same data, up to a relation on values. -/
inductive Step.Rel (R : ν → ν' → Prop) : Step ν → Step ν' → Prop where
  | enter (frame scope : Nat) : Rel R (.enter frame scope) (.enter frame scope)
  | bind (frame : Nat) (name : String) {v : ν} {w : ν'} (h : R v w) :
    Rel R (.bind frame name v) (.bind frame name w)
  | leave (frame : Nat) : Rel R (.leave frame) (.leave frame)
  | tell (line : String) : Rel R (.tell line) (.tell line)

section

variable {R : ν → ν' → Prop} {s : Store ν} {t : Store ν'}

theorem Store.Rel.wellFormed_iff (h : s.Rel R t) : s.WellFormed ↔ t.WellFormed := by
  simp only [Store.WellFormed, h.parent]

theorem Store.Rel.step (h : s.Rel R t) {a : Step ν} {b : Step ν'} (hab : a.Rel R b) :
    (a.apply s).Rel R (b.apply t) := by
  cases hab with
  | enter frame scope => exact h.add (some scope)
  | bind frame name hvw => exact h.define frame name hvw
  | leave frame => exact h
  | tell line => exact h.tell line

theorem Store.Rel.replay (h : s.Rel R t) {steps : List (Step ν)} {steps' : List (Step ν')}
    (hsteps : List.Forall₂ (Step.Rel R) steps steps') :
    (s.replay steps).Rel R (t.replay steps') := by
  induction hsteps generalizing s t with
  | nil => exact h
  | cons hab _ ih => exact ih (h.step hab)

end

-- ============================================================================
-- Recorded runs
-- ============================================================================

namespace Recorded

/-- Recorded runs that correspond: from corresponding stores and histories, their results
    correspond, and so do the stores and histories that they leave. -/
def Rel (R : ν → ν' → Prop) (Q : α → β → Prop) (x : Recorded ν α) (y : Recorded ν' β) : Prop :=
  ∀ s t past past', s.Rel R t → List.Forall₂ (Step.Rel R) past past' →
    Result.Rel R Q (x.outcome s past).1 (y.outcome t past').1 ∧
    (x.outcome s past).2.1.Rel R (y.outcome t past').2.1 ∧
    List.Forall₂ (Step.Rel R) (x.outcome s past).2.2 (y.outcome t past').2.2

namespace Rel

variable {R : ν → ν' → Prop} {Q : α → β → Prop} {P : α' → β' → Prop}

theorem pure {a : α} {b : β} (h : Q a b) :
    Rel R Q (pure a : Recorded ν α) (pure b : Recorded ν' β) :=
  fun _ _ _ _ hst hpast => ⟨.ok h, hst, hpast⟩

theorem fail {f : Fault ν} {g : Fault ν'} (h : f.Rel R g) :
    Rel R Q (Recorded.fail f) (Recorded.fail g) :=
  fun _ _ _ _ hst hpast => ⟨.error h, hst, hpast⟩

theorem ofExcept {r : Except (Fault ν) α} {r' : Except (Fault ν') β} (h : Result.Rel R Q r r') :
    Rel R Q (Recorded.ofExcept r) (Recorded.ofExcept r') := by
  cases h with
  | ok hab => exact .pure hab
  | error hfault => exact .fail hfault

theorem perform {a : Step ν} {b : Step ν'} (h : a.Rel R b) :
    Rel R (fun _ _ => True) (Recorded.perform a) (Recorded.perform b) :=
  fun _ _ _ _ hst hpast => ⟨.ok trivial, hst.step h, List.rel_append hpast (.cons h .nil)⟩

theorem bind {x : Recorded ν α} {y : Recorded ν' β} {f : α → Recorded ν α'}
    {g : β → Recorded ν' β'} (hxy : Rel R Q x y) (hfg : ∀ a b, Q a b → Rel R P (f a) (g b)) :
    Rel R P (x >>= f) (y >>= g) := by
  intro s t past past' hst hpast
  obtain ⟨hresult, hstore, hsteps⟩ := hxy s t past past' hst hpast
  rw [outcome_bind, outcome_bind]
  rcases hx : x.outcome s past with ⟨r, s', now⟩
  rcases hy : y.outcome t past' with ⟨r', t', now'⟩
  rw [hx, hy] at hresult hstore hsteps
  cases hresult with
  | ok hab => exact hfg _ _ hab s' t' now now' hstore hsteps
  | error hfault => exact ⟨.error hfault, hstore, hsteps⟩

theorem settle {x : Recorded ν α} {y : Recorded ν' β} (h : Rel R Q x y) :
    Rel R (Result.Rel R Q) (Recorded.settle x) (Recorded.settle y) := by
  intro s t past past' hst hpast
  obtain ⟨hresult, hrest⟩ := h s t past past' hst hpast
  exact ⟨.ok hresult, hrest⟩

theorem attempt {x : Recorded ν α} {y : Recorded ν' β} (h : Rel R Q x y) :
    Rel R (Result.Rel R Q) (Recorded.attempt x) (Recorded.attempt y) :=
  h.settle.bind fun _ _ hr => .ofExcept hr.recover

theorem mapM {E : α → β → Prop} {f : α → Recorded ν α'} {g : β → Recorded ν' β'}
    (h : ∀ a b, E a b → Rel R P (f a) (g b)) {as : List α} {bs : List β}
    (hs : List.Forall₂ E as bs) : Rel R (List.Forall₂ P) (as.mapM f) (bs.mapM g) := by
  induction hs with
  | nil =>
    rw [List.mapM_nil, List.mapM_nil]
    exact .pure .nil
  | @cons a b as bs hab _ ih =>
    rw [List.mapM_cons, List.mapM_cons]
    refine (h a b hab).bind fun c d hcd => ?_
    exact ih.bind fun cs ds hcds => .pure (.cons hcd hcds)

theorem foldlM {E : α → β → Prop} {f : α' → α → Recorded ν α'} {g : β' → β → Recorded ν' β'}
    (h : ∀ c d a b, P c d → E a b → Rel R P (f c a) (g d b)) {as : List α} {bs : List β}
    (hs : List.Forall₂ E as bs) {c : α'} {d : β'} (hcd : P c d) :
    Rel R P (as.foldlM f c) (bs.foldlM g d) := by
  induction hs generalizing c d with
  | nil =>
    rw [List.foldlM_nil, List.foldlM_nil]
    exact .pure hcd
  | @cons a b as bs hab _ ih =>
    rw [List.foldlM_cons, List.foldlM_cons]
    exact (h c d a b hcd hab).bind fun c' d' hcd' => ih hcd'

theorem lookup (frame : Nat) (name : String) :
    Rel R R (Recorded.lookup frame name) (Recorded.lookup frame name) := by
  intro s t past past' hst hpast
  have hlookup := hst.lookup? frame name
  simp only [Recorded.lookup, outcome_bind, outcome_get]
  generalize s.lookup? frame name = found at hlookup
  generalize t.lookup? frame name = found' at hlookup
  cases hlookup with
  | none => exact ⟨.error (.unbound name), hst, hpast⟩
  | some hvw => exact ⟨.ok hvw, hst, hpast⟩

theorem performBinds (frame : Nat) {bs : Bindings ν} {cs : Bindings ν'} (h : bs.Rel R cs) :
    Rel R (fun _ _ => True) (Recorded.performBinds frame bs) (Recorded.performBinds frame cs) := by
  induction h with
  | nil => exact .pure trivial
  | @cons b c bs cs hbc _ ih =>
    obtain ⟨name, v⟩ := b
    obtain ⟨name', w⟩ := c
    obtain ⟨rfl, hvw⟩ : name = name' ∧ R v w := hbc
    exact (Rel.perform (.bind frame name hvw)).bind fun _ _ _ => ih

theorem enterCall (params : List String) (scope : Nat) {vs : List ν} {ws : List ν'}
    (h : List.Forall₂ R vs ws) :
    Rel R (fun f g => f = g) (Recorded.enterCall params scope vs)
      (Recorded.enterCall params scope ws) := by
  unfold Recorded.enterCall
  rw [h.length_eq]
  split
  case isFalse => exact .fail (.arity _ _)
  case isTrue =>
    have henter : Rel R (fun f g => f = g) (Recorded.enter scope : Recorded ν Nat)
        (Recorded.enter scope : Recorded ν' Nat) := by
      intro s t past past' hst hpast
      have hstep : Step.Rel R (.enter s.next scope) (.enter t.next scope) :=
        hst.next ▸ .enter s.next scope
      exact ⟨.ok hst.next, hst.add (some scope), List.rel_append hpast (.cons hstep .nil)⟩
    refine henter.bind fun frame frame' hframe => ?_
    subst hframe
    exact (Rel.performBinds frame (.zip params h)).bind fun _ _ _ => .pure rfl

theorem leaving (frame : Nat) {x : Recorded ν α} {y : Recorded ν' β} (h : Rel R Q x y) :
    Rel R Q (Recorded.leaving frame x) (Recorded.leaving frame y) :=
  h.settle.bind fun _ _ hr => (Rel.perform (.leave frame)).bind fun _ _ _ => .ofExcept hr

theorem action {call : ν → List ν → Recorded ν ν} {call' : ν' → List ν' → Recorded ν' ν'}
    (hcall : ∀ f g vs ws, R f g → List.Forall₂ R vs ws → Rel R R (call f vs) (call' g ws))
    {a : Action ν} {b : Action ν'} (h : a.Rel R b) :
    Rel R R (a.recorded call) (b.recorded call') := by
  induction h with
  | yield hvw => exact .pure hvw
  | refuse hfault => exact .fail hfault
  | tell line _ ih => exact (Rel.perform (.tell line)).bind fun _ _ _ => ih
  | @ask a b _ ih =>
    intro s t past past' hst hpast
    have hnext := ih s.journal s t past past' hst hpast
    rw [hst.journal] at hnext
    simp only [Action.recorded, outcome_bind, outcome_get, hst.journal]
    exact hnext
  | call hf hargs _ ih => exact (hcall _ _ _ _ hf hargs).bind fun v w hvw => ih v w hvw
  | attempt hf hargs _ ih =>
    exact (hcall _ _ _ _ hf hargs).attempt.bind fun r r' hr => ih r r' hr

end Rel

end Recorded

-- ============================================================================
-- Code
-- ============================================================================

/-- Layers that do the same and whose parts correspond. -/
inductive Layer.Rel (C : κ → κ' → Prop) : Layer κ → Layer κ' → Prop where
  | literal (datum : Expr) : Rel C (.literal datum) (.literal datum)
  | lookup (name : String) : Rel C (.lookup name) (.lookup name)
  | branch {c t e : κ} {c' t' e' : κ'} (hc : C c c') (ht : C t t') (he : C e e') :
    Rel C (.branch c t e) (.branch c' t' e')
  | assign (name : String) {part : κ} {part' : κ'} (h : C part part') :
    Rel C (.assign name part) (.assign name part')
  | lambda (params : List String) {body : List κ} {body' : List κ'}
    (h : List.Forall₂ C body body') : Rel C (.lambda params body) (.lambda params body')
  | apply {part : κ} {part' : κ'} {parts : List κ} {parts' : List κ'} (h : C part part')
    (hs : List.Forall₂ C parts parts') : Rel C (.apply part parts) (.apply part' parts')
  | hole : Rel C .hole .hole

/-- Values that correspond: the same datum, the same primitive, or closures with the same
    parameters and frame and corresponding bodies. -/
inductive Value.Rel (C : κ → κ' → Prop) : Value η κ → Value η κ' → Prop where
  | datum (e : Expr) : Rel C (.datum e) (.datum e)
  | closure (params : List String) {body : List κ} {body' : List κ'} (scope : Nat)
    (h : List.Forall₂ C body body') :
    Rel C (.closure params body scope) (.closure params body' scope)
  | primitive (name : String) (operation : Primitive η) :
    Rel C (.primitive name operation) (.primitive name operation)

/-- The functions of the host take the same steps on corresponding values. -/
def HostsRel (η : Type) (C : κ → κ' → Prop) [Host η κ] [Host η κ'] : Prop :=
  ∀ (function : η) (vs : List (Value η κ)) (ws : List (Value η κ')),
    List.Forall₂ (Value.Rel C) vs ws →
      (Host.act function vs).Rel (Value.Rel C) (Host.act function ws)

section

variable {C : κ → κ' → Prop}

theorem Value.Rel.isNil_eq {v : Value η κ} {w : Value η κ'} (h : v.Rel C w) :
    v.isNil = w.isNil := by
  cases h with
  | datum e => rfl
  | closure params scope hbody => rfl
  | primitive name operation => rfl

theorem Value.Rel.int?_eq {v : Value η κ} {w : Value η κ'} (h : v.Rel C w) : v.int? = w.int? := by
  cases h with
  | datum e => cases e <;> rfl
  | closure params scope hbody => rfl
  | primitive name operation => rfl

/-- What corresponds to a closure is a closure. -/
theorem Value.Rel.exists_closure {v : Value η κ} {params : List String} {body' : List κ'}
    {scope : Nat} (h : v.Rel C (.closure params body' scope)) :
    ∃ body, List.Forall₂ C body body' ∧ v = .closure params body scope := by
  cases h with
  | closure _ _ hbody => exact ⟨_, hbody, rfl⟩

/-- A closure that is bound in one store corresponds to one that is bound in the other. -/
theorem Store.Rel.exists_closure {s : Store (Value η κ)} {t : Store (Value η κ')}
    (hst : s.Rel (Value.Rel C) t) {f : Nat} {name : String} {params : List String}
    {body' : List κ'} {scope : Nat} (h : t.get? f name = some (.closure params body' scope)) :
    ∃ body, List.Forall₂ C body body' ∧ s.get? f name = some (.closure params body scope) := by
  have hrel := hst.get? f name
  rw [h] at hrel
  generalize s.get? f name = found at hrel
  cases hrel with
  | some hv =>
    obtain ⟨body, hbody, rfl⟩ := hv.exists_closure
    exact ⟨body, hbody, rfl⟩

variable [Code κ] [Code κ'] [Host η κ] [Host η κ']

/-- With this much room, code that corresponds takes corresponding steps. -/
def RunsRel (η : Type) [Host η κ] [Host η κ'] (C : κ → κ' → Prop) (limit : Nat) : Prop :=
  ∀ (code : κ) (code' : κ') (frame : Nat), C code code' →
    Recorded.Rel (Value.Rel C) (Value.Rel C)
      (Code.recorded limit code frame : Recorded (Value η κ) (Value η κ))
      (Code.recorded limit code' frame : Recorded (Value η κ') (Value η κ'))

/-- With this much room, calls of corresponding functions take corresponding steps. -/
def CallsRel (η : Type) [Host η κ] [Host η κ'] (C : κ → κ' → Prop) (limit : Nat) : Prop :=
  ∀ (v : Value η κ) (w : Value η κ') (vs : List (Value η κ)) (ws : List (Value η κ')),
    v.Rel C w → List.Forall₂ (Value.Rel C) vs ws →
      Recorded.Rel (Value.Rel C) (Value.Rel C) (v.recordedCall limit vs) (w.recordedCall limit ws)

theorem RunsRel.succ (hcode : ∀ c c', C c c' → (Code.layer c).Rel C (Code.layer c'))
    {limit : Nat} (hruns : RunsRel η C limit) (hcalls : CallsRel η C limit) :
    RunsRel η C (limit + 1) := by
  intro code code' frame hcorr
  have hlayer := hcode code code' hcorr
  rw [Code.recorded, Code.recorded]
  generalize Code.layer code = layer at hlayer
  generalize Code.layer code' = layer' at hlayer
  cases hlayer with
  | literal datum => exact .pure (.datum datum)
  | lookup name => exact .lookup frame name
  | branch hcond ht he =>
    refine (hruns _ _ frame hcond).bind fun v w hvw => ?_
    rw [hvw.isNil_eq]
    split
    · exact hruns _ _ frame he
    · exact hruns _ _ frame ht
  | assign name hpart =>
    refine (hruns _ _ frame hpart).bind fun v w hvw => ?_
    exact (Recorded.Rel.perform (.bind frame name hvw)).bind fun _ _ _ => .pure hvw
  | lambda params hbody => exact .pure (.closure params frame hbody)
  | apply hpart hparts =>
    refine (hruns _ _ frame hpart).bind fun v w hvw => ?_
    refine (Recorded.Rel.mapM (fun c c' hc => hruns c c' frame hc) hparts).bind
      fun vs ws hvs => ?_
    exact hcalls v w vs ws hvw hvs
  | hole => exact .fail .unknownNode

theorem CallsRel.succ (hhost : HostsRel η C) {limit : Nat} (hruns : RunsRel η C limit)
    (hcalls : CallsRel η C limit) : CallsRel η C (limit + 1) := by
  intro v w vs ws hvw hvs
  cases hvw with
  | datum e =>
    rw [Value.recordedCall, Value.recordedCall]
    exact .fail (.notApplicable (.datum e))
  | closure params scope hbody =>
    rw [Value.recordedCall, Value.recordedCall]
    refine (Recorded.Rel.enterCall params scope hvs).bind fun frame frame' hframe => ?_
    subst hframe
    exact .leaving frame (.foldlM (fun _ _ c c' _ hc => hruns c c' frame hc) hbody (.datum _))
  | primitive name operation =>
    cases operation with
    | add =>
      rw [Value.recordedCall, Value.recordedCall]
      exact .ofExcept (.sum (fun _ _ h => h.int?_eq) .datum hvs)
    | host function =>
      rw [Value.recordedCall, Value.recordedCall]
      exact .action hcalls (hhost function vs ws hvs)

/-- Code that corresponds layer by layer takes corresponding steps. The induction is on the
    limit, for code and for calls at once. -/
theorem code_recorded_rel (hcode : ∀ c c', C c c' → (Code.layer c).Rel C (Code.layer c'))
    (hhost : HostsRel η C) (limit : Nat) : RunsRel η C limit ∧ CallsRel η C limit := by
  induction limit with
  | zero =>
    constructor
    · intro code code' frame _
      rw [Code.recorded, Code.recorded]
      exact .fail .tooDeep
    · intro v w vs ws _ _
      rw [Value.recordedCall, Value.recordedCall]
      exact .fail .tooDeep
  | succ limit ih =>
    obtain ⟨hruns, hcalls⟩ := ih
    exact ⟨hruns.succ hcode hcalls, .succ hhost hruns hcalls⟩

end

end LineLisp
