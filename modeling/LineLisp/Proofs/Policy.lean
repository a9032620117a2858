/-
  LineLisp.Proofs.Policy

  Invariants of the store that every step of a run keeps. A policy says on which roots a
  run works and what has to hold of the values that it binds: calls begin in frames on
  these roots, names are bound in frames on these roots, and every value bound there
  holds what it has to. A policy for code says in addition which code may be run in which
  frame; what it owes is one fact for each way in which code comes to a frame and each
  way in which a value comes about (`CodePolicy`). Then all steps of all runs keep the
  policy, also those of runs that fail, given that the host makes no closures itself
  (`CodePolicy.upholds`).
-/
import LineLisp.Proofs.Ancestry
import LineLisp.Proofs.Layers

namespace LineLisp

variable {η κ ν α β : Type}

-- ============================================================================
-- Hosts that make no closures
-- ============================================================================

/-- The values that a fault carries. -/
def Fault.values : Fault ν → List ν
  | .notApplicable value => [value]
  | .notInteger _ _ value => [value]
  | _ => []

/-- The values that a call hands back. -/
def Fault.handedBack : Except (Fault ν) ν → List ν
  | .ok value => [value]
  | .error fault => fault.values

/-- An action that uses the values that are known to it and no others. It comes to know
    what its calls hand back. -/
def Action.Uses : Action ν → (ν → Prop) → Prop
  | .yield value, known => known value
  | .refuse fault, known => ∀ v ∈ fault.values, known v
  | .tell _ next, known => next.Uses known
  | .ask next, known => ∀ lines, (next lines).Uses known
  | .call function args next, known =>
    known function ∧ (∀ arg ∈ args, known arg) ∧
      ∀ value, (next value).Uses fun v => known v ∨ v = value
  | .attempt function args next, known =>
    known function ∧ (∀ arg ∈ args, known arg) ∧
      ∀ result, (next result).Uses fun v => known v ∨ v ∈ Fault.handedBack result

/-- Whether a value is a closure. -/
def Value.isClosure : Value η κ → Bool
  | .closure _ _ _ => true
  | _ => false

/-- The functions of the host make no closures: the closures that they use are arguments
    of theirs, or were handed back by calls. -/
def HostConfined (η κ : Type) [Host η κ] : Prop :=
  ∀ (function : η) (args : List (Value η κ)),
    (Host.act function args).Uses fun v => v.isClosure = false ∨ v ∈ args

/-- The fault of a sum carries one of the arguments. -/
theorem Value.sumFrom_values {args : List (Value η κ)} {total : Int} {position : Nat}
    {fault : Fault (Value η κ)} (h : sumFrom total position args = .error fault) :
    ∀ v ∈ fault.values, v ∈ args := by
  induction args generalizing total position with
  | nil => cases h
  | cons arg args ih =>
    simp only [sumFrom, asInt] at h
    cases hint : arg.int? with
    | some n =>
      simp only [hint] at h
      exact fun v hv => List.mem_cons_of_mem _ (ih h v hv)
    | none =>
      simp only [hint] at h
      cases h
      exact fun v hv => (List.mem_singleton.1 hv) ▸ List.mem_cons_self

/-- A fresh frame that lies in no other, with these bindings. -/
def Store.withRoot (s : Store ν) (bindings : Bindings ν) : Store ν :=
  (s.add none).defineAll s.next bindings

@[simp] theorem Store.next_withRoot (s : Store ν) (bindings : Bindings ν) :
    (s.withRoot bindings).next = s.next + 1 := by
  simp [Store.withRoot]

@[simp] theorem Store.parent?_withRoot (s : Store ν) (bindings : Bindings ν) :
    (s.withRoot bindings).parent? s.next = none := by
  simp [Store.withRoot, Store.parent?_add_self]

-- ============================================================================
-- Policies
-- ============================================================================

/-- The roots on which runs work, and what has to hold of the values that they bind.
    It goes on to hold when the store grows. -/
structure Policy (ν : Type) where
  roots : Nat → Prop
  Holds : Store ν → ν → Prop
  holds_grows : ∀ {s t : Store ν} {v : ν}, s.WellFormed → s.Grows t → Holds s v → Holds t v

namespace Policy

variable {P : Policy ν} {s t : Store ν}

/-- The invariant of a policy. -/
structure Sound (P : Policy ν) (s : Store ν) : Prop where
  wellFormed : s.WellFormed
  holds : ∀ f name v, s.Rooted P.roots f → s.get? f name = some v → P.Holds s v

/-- The steps that a policy allows. -/
def Allows (P : Policy ν) (s : Store ν) : Step ν → Prop
  | .enter frame scope => frame = s.next ∧ s.Rooted P.roots scope
  | .bind frame _ value => s.Rooted P.roots frame ∧ P.Holds s value
  | .leave _ => True
  | .tell _ => True

/-- The histories in which every step is allowed. -/
def AllowsAll (P : Policy ν) (s : Store ν) : List (Step ν) → Prop
  | [] => True
  | step :: steps => P.Allows s step ∧ P.AllowsAll (step.apply s) steps

end Policy

theorem Step.grows (step : Step ν) (s : Store ν) : s.Grows (step.apply s) := by
  cases step with
  | enter frame scope => exact .add s _
  | bind frame name value => exact .define s frame name value
  | leave frame => exact .refl s
  | tell line => exact .tell s line

theorem Store.grows_replay (s : Store ν) (steps : List (Step ν)) : s.Grows (s.replay steps) := by
  induction steps generalizing s with
  | nil => exact .refl s
  | cons step steps ih => exact (step.grows s).trans (ih _)

namespace Policy

variable {P : Policy ν} {s t : Store ν}

/-- A step that is allowed keeps the invariant. -/
theorem Sound.step (hs : P.Sound s) {step : Step ν} (hstep : P.Allows s step) :
    P.Sound (step.apply s) := by
  have hgrow : s.Grows (step.apply s) := step.grows s
  -- What was bound before the step holds after it.
  have hold : ∀ f name v, (step.apply s).Rooted P.roots f → s.get? f name = some v →
      P.Holds (step.apply s) v := by
    intro f name v hf hv
    have hf' : s.Rooted P.roots f := hf.of_grows hs.wellFormed (Store.lt_next_of_get? hv) hgrow
    exact P.holds_grows hs.wellFormed hgrow (hs.holds f name v hf' hv)
  cases step with
  | enter frame scope =>
    refine ⟨hs.wellFormed.add fun g hg => ?_, fun f name v hf hv => ?_⟩
    · obtain rfl := Option.some.inj hg
      exact hstep.2.lt_next
    · exact hold f name v hf ((Store.get?_add s _ f name).symm.trans hv)
  | bind frame name value =>
    refine ⟨hs.wellFormed.define frame name value, fun f other v hf hv => ?_⟩
    by_cases heq : f = frame ∧ other = name
    · obtain ⟨rfl, rfl⟩ := heq
      have hself := Store.get?_define_self hstep.1.lt_next other value
      obtain rfl : value = v := Option.some.inj (hself.symm.trans hv)
      exact P.holds_grows hs.wellFormed hgrow hstep.2
    · have hne := Store.get?_define_of_ne (s := s) (Decidable.not_and_iff_or_not.1 heq) value
      exact hold f other v hf (hne.symm.trans hv)
  | leave frame => exact hs
  | tell line => exact ⟨hs.wellFormed, hold⟩

/-- Of a root that is not there yet nothing is asked. -/
theorem sound_of_next_le (hwf : s.WellFormed) (hroots : ∀ f, P.roots f → s.next ≤ f) :
    P.Sound s := by
  have hnone : ∀ f, ¬ s.Rooted P.roots f := by
    intro f hf
    induction hf with
    | @root f hlt _ hroot => exact absurd hlt (Nat.not_lt.2 (hroots f hroot))
    | inside _ _ _ ih => exact ih
  exact ⟨hwf, fun f name v hf _ => absurd hf (hnone f)⟩

/-- An empty frame that lies in no other keeps the invariant. -/
theorem Sound.addRoot (hs : P.Sound s) : P.Sound (s.add none) := by
  have hgrow : s.Grows (s.add none) := .add s none
  refine ⟨hs.wellFormed.add (by simp), fun f name v hf hv => ?_⟩
  rw [Store.get?_add] at hv
  have hf' : s.Rooted P.roots f := hf.of_grows hs.wellFormed (Store.lt_next_of_get? hv) hgrow
  exact P.holds_grows hs.wellFormed hgrow (hs.holds f name v hf' hv)

theorem Sound.defineAll (hs : P.Sound s) {frame : Nat} (hframe : s.Rooted P.roots frame)
    {bindings : Bindings ν} (hb : ∀ b ∈ bindings, P.Holds s b.2) :
    P.Sound (s.defineAll frame bindings) := by
  induction bindings generalizing s with
  | nil => exact hs
  | cons b rest ih =>
    obtain ⟨name, value⟩ := b
    have hstep : P.Allows s (.bind frame name value) := ⟨hframe, hb _ List.mem_cons_self⟩
    have hgrow := Step.grows (.bind frame name value) s
    exact ih (hs.step hstep) (hframe.grows hgrow) fun b hmem =>
      P.holds_grows hs.wellFormed hgrow (hb b (List.mem_cons_of_mem _ hmem))

/-- A fresh root keeps the invariant if all that is bound there holds what it has to. -/
theorem Sound.withRoot (hs : P.Sound s) (hroot : P.roots s.next) {bindings : Bindings ν}
    (hb : ∀ b ∈ bindings, P.Holds (s.add none) b.2) : P.Sound (s.withRoot bindings) :=
  hs.addRoot.defineAll (.root (by simp) (Store.parent?_add_self s none) hroot) hb

theorem AllowsAll.sound {steps : List (Step ν)} (h : P.AllowsAll s steps) (hs : P.Sound s) :
    P.Sound (s.replay steps) := by
  induction steps generalizing s with
  | nil => exact hs
  | cons step steps ih => exact ih h.2 (hs.step h.1)

theorem allowsAll_append {before after : List (Step ν)} :
    P.AllowsAll s (before ++ after) ↔
      P.AllowsAll s before ∧ P.AllowsAll (s.replay before) after := by
  induction before generalizing s with
  | nil => exact ⟨fun h => ⟨trivial, h⟩, fun h => h.2⟩
  | cons step before ih =>
    constructor
    · rintro ⟨hstep, hrest⟩
      obtain ⟨hbefore, hafter⟩ := ih.1 hrest
      exact ⟨⟨hstep, hbefore⟩, hafter⟩
    · rintro ⟨⟨hstep, hbefore⟩, hafter⟩
      exact ⟨hstep, ih.2 ⟨hbefore, hafter⟩⟩

theorem AllowsAll.take {steps : List (Step ν)} (h : P.AllowsAll s steps) (n : Nat) :
    P.AllowsAll s (steps.take n) := by
  rw [← List.take_append_drop n steps, allowsAll_append] at h
  exact h.1

/-- The frames that come about in a history stand on the roots of the policy. -/
theorem AllowsAll.rooted_of_le {steps : List (Step ν)} (h : P.AllowsAll s steps) {f : Nat}
    (hnew : s.next ≤ f) (hlt : f < (s.replay steps).next) :
    (s.replay steps).Rooted P.roots f := by
  induction steps generalizing s with
  | nil => exact absurd hlt (Nat.not_lt.2 hnew)
  | cons step steps ih =>
    obtain ⟨hstep, hrest⟩ := h
    by_cases hf : (step.apply s).next ≤ f
    · exact ih hrest hf hlt
    · cases step with
      | enter frame scope =>
        obtain rfl : f = s.next := by
          have hnext : (Step.apply s (.enter frame scope)).next = s.next + 1 := Store.next_add ..
          omega
        refine Store.Rooted.grows ?_ (Store.grows_replay _ steps)
        have hscope : (s.add (some scope)).Rooted P.roots scope := hstep.2.grows (.add s _)
        exact .inside (by simp [Step.apply]) (Store.parent?_add_self s _) hscope
      | bind frame name value => simp [Step.apply, hnew] at hf
      | leave frame => exact absurd hnew hf
      | tell line => exact absurd hnew hf

-- ============================================================================
-- Runs that keep a policy
-- ============================================================================

/-- What has to hold after an outcome: of a result whatever is asked, of a fault that
    its values hold what they have to. -/
def After (P : Policy ν) (Q : Store ν → α → Prop) (s : Store ν) : Except (Fault ν) α → Prop
  | .ok a => Q s a
  | .error fault => ∀ v ∈ fault.values, P.Holds s v

/-- From a store, a run takes steps that are allowed, and its outcome is as asked. -/
def Upholds (P : Policy ν) (s : Store ν) (x : Recorded ν α) (Q : Store ν → α → Prop) : Prop :=
  ∃ steps r, (∀ past, x.outcome s past = (r, s.replay steps, past ++ steps)) ∧
    P.AllowsAll s steps ∧ P.After Q (s.replay steps) r

/-- A call that has begun: its frame lies in the frame of the closure and binds all
    parameters. -/
structure Begun (P : Policy ν) (params : List String) (scope : Nat) (s : Store ν) (frame : Nat) :
    Prop where
  rooted : s.Rooted P.roots frame
  parent : s.parent? frame = some scope
  bound : ∀ param ∈ params, (s.get? frame param).isSome = true

namespace Upholds

variable {x : Recorded ν α} {Q : Store ν → α → Prop} {R : Store ν → β → Prop}

theorem pure {a : α} (h : Q s a) : P.Upholds s (pure a) Q :=
  ⟨[], .ok a, fun past => by simp, trivial, h⟩

theorem fail {fault : Fault ν} (h : ∀ v ∈ fault.values, P.Holds s v) :
    P.Upholds s (Recorded.fail fault) Q :=
  ⟨[], .error fault, fun past => by simp, trivial, h⟩

/-- A fault that carries no values has nothing to hold. -/
theorem failBare {fault : Fault ν} (h : fault.values = []) :
    P.Upholds s (Recorded.fail fault : Recorded ν α) Q :=
  .fail (by simp [h])

theorem ofExcept {r : Except (Fault ν) α} (h : P.After Q s r) :
    P.Upholds s (Recorded.ofExcept r) Q := by
  cases r with
  | ok a => exact .pure h
  | error fault => exact .fail h

theorem perform {step : Step ν} (h : P.Allows s step) :
    P.Upholds s (Recorded.perform step) fun t _ => t = step.apply s :=
  ⟨[step], .ok (), fun past => by simp, ⟨h, trivial⟩, rfl⟩

/-- The store has grown after a run. -/
theorem grown (h : P.Upholds s x Q) : P.Upholds s x fun t a => s.Grows t ∧ Q t a := by
  obtain ⟨steps, r, hout, hsteps, hafter⟩ := h
  refine ⟨steps, r, hout, hsteps, ?_⟩
  cases r with
  | ok a => exact ⟨s.grows_replay steps, hafter⟩
  | error fault => exact hafter

theorem mono {Q' : Store ν → α → Prop} (h : P.Upholds s x Q) (hQ : ∀ t a, Q t a → Q' t a) :
    P.Upholds s x Q' := by
  obtain ⟨steps, r, hout, hsteps, hafter⟩ := h
  refine ⟨steps, r, hout, hsteps, ?_⟩
  cases r with
  | ok a => exact hQ _ a hafter
  | error fault => exact hafter

theorem bind {f : α → Recorded ν β} (hs : P.Sound s) (hx : P.Upholds s x Q)
    (hf : ∀ t a, s.Grows t → P.Sound t → Q t a → P.Upholds t (f a) R) :
    P.Upholds s (x >>= f) R := by
  obtain ⟨first, r, hout, hfirst, hafter⟩ := hx
  cases r with
  | error fault =>
    refine ⟨first, .error fault, fun past => ?_, hfirst, hafter⟩
    rw [Recorded.outcome_bind, hout]
  | ok a =>
    obtain ⟨second, r', hout', hsecond, hafter'⟩ :=
      hf _ a (s.grows_replay first) (hfirst.sound hs) hafter
    refine ⟨first ++ second, r', fun past => ?_, allowsAll_append.2 ⟨hfirst, hsecond⟩, ?_⟩
    · rw [Recorded.outcome_bind, hout]
      simp only [hout', Store.replay_append, List.append_assoc]
    · rw [Store.replay_append]
      exact hafter'

theorem settle (h : P.Upholds s x Q) : P.Upholds s (Recorded.settle x) (P.After Q) := by
  obtain ⟨steps, r, hout, hsteps, hafter⟩ := h
  refine ⟨steps, .ok r, fun past => ?_, hsteps, hafter⟩
  rw [Recorded.outcome_settle, hout]

theorem attempt (hs : P.Sound s) (h : P.Upholds s x Q) :
    P.Upholds s (Recorded.attempt x) (P.After Q) := by
  refine h.settle.bind hs fun t r _ _ hr => .ofExcept ?_
  cases r with
  | ok a => exact hr
  | error fault => cases fault <;> exact hr

theorem mapM {f : β → Recorded ν α} {bs : List β} (hs : P.Sound s)
    (hQ : ∀ {t u : Store ν} {a : α}, P.Sound t → t.Grows u → Q t a → Q u a)
    (hf : ∀ b ∈ bs, ∀ t, s.Grows t → P.Sound t → P.Upholds t (f b) Q) :
    P.Upholds s (bs.mapM f) fun t as => ∀ a ∈ as, Q t a := by
  induction bs generalizing s with
  | nil =>
    rw [List.mapM_nil]
    exact .pure (by simp)
  | cons b bs ih =>
    rw [List.mapM_cons]
    refine (hf b List.mem_cons_self s (.refl s) hs).bind hs fun t a hst ht ha => ?_
    have hrest := ih ht fun b hb u htu hu => hf b (List.mem_cons_of_mem _ hb) u (hst.trans htu) hu
    refine hrest.grown.bind ht fun u as _ hu has => .pure fun a' ha' => ?_
    rcases List.mem_cons.1 ha' with rfl | ha'
    · exact hQ ht has.1 ha
    · exact has.2 a' ha'

theorem foldlM {f : α → β → Recorded ν α} {bs : List β} {a : α} (hs : P.Sound s) (ha : Q s a)
    (hf : ∀ b ∈ bs, ∀ t a, s.Grows t → P.Sound t → P.Upholds t (f a b) Q) :
    P.Upholds s (bs.foldlM f a) Q := by
  induction bs generalizing s a with
  | nil =>
    rw [List.foldlM_nil]
    exact .pure ha
  | cons b bs ih =>
    rw [List.foldlM_cons]
    refine (hf b List.mem_cons_self s a (.refl s) hs).bind hs fun t a' hst ht ha' => ?_
    exact ih ht ha' fun b hb u c htu hu => hf b (List.mem_cons_of_mem _ hb) u c (hst.trans htu) hu

theorem lookup (hs : P.Sound s) {frame : Nat} (hframe : s.Rooted P.roots frame) (name : String) :
    P.Upholds s (Recorded.lookup frame name) P.Holds := by
  rcases hl : s.lookup? frame name with _ | value
  · refine ⟨[], .error (.unbound name), fun past => ?_, trivial, by simp [After, Fault.values]⟩
    simp [Recorded.lookup, hl]
  · obtain ⟨g, hg, hget⟩ := hframe.of_lookup? hs.wellFormed hl
    refine ⟨[], .ok value, fun past => ?_, trivial, hs.holds g name value hg hget⟩
    simp [Recorded.lookup, hl]

theorem performBinds (hs : P.Sound s) {frame : Nat} (hframe : s.Rooted P.roots frame)
    {bindings : Bindings ν} (hb : ∀ b ∈ bindings, P.Holds s b.2) :
    P.Upholds s (Recorded.performBinds frame bindings) fun t _ =>
      ∀ b ∈ bindings, (t.get? frame b.1).isSome = true := by
  induction bindings generalizing s with
  | nil => exact .pure (by simp)
  | cons b rest ih =>
    obtain ⟨name, value⟩ := b
    have hfirst : P.Allows s (.bind frame name value) := ⟨hframe, hb _ List.mem_cons_self⟩
    refine (Upholds.perform hfirst).bind hs fun t _ hst ht hdef => ?_
    have hbound : (t.get? frame name).isSome = true := by
      rw [hdef]
      exact Option.isSome_iff_exists.2 ⟨value, Store.get?_define_self hframe.lt_next name value⟩
    have hrest := ih ht (hframe.grows hst) fun b hmem =>
      P.holds_grows hs.wellFormed hst (hb b (List.mem_cons_of_mem _ hmem))
    refine hrest.grown.mono fun u _ hu b hmem => ?_
    rcases List.mem_cons.1 hmem with rfl | hmem
    · exact hu.1.bound frame name hbound
    · exact hu.2 b hmem

theorem enterCall (hs : P.Sound s) {params : List String} {scope : Nat} {args : List ν}
    (hscope : s.Rooted P.roots scope) (hargs : ∀ arg ∈ args, P.Holds s arg) :
    P.Upholds s (Recorded.enterCall params scope args) (Begun P params scope) := by
  unfold Recorded.enterCall
  split
  case isFalse => exact .failBare rfl
  case isTrue hlength =>
    have henter : P.Upholds s (Recorded.enter scope) fun t frame =>
        t.Rooted P.roots frame ∧ t.parent? frame = some scope := by
      have hscope' : (s.add (some scope)).Rooted P.roots scope := hscope.grows (.add s _)
      have hparent := Store.parent?_add_self s (some scope)
      exact ⟨[.enter s.next scope], .ok s.next, fun _ => rfl, ⟨⟨rfl, hscope⟩, trivial⟩,
        .inside (by simp [Step.apply]) hparent hscope', hparent⟩
    refine henter.bind hs fun t frame hst ht hframe => ?_
    have hbinds : ∀ b ∈ params.zip args, P.Holds t b.2 := fun b hb =>
      P.holds_grows hs.wellFormed hst (hargs b.2 (List.of_mem_zip hb).2)
    refine (Upholds.performBinds ht hframe.1 hbinds).grown.bind ht fun u _ _ _ hu => .pure ?_
    obtain ⟨htu, hbound⟩ := hu
    refine ⟨hframe.1.grows htu, (htu.parent frame hframe.1.lt_next).trans hframe.2, ?_⟩
    intro param hparam
    have hnames : (params.zip args).map Prod.fst = params := List.map_fst_zip (by omega)
    rw [← hnames] at hparam
    obtain ⟨b, hb, rfl⟩ := List.mem_map.1 hparam
    exact hbound b hb

theorem leaving (hs : P.Sound s) (frame : Nat) (h : P.Upholds s x Q) :
    P.Upholds s (Recorded.leaving frame x) Q := by
  refine h.settle.bind hs fun t r _ ht hr => ?_
  have hleave : P.Upholds t (Recorded.perform (.leave frame)) fun u _ => u = t := .perform trivial
  refine hleave.bind ht fun u _ _ _ hu => .ofExcept ?_
  rw [hu]
  exact hr

/-- An action keeps a policy if its calls do, and if all that it knows holds what it has
    to. -/
theorem action {call : ν → List ν → Recorded ν ν} (a : Action ν)
    (hcall : ∀ s f args, P.Sound s → P.Holds s f → (∀ arg ∈ args, P.Holds s arg) →
      P.Upholds s (call f args) P.Holds)
    {known : ν → Prop} (hs : P.Sound s) (huses : a.Uses known)
    (hknown : ∀ v, known v → P.Holds s v) :
    P.Upholds s (a.recorded call) P.Holds := by
  induction a generalizing s known with
  | yield value => exact .pure (hknown value huses)
  | refuse fault => exact .fail fun v hv => hknown v (huses v hv)
  | tell line next ih =>
    have htell : P.Allows s (.tell line) := trivial
    refine (Upholds.perform htell).bind hs fun t _ hst ht _ => ?_
    exact ih ht huses fun v hv => P.holds_grows hs.wellFormed hst (hknown v hv)
  | ask next ih =>
    obtain ⟨steps, r, hout, hrest⟩ := ih s.journal hs (huses s.journal) hknown
    exact ⟨steps, r, fun past => hout past, hrest⟩
  | call f args next ih =>
    obtain ⟨hf, hargs, hnext⟩ := huses
    refine (hcall s f args hs (hknown f hf) fun arg harg => hknown arg (hargs arg harg)).bind hs
      fun t value hst ht hvalue => ih value ht (hnext value) fun v hv => ?_
    rcases hv with hv | rfl
    · exact P.holds_grows hs.wellFormed hst (hknown v hv)
    · exact hvalue
  | attempt f args next ih =>
    obtain ⟨hf, hargs, hnext⟩ := huses
    have hfirst := hcall s f args hs (hknown f hf) fun arg harg => hknown arg (hargs arg harg)
    refine (hfirst.attempt hs).bind hs fun t r hst ht hr => ih r ht (hnext r) fun v hv => ?_
    rcases hv with hv | hv
    · exact P.holds_grows hs.wellFormed hst (hknown v hv)
    · cases r with
      | ok value =>
        obtain rfl := List.mem_singleton.1 hv
        exact hr
      | error fault => exact hr v hv

end Upholds

end Policy

-- ============================================================================
-- Policies for code
-- ============================================================================

/-- A policy with the code that may be run in a frame. Code fits a frame if its parts do,
    and a closure holds what it has to if it is made where its code fits; in turn the
    body of a closure fits the frames of its calls. -/
structure CodePolicy (η κ : Type) [Code κ] extends Policy (Value η κ) where
  Fits : Store (Value η κ) → κ → Nat → Prop
  fits_grows : ∀ {s t : Store (Value η κ)} {code : κ} {frame : Nat}, s.WellFormed → s.Grows t →
    Fits s code frame → Fits t code frame
  rooted_of_fits : ∀ {s : Store (Value η κ)} {code : κ} {frame : Nat}, s.WellFormed →
    Fits s code frame → s.Rooted roots frame
  fits_part : ∀ {s : Store (Value η κ)} {code part : κ} {frame : Nat}, Fits s code frame →
    part ∈ (Code.layer code).parts → Fits s part frame
  fits_body : ∀ {s : Store (Value η κ)} {params : List String} {body : List κ}
    {scope frame : Nat}, s.WellFormed → Holds s (.closure params body scope) →
    frame < s.next → s.parent? frame = some scope →
    (∀ param ∈ params, (s.get? frame param).isSome = true) → ∀ code ∈ body, Fits s code frame
  holds_plain : ∀ {s : Store (Value η κ)} {v : Value η κ}, v.isClosure = false → Holds s v
  holds_closure : ∀ {s : Store (Value η κ)} {code : κ} {params : List String} {body : List κ}
    {frame : Nat}, Fits s code frame → Code.layer code = .lambda params body →
    Holds s (.closure params body frame)
  rooted_of_holds : ∀ {s : Store (Value η κ)} {params : List String} {body : List κ}
    {scope : Nat}, s.WellFormed → Holds s (.closure params body scope) → s.Rooted roots scope

namespace CodePolicy

variable [Code κ] [Host η κ] {P : CodePolicy η κ}

/-- With this much room, code that fits keeps the policy. -/
def RunsUphold (P : CodePolicy η κ) (limit : Nat) : Prop :=
  ∀ (s : Store (Value η κ)) (code : κ) (frame : Nat), P.Sound s → P.Fits s code frame →
    P.Upholds s (Code.recorded limit code frame) P.Holds

/-- With this much room, calls keep the policy. -/
def CallsUphold (P : CodePolicy η κ) (limit : Nat) : Prop :=
  ∀ (s : Store (Value η κ)) (function : Value η κ) (args : List (Value η κ)), P.Sound s →
    P.Holds s function → (∀ arg ∈ args, P.Holds s arg) →
      P.Upholds s (function.recordedCall limit args) P.Holds

theorem RunsUphold.succ {limit : Nat} (hruns : P.RunsUphold limit) (hcalls : P.CallsUphold limit) :
    P.RunsUphold (limit + 1) := by
  intro s code frame hs hfits
  have hrooted : s.Rooted P.roots frame := P.rooted_of_fits hs.wellFormed hfits
  -- A part is run in the same frame, perhaps after other parts.
  have hpart : ∀ part ∈ (Code.layer code).parts, ∀ t, s.Grows t → P.Sound t →
      P.Upholds t (Code.recorded limit part frame) P.Holds := fun part hmem t hst ht =>
    hruns t part frame ht (P.fits_grows hs.wellFormed hst (P.fits_part hfits hmem))
  rw [Code.recorded]
  cases hlayer : Code.layer code with
  | literal datum => exact .pure (P.holds_plain rfl)
  | lookup name => exact .lookup hs hrooted name
  | branch condition consequent alternative =>
    simp only [hlayer, Layer.parts, List.forall_mem_cons] at hpart
    obtain ⟨hcondition, hconsequent, halternative, -⟩ := hpart
    refine (hcondition s (.refl s) hs).bind hs fun t chosen hst ht _ => ?_
    split
    · exact halternative t hst ht
    · exact hconsequent t hst ht
  | assign name part =>
    simp only [hlayer, Layer.parts, List.forall_mem_cons] at hpart
    refine (hpart.1 s (.refl s) hs).bind hs fun t value hst ht hvalue => ?_
    have hbind : P.Allows t (.bind frame name value) := ⟨hrooted.grows hst, hvalue⟩
    refine (Policy.Upholds.perform hbind).bind ht fun u _ htu _ _ => .pure ?_
    exact P.holds_grows ht.wellFormed htu hvalue
  | lambda params body => exact .pure (P.holds_closure hfits hlayer)
  | apply part parts =>
    simp only [hlayer, Layer.parts, List.forall_mem_cons] at hpart
    obtain ⟨hfunction, hargs⟩ := hpart
    refine (hfunction s (.refl s) hs).bind hs fun t function hst ht hf => ?_
    have hvalues : P.Upholds t (parts.mapM fun arg => Code.recorded limit arg frame)
        fun u args => ∀ arg ∈ args, P.Holds u arg :=
      .mapM ht (fun hu huw hv => P.holds_grows hu.wellFormed huw hv)
        fun arg harg u htu hu => hargs arg harg u (hst.trans htu) hu
    refine hvalues.grown.bind ht fun u args _ hu hargs' => ?_
    exact hcalls u function args hu (P.holds_grows ht.wellFormed hargs'.1 hf) hargs'.2
  | hole => exact .failBare rfl

theorem CallsUphold.succ (hhost : HostConfined η κ) {limit : Nat} (hruns : P.RunsUphold limit)
    (hcalls : P.CallsUphold limit) : P.CallsUphold (limit + 1) := by
  intro s function args hs hfunction hargs
  cases function with
  | datum e =>
    rw [Value.recordedCall]
    refine .fail fun v hv => ?_
    obtain rfl := List.mem_singleton.1 hv
    exact hfunction
  | closure params body scope =>
    rw [Value.recordedCall]
    have hscope : s.Rooted P.roots scope := P.rooted_of_holds hs.wellFormed hfunction
    refine (Policy.Upholds.enterCall hs hscope hargs).bind hs fun t frame hst ht hframe => ?_
    have hbody : ∀ code ∈ body, P.Fits t code frame :=
      P.fits_body ht.wellFormed (P.holds_grows hs.wellFormed hst hfunction) hframe.rooted.lt_next
        hframe.parent hframe.bound
    refine .leaving ht frame (.foldlM ht (P.holds_plain rfl) fun code hcode u _ htu hu => ?_)
    exact hruns u code frame hu (P.fits_grows ht.wellFormed htu (hbody code hcode))
  | primitive name operation =>
    cases operation with
    | add =>
      rw [Value.recordedCall]
      refine .ofExcept ?_
      unfold Value.sum
      cases hsum : Value.sumFrom 0 0 args with
      | ok n => exact P.holds_plain rfl
      | error fault => exact fun v hv => hargs v (Value.sumFrom_values hsum v hv)
    | host f =>
      rw [Value.recordedCall]
      refine .action (Host.act f args) hcalls hs (hhost f args) fun v hv => ?_
      rcases hv with hplain | hmem
      · exact P.holds_plain hplain
      · exact hargs v hmem

/-- All runs and all calls keep the policy. The induction is on the limit, for both at
    once. -/
theorem upholds (P : CodePolicy η κ) (hhost : HostConfined η κ) (limit : Nat) :
    P.RunsUphold limit ∧ P.CallsUphold limit := by
  induction limit with
  | zero =>
    constructor
    · intro s code frame _ _
      rw [Code.recorded]
      exact .failBare rfl
    · intro s function args _ _ _
      rw [Value.recordedCall]
      exact .failBare rfl
  | succ limit ih =>
    obtain ⟨hruns, hcalls⟩ := ih
    exact ⟨hruns.succ hcalls, .succ hhost hruns hcalls⟩

end CodePolicy

end LineLisp
