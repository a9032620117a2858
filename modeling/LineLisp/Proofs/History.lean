/-
  LineLisp.Proofs.History

  The history of a run: every change that it makes to the store, in order, and
  where each call of a closure begins and ends. Running with a record does the
  same as running without one (`recorded_follows`), and replaying the record
  leads to the store that the run leaves. The record is orderly: frames are made
  fresh, and whatever is bound is bound in the frame of the innermost call that
  has begun and has not ended. A call also ends when it comes to a fault, after
  which a function of the host may go on.
-/
import LineLisp.Evaluation
import LineLisp.Store.Lemmas

namespace LineLisp

variable {η ν α β : Type}

-- ============================================================================
-- Steps and histories
-- ============================================================================

/-- One step of a history. -/
inductive Step (ν : Type) where
  /-- A call begins: its frame is made inside the frame of the closure. -/
  | enter (frame scope : Nat)
  /-- A name is bound in a frame. -/
  | bind (frame : Nat) (name : String) (value : ν)
  /-- The call with this frame has ended, with a value or with a fault. -/
  | leave (frame : Nat)
  /-- A line is added to the journal. -/
  | tell (line : String)

namespace Step

/-- What a step does to the store. -/
def apply (s : Store ν) : Step ν → Store ν
  | .enter _ scope => s.add (some scope)
  | .bind frame name value => s.define frame name value
  | .leave _ => s
  | .tell line => s.tell line

/-- The frames of the calls in progress after a step, the innermost first. -/
def callsAfter (calls : List Nat) : Step ν → List Nat
  | .enter frame _ => frame :: calls
  | .bind _ _ _ => calls
  | .leave _ => calls.tail
  | .tell _ => calls

/-- The steps that keep to the calls in progress: a new frame is fresh, and only
    the innermost call binds names and ends. -/
def Allowed (calls : List Nat) (s : Store ν) : Step ν → Prop
  | .enter frame _ => frame = s.next
  | .bind frame _ _ => calls.head? = some frame
  | .leave frame => calls.head? = some frame
  | .tell _ => True

end Step

/-- The store that a history leads to. -/
def Store.replay (s : Store ν) (steps : List (Step ν)) : Store ν :=
  steps.foldl Step.apply s

/-- The calls in progress after a history. -/
def Step.callsAfterAll (calls : List Nat) (steps : List (Step ν)) : List Nat :=
  steps.foldl Step.callsAfter calls

/-- A history in which every step keeps to the calls in progress. -/
def Orderly (calls : List Nat) (s : Store ν) : List (Step ν) → Prop
  | [] => True
  | step :: steps =>
    step.Allowed calls s ∧ Orderly (step.callsAfter calls) (step.apply s) steps

@[simp] theorem Store.replay_nil (s : Store ν) : s.replay [] = s := rfl

@[simp] theorem Store.replay_cons (s : Store ν) (step : Step ν) (steps : List (Step ν)) :
    s.replay (step :: steps) = (step.apply s).replay steps := rfl

@[simp] theorem Store.replay_append (s : Store ν) (before after : List (Step ν)) :
    s.replay (before ++ after) = (s.replay before).replay after := by
  simp [Store.replay]

theorem orderly_append {calls : List Nat} {s : Store ν} {before after : List (Step ν)} :
    Orderly calls s (before ++ after) ↔
      Orderly calls s before ∧
        Orderly (Step.callsAfterAll calls before) (s.replay before) after := by
  induction before generalizing calls s with
  | nil => exact ⟨fun h => ⟨trivial, h⟩, fun h => h.2⟩
  | cons step before ih =>
    constructor
    · rintro ⟨hstep, hrest⟩
      obtain ⟨hbefore, hafter⟩ := ih.1 hrest
      exact ⟨⟨hstep, hbefore⟩, hafter⟩
    · rintro ⟨⟨hstep, hbefore⟩, hafter⟩
      exact ⟨hstep, ih.2 ⟨hbefore, hafter⟩⟩

-- ============================================================================
-- Recorded runs
-- ============================================================================

/-- A run that keeps its history. -/
abbrev Recorded (ν α : Type) := ExceptT (Fault ν) (StateM (Store ν × List (Step ν))) α

namespace Recorded

/-- The outcome of a recorded run from a store and the history so far. -/
def outcome (x : Recorded ν α) (s : Store ν) (past : List (Step ν)) :
    Except (Fault ν) α × Store ν × List (Step ν) :=
  x.run.run (s, past)

/-- Makes a step, and adds it to the history. -/
def perform (step : Step ν) : Recorded ν Unit :=
  modify fun (s, past) => (step.apply s, past ++ [step])

/-- Ends a recorded run with a fault. -/
def fail (fault : Fault ν) : Recorded ν α :=
  throw fault

/-- Carries out a recorded run and yields its result or its fault. -/
def settle (x : Recorded ν α) : Recorded ν (Except (Fault ν) α) :=
  ExceptT.lift x.run

/-- An outcome that is there already. -/
def ofExcept (outcome : Except (Fault ν) α) : Recorded ν α :=
  match outcome with
  | .ok a => pure a
  | .error fault => fail fault

/-- Carries out a recorded run and yields its result or its fault, but ends with a
    lack of room. -/
def attempt (x : Recorded ν α) : Recorded ν (Except (Fault ν) α) := do
  let result ← settle x
  ofExcept (Run.recover result)

/-- The value of a name as seen from a frame. -/
def lookup (frame : Nat) (name : String) : Recorded ν ν := do
  match (← get).1.lookup? frame name with
  | some value => pure value
  | none => fail (.unbound name)

/-- Binds names one after the other in one frame. -/
def performBinds (frame : Nat) : Bindings ν → Recorded ν Unit
  | [] => pure ()
  | (name, value) :: rest => do
    perform (.bind frame name value)
    performBinds frame rest

/-- Makes the frame of a call. -/
def enter (scope : Nat) : Recorded ν Nat := do
  let frame := (← get).1.next
  perform (.enter frame scope)
  pure frame

/-- Begins a call: its frame, with the parameters bound to the arguments. -/
def enterCall (params : List String) (scope : Nat) (args : List ν) : Recorded ν Nat := do
  if args.length = params.length then
    let frame ← enter scope
    performBinds frame (params.zip args)
    pure frame
  else fail (.arity params.length args.length)

/-- Ends a call with a run, whatever the outcome of the run is. -/
def leaving (frame : Nat) (x : Recorded ν α) : Recorded ν α := do
  let result ← settle x
  perform (.leave frame)
  ofExcept result

end Recorded

/-- Carries out an action with a record. -/
def Action.recorded (call : ν → List ν → Recorded ν ν) : Action ν → Recorded ν ν
  | .yield value => pure value
  | .refuse fault => Recorded.fail fault
  | .tell line next => do
    Recorded.perform (.tell line)
    next.recorded call
  | .ask next => do
    (next (← get).1.journal).recorded call
  | .call function args next => do
    let value ← call function args
    (next value).recorded call
  | .attempt function args next => do
    let outcome ← Recorded.attempt (call function args)
    (next outcome).recorded call

mutual

/-- Runs a node in a frame with a record. -/
def Node.recorded [Host η] : Nat → Node → Nat → Recorded (Value η) (Value η)
  | 0, _, _ => .fail .tooDeep
  | limit + 1, node, frame =>
    match node with
    | .literal datum => pure (.datum datum)
    | .lookup name => Recorded.lookup frame name
    | .branch condition consequent alternative => do
      let chosen ← Node.recorded limit condition frame
      if chosen.isNil then Node.recorded limit alternative frame
      else Node.recorded limit consequent frame
    | .assign name valueNode => do
      let value ← Node.recorded limit valueNode frame
      Recorded.perform (.bind frame name value)
      pure value
    | .lambda params body => pure (.closure params body frame)
    | .apply functionNode argNodes => do
      let function ← Node.recorded limit functionNode frame
      let args ← argNodes.mapM fun arg => Node.recorded limit arg frame
      Value.recordedApply limit function args
    | .hole => .fail .unknownNode

/-- Applies a value to arguments with a record. -/
def Value.recordedApply [Host η] :
    Nat → Value η → List (Value η) → Recorded (Value η) (Value η)
  | 0, _, _ => .fail .tooDeep
  | limit + 1, function, args =>
    match function with
    | .closure params body scope => do
      let frame ← Recorded.enterCall params scope args
      Recorded.leaving frame (body.foldlM (fun _ node => Node.recorded limit node frame) .nil)
    | .primitive _ .add => .ofExcept (Value.sum args)
    | .primitive _ (.host function) => (Host.act function args).recorded (Value.recordedApply limit)
    | .datum _ => .fail (.notApplicable function)

end

/-- The history of running a node in a frame of a store. -/
def Node.history [Host η] (limit : Nat) (node : Node) (frame : Nat) (s : Store (Value η)) :
    List (Step (Value η)) :=
  ((node.recorded limit frame).outcome s []).2.2

-- ============================================================================
-- The outcome of a recorded run
-- ============================================================================

namespace Recorded

@[simp] theorem outcome_pure (a : α) (s : Store ν) (past : List (Step ν)) :
    outcome (pure a : Recorded ν α) s past = (.ok a, s, past) := rfl

@[simp] theorem outcome_fail (fault : Fault ν) (s : Store ν) (past : List (Step ν)) :
    outcome (fail fault : Recorded ν α) s past = (.error fault, s, past) := rfl

@[simp] theorem outcome_settle (x : Recorded ν α) (s : Store ν) (past : List (Step ν)) :
    outcome (settle x) s past =
      (.ok (outcome x s past).1, (outcome x s past).2) := rfl

@[simp] theorem outcome_ofExcept (r : Except (Fault ν) α) (s : Store ν) (past : List (Step ν)) :
    outcome (ofExcept r) s past = (r, s, past) := by
  cases r <;> rfl

@[simp] theorem outcome_perform (step : Step ν) (s : Store ν) (past : List (Step ν)) :
    outcome (perform step) s past = (.ok (), step.apply s, past ++ [step]) := rfl

@[simp] theorem outcome_get (s : Store ν) (past : List (Step ν)) :
    outcome (get : Recorded ν (Store ν × List (Step ν))) s past = (.ok (s, past), s, past) := rfl

@[simp] theorem outcome_bind (x : Recorded ν α) (f : α → Recorded ν β) (s : Store ν)
    (past : List (Step ν)) :
    outcome (x >>= f) s past =
      match outcome x s past with
      | (.ok a, s', past') => outcome (f a) s' past'
      | (.error fault, s', past') => (.error fault, s', past') := by
  simp only [outcome, ExceptT.run_bind, StateT.run_bind]
  rcases h : x.run.run (s, past) with ⟨r, s', past'⟩
  cases r <;> rfl

-- ============================================================================
-- Recorded runs follow runs
-- ============================================================================

/-- A recorded run follows a run: it has the same outcome and leaves the same
    store; what it adds to the history leads to that store and is orderly, given
    the calls in progress; and the outcome tells the calls then in progress. -/
def Follows (calls : List Nat) (x : Recorded ν α) (y : Run ν α)
    (after : Except (Fault ν) α → List Nat) : Prop :=
  ∀ s, ∃ steps,
    (∀ past, x.outcome s past = ((y.outcome s).1, (y.outcome s).2, past ++ steps)) ∧
    s.replay steps = (y.outcome s).2 ∧
    Orderly calls s steps ∧
    Step.callsAfterAll calls steps = after (y.outcome s).1

variable {calls : List Nat}

theorem follows_pure (a : α) {after : Except (Fault ν) α → List Nat}
    (h : after (.ok a) = calls) : Follows calls (pure a : Recorded ν α) (pure a) after :=
  fun _ => ⟨[], fun past => by simp, rfl, trivial, h.symm⟩

theorem follows_fail (fault : Fault ν) {after : Except (Fault ν) α → List Nat}
    (h : after (.error fault) = calls) :
    Follows calls (fail fault : Recorded ν α) (.fail fault) after :=
  fun _ => ⟨[], fun past => by simp, rfl, trivial, h.symm⟩

theorem follows_ofExcept (r : Except (Fault ν) α) :
    Follows calls (ofExcept r : Recorded ν α) (.ofExcept r) fun _ => calls := by
  cases r with
  | ok a => exact follows_pure a rfl
  | error fault => exact follows_fail fault rfl

theorem follows_perform {step : Step ν} {f : Store ν → Store ν}
    {after : Except (Fault ν) Unit → List Nat} (hf : ∀ s, step.apply s = f s)
    (hstep : ∀ s, step.Allowed calls s) (hafter : after (.ok ()) = step.callsAfter calls) :
    Follows calls (perform step) (Run.update f) after :=
  fun s => ⟨[step], fun past => by simp [hf], by simp [hf], ⟨hstep s, trivial⟩, hafter.symm⟩

/-- What goes on after a run adds its history behind that of the run. -/
theorem Follows.bind {x : Recorded ν α} {y : Run ν α} {middle : Except (Fault ν) α → List Nat}
    {f : α → Recorded ν β} {g : α → Run ν β} {after : Except (Fault ν) β → List Nat}
    (hx : Follows calls x y middle) (hf : ∀ a, Follows (middle (.ok a)) (f a) (g a) after)
    (hfault : ∀ fault, middle (.error fault) = after (.error fault)) :
    Follows calls (x >>= f) (y >>= g) after := by
  intro s
  obtain ⟨first, hout, hstore, horder, hcalls⟩ := hx s
  rw [Run.outcome_bind]
  rcases hy : y.outcome s with ⟨r, s'⟩
  rw [hy] at hout hstore hcalls
  cases r with
  | error fault =>
    refine ⟨first, fun past => ?_, hstore, horder, hcalls.trans (hfault fault)⟩
    rw [outcome_bind, hout]
  | ok a =>
    obtain ⟨second, hout', hstore', horder', hcalls'⟩ := hf a s'
    refine ⟨first ++ second, fun past => ?_, ?_, ?_, ?_⟩
    · rw [outcome_bind, hout]
      simp only [hout', List.append_assoc]
    · rw [Store.replay_append, hstore]
      exact hstore'
    · refine orderly_append.2 ⟨horder, ?_⟩
      rw [hcalls, hstore]
      exact horder'
    · rw [Step.callsAfterAll, List.foldl_append]
      rw [← hcalls] at hcalls'
      exact hcalls'

/-- Runs after which the same calls are in progress, one after the other. -/
theorem Follows.andThen {x : Recorded ν α} {y : Run ν α} {f : α → Recorded ν β} {g : α → Run ν β}
    (hx : Follows calls x y fun _ => calls)
    (hf : ∀ a, Follows calls (f a) (g a) fun _ => calls) :
    Follows calls (x >>= f) (y >>= g) fun _ => calls :=
  hx.bind hf fun _ => rfl

theorem follows_settle {x : Recorded ν α} {y : Run ν α} {after : List Nat}
    (h : Follows calls x y fun _ => after) :
    Follows calls (settle x) (Run.settle y) fun _ => after := by
  intro s
  obtain ⟨steps, hout, hstore, horder, hcalls⟩ := h s
  refine ⟨steps, fun past => ?_, hstore, horder, hcalls⟩
  rw [outcome_settle, hout]
  rfl

theorem follows_attempt {x : Recorded ν α} {y : Run ν α} (h : Follows calls x y fun _ => calls) :
    Follows calls (attempt x) (Run.attempt y) fun _ => calls :=
  (follows_settle h).andThen fun result => follows_ofExcept (Run.recover result)

theorem follows_mapM {f : β → Recorded ν α} {g : β → Run ν α}
    (h : ∀ b, Follows calls (f b) (g b) fun _ => calls) (bs : List β) :
    Follows calls (bs.mapM f) (bs.mapM g) fun _ => calls := by
  induction bs with
  | nil =>
    rw [List.mapM_nil, List.mapM_nil]
    exact follows_pure [] rfl
  | cons b bs ih =>
    rw [List.mapM_cons, List.mapM_cons]
    exact (h b).andThen fun a => ih.andThen fun as => follows_pure (a :: as) rfl

theorem follows_foldlM {f : α → β → Recorded ν α} {g : α → β → Run ν α}
    (h : ∀ a b, Follows calls (f a b) (g a b) fun _ => calls) (bs : List β) (a : α) :
    Follows calls (bs.foldlM f a) (bs.foldlM g a) fun _ => calls := by
  induction bs generalizing a with
  | nil =>
    rw [List.foldlM_nil, List.foldlM_nil]
    exact follows_pure a rfl
  | cons b bs ih =>
    rw [List.foldlM_cons, List.foldlM_cons]
    exact (h a b).andThen fun a' => ih a'

theorem follows_lookup (frame : Nat) (name : String) :
    Follows calls (lookup frame name : Recorded ν ν) (Run.lookup frame name) fun _ => calls := by
  intro s
  rcases hl : s.lookup? frame name with _ | value
  · refine ⟨[], fun past => ?_, ?_, trivial, rfl⟩
    · simp [lookup, Run.lookup, hl]
    · simp [Run.lookup, hl]
  · refine ⟨[], fun past => ?_, ?_, trivial, rfl⟩
    · simp [lookup, Run.lookup, hl]
    · simp [Run.lookup, hl]

/-- The calls in progress when a call was begun: those before it if there was a
    fault, else the new one as well. -/
def callsBegun (calls : List Nat) : Except (Fault ν) Nat → List Nat
  | .ok frame => frame :: calls
  | .error _ => calls

/-- The call at hand binds its parameters one after the other. -/
theorem follows_performBinds (frame : Nat) (bindings : Bindings ν)
    {after : Except (Fault ν) Unit → List Nat} (hafter : after (.ok ()) = frame :: calls) :
    Follows (frame :: calls) (performBinds frame bindings)
      (Run.update fun s => s.defineAll frame bindings) after := by
  induction bindings with
  | nil => exact follows_pure () hafter
  | cons b rest ih =>
    obtain ⟨name, value⟩ := b
    have hfirst : Follows (frame :: calls) (perform (.bind frame name value))
        (Run.update fun s => s.define frame name value)
        (fun | .ok _ => frame :: calls | .error fault => after (.error fault)) :=
      follows_perform (fun _ => rfl) (fun _ => rfl) rfl
    exact hfirst.bind (fun _ => ih) fun _ => rfl

/-- Entering a call makes a fresh frame, which is that of the innermost call from
    then on. -/
theorem follows_enter (scope : Nat) :
    Follows calls (enter scope : Recorded ν Nat) (Run.updateGet fun s => s.newChild scope)
      (callsBegun calls) :=
  fun s => ⟨[.enter s.next scope], fun _ => rfl, rfl, ⟨rfl, trivial⟩, rfl⟩

theorem follows_enterCall (params : List String) (scope : Nat) (args : List ν) :
    Follows calls (enterCall params scope args) (Run.bindArguments params scope args)
      (callsBegun calls) := by
  unfold enterCall Run.bindArguments
  split
  · refine (follows_enter scope).bind (fun frame => ?_) fun _ => rfl
    have hbinds : Follows (frame :: calls) (performBinds frame (params.zip args))
        (Run.update fun s => s.defineAll frame (params.zip args))
        (fun | .ok _ => frame :: calls | .error _ => calls) :=
      follows_performBinds frame (params.zip args) rfl
    exact hbinds.bind (fun _ => follows_pure frame rfl) fun _ => rfl
  · exact follows_fail _ rfl

/-- A call that has ended is no longer in progress, also when it ended with a
    fault. -/
theorem follows_leaving {frame : Nat} {x : Recorded ν α} {y : Run ν α}
    (h : Follows (frame :: calls) x y fun _ => frame :: calls) :
    Follows (frame :: calls) (leaving frame x) y fun _ => calls := by
  intro s
  obtain ⟨steps, hout, hstore, horder, hcalls⟩ := h s
  refine ⟨steps ++ [.leave frame], fun past => ?_, ?_, ?_, ?_⟩
  · rw [leaving, outcome_bind, outcome_settle, hout]
    simp only [outcome_bind, outcome_perform, outcome_ofExcept, Step.apply, List.append_assoc]
  · rw [Store.replay_append, hstore]
    rfl
  · refine orderly_append.2 ⟨horder, ?_, trivial⟩
    rw [hcalls]
    rfl
  · rw [Step.callsAfterAll] at hcalls ⊢
    rw [List.foldl_append, hcalls]
    rfl

end Recorded

open Recorded

theorem Action.recorded_follows {calls : List Nat} {call : ν → List ν → Recorded ν ν}
    {call' : ν → List ν → Run ν ν}
    (hcall : ∀ f args, Follows calls (call f args) (call' f args) fun _ => calls)
    (action : Action ν) :
    Follows calls (action.recorded call) (action.run call') fun _ => calls := by
  induction action with
  | yield value => exact follows_pure value rfl
  | refuse fault => exact follows_fail fault rfl
  | tell line next ih =>
    have hline : Follows calls (perform (.tell line)) (Run.update fun s : Store ν => s.tell line)
        fun _ => calls := follows_perform (fun _ => rfl) (fun _ => trivial) rfl
    exact hline.andThen fun _ => ih
  | ask next ih => exact fun s => ih s.journal s
  | call f args next ih => exact (hcall f args).andThen fun value => ih value
  | attempt f args next ih => exact (follows_attempt (hcall f args)).andThen fun r => ih r

/-- Running and applying with a record do the same as without one. The induction is
    on the limit, for both at once: a node in a frame binds in that frame, whatever
    calls are around it, and an application binds nothing outside of its calls. -/
theorem recorded_follows [Host η] (limit : Nat) :
    (∀ (node : Node) (frame : Nat) (calls : List Nat),
      Follows (frame :: calls) (node.recorded limit frame)
        (node.evaluate limit frame : Run (Value η) (Value η)) fun _ => frame :: calls) ∧
    (∀ (function : Value η) (args : List (Value η)) (calls : List Nat),
      Follows calls (function.recordedApply limit args) (function.apply limit args)
        fun _ => calls) := by
  induction limit with
  | zero => exact ⟨fun _ _ _ => follows_fail _ rfl, fun _ _ _ => follows_fail _ rfl⟩
  | succ limit ih =>
    obtain ⟨ihNode, ihApply⟩ := ih
    constructor
    · intro node frame calls
      cases node with
      | literal datum => exact follows_pure _ rfl
      | lookup name => exact follows_lookup frame name
      | branch condition consequent alternative =>
        refine (ihNode condition frame calls).andThen fun chosen => ?_
        split
        · exact ihNode alternative frame calls
        · exact ihNode consequent frame calls
      | assign name valueNode =>
        refine (ihNode valueNode frame calls).andThen fun value => ?_
        have hbind : Follows (frame :: calls) (perform (.bind frame name value))
            (Run.update fun s => s.define frame name value) fun _ => frame :: calls :=
          follows_perform (fun _ => rfl) (fun _ => rfl) rfl
        exact hbind.andThen fun _ => follows_pure value rfl
      | lambda params body => exact follows_pure _ rfl
      | apply functionNode argNodes =>
        refine (ihNode functionNode frame calls).andThen fun function => ?_
        refine (follows_mapM (fun arg => ihNode arg frame calls) argNodes).andThen fun args => ?_
        exact ihApply function args (frame :: calls)
      | hole => exact follows_fail _ rfl
    · intro function args calls
      cases function with
      | datum expr => exact follows_fail _ rfl
      | closure params body scope =>
        refine (follows_enterCall params scope args).bind (fun frame => ?_) fun _ => rfl
        exact follows_leaving (follows_foldlM (fun _ node => ihNode node frame calls) body Value.nil)
      | primitive name operation =>
        cases operation with
        | add => exact follows_ofExcept _
        | host f =>
          exact Action.recorded_follows (fun g as => ihApply g as calls) (Host.act f args)

end LineLisp
