/-
  LineLisp.Proofs.FrameEffect

  Which frames a run can change. Of the frames that exist before a node is run,
  only the one in which it is run can have other bindings afterwards, whatever
  the outcome; an application changes none of them. The finer statement is about
  the history of a run: no call binds anything in a frame that is older than its
  own, so the frames of its callers are safe from it, and nothing is bound in the
  frame of a call that has ended.
-/
import LineLisp.Proofs.History
import LineLisp.Session

namespace LineLisp

variable {η ν α β : Type}

-- ============================================================================
-- Stores that agree outside of some frames
-- ============================================================================

/-- The frames of the first store are still there in the second, inside the same
    frames, and those that are not listed have the same bindings. -/
def Store.AgreesOutside (touched : List Nat) (s t : Store ν) : Prop :=
  s.next ≤ t.next ∧
    ∀ f < s.next, t.parent? f = s.parent? f ∧ (f ∉ touched → t.bindings f = s.bindings f)

namespace Store.AgreesOutside

variable {touched : List Nat}

theorem refl (s : Store ν) : AgreesOutside touched s s :=
  ⟨Nat.le_refl _, fun _ _ => ⟨rfl, fun _ => rfl⟩⟩

theorem trans {s t u : Store ν} (hst : AgreesOutside touched s t)
    (htu : AgreesOutside touched t u) : AgreesOutside touched s u := by
  refine ⟨Nat.le_trans hst.1 htu.1, fun f hf => ?_⟩
  obtain ⟨hparent, hbindings⟩ := hst.2 f hf
  obtain ⟨hparent', hbindings'⟩ := htu.2 f (Nat.lt_of_lt_of_le hf hst.1)
  refine ⟨hparent'.trans hparent, fun hmem => ?_⟩
  rw [hbindings' hmem, hbindings hmem]

/-- Frames that did not exist need not be listed. -/
theorem of_cons_next {s t : Store ν} (h : AgreesOutside (s.next :: touched) s t) :
    AgreesOutside touched s t := by
  refine ⟨h.1, fun f hf => ⟨(h.2 f hf).1, fun hmem => (h.2 f hf).2 ?_⟩⟩
  have hne : f ≠ s.next := by omega
  simp [hne, hmem]

theorem mono {touched' : List Nat} {s t : Store ν} (h : AgreesOutside touched s t)
    (hsub : ∀ f ∈ touched, f ∈ touched') : AgreesOutside touched' s t :=
  ⟨h.1, fun f hf => ⟨(h.2 f hf).1, fun hmem => (h.2 f hf).2 fun hin => hmem (hsub f hin)⟩⟩

theorem add (s : Store ν) (parent : Option Nat) : AgreesOutside touched s (s.add parent) := by
  refine ⟨by simp, fun f hf => ⟨?_, fun _ => bindings_add s parent f⟩⟩
  exact parent?_add_of_ne (by omega)

theorem define {s : Store ν} {f : Nat} (h : f ∈ touched) (name : String) (value : ν) :
    AgreesOutside touched s (s.define f name value) := by
  refine ⟨by simp, fun g _ => ⟨by simp, fun hg => ?_⟩⟩
  have hne : g ≠ f := by
    rintro rfl
    exact hg h
  exact bindings_define_of_ne hne name value

theorem tell (s : Store ν) (line : String) : AgreesOutside touched s (s.tell line) :=
  ⟨Nat.le_refl _, fun _ _ => ⟨rfl, fun _ => rfl⟩⟩

end Store.AgreesOutside

-- ============================================================================
-- Orderly histories
-- ============================================================================

/-- An orderly history changes frames of the calls in progress and new frames,
    and no others. -/
theorem Orderly.agreesOutside {calls : List Nat} {s : Store ν} {steps : List (Step ν)}
    (h : Orderly calls s steps) : s.AgreesOutside calls (s.replay steps) := by
  induction steps generalizing calls s with
  | nil => exact .refl s
  | cons step steps ih =>
    obtain ⟨hstep, hrest⟩ := h
    have htail := ih hrest
    cases step with
    | enter frame scope =>
      obtain rfl : frame = s.next := hstep
      have hadd : s.AgreesOutside (s.next :: calls) (s.add (some scope)) := .add s _
      exact (hadd.trans htail).of_cons_next
    | bind frame name value =>
      have hmem : frame ∈ calls := List.mem_of_head? hstep
      exact (Store.AgreesOutside.define hmem name value).trans htail
    | leave frame => exact htail.mono fun _ hf => List.mem_of_mem_tail hf
    | tell line => exact (Store.AgreesOutside.tell s line).trans htail

/-- Calls in progress that an orderly history can start from: they are different
    calls, and their frames exist. -/
def CallsOf (s : Store ν) (calls : List Nat) : Prop :=
  calls.Nodup ∧ ∀ f ∈ calls, f < s.next

theorem CallsOf.step {calls : List Nat} {s : Store ν} (h : CallsOf s calls) {step : Step ν}
    (hstep : step.Allowed calls s) : CallsOf (step.apply s) (step.callsAfter calls) := by
  obtain ⟨hnodup, hlt⟩ := h
  cases step with
  | enter frame scope =>
    obtain rfl : frame = s.next := hstep
    have hfresh : s.next ∉ calls := fun hmem => Nat.lt_irrefl _ (hlt _ hmem)
    refine ⟨List.nodup_cons.2 ⟨hfresh, hnodup⟩, fun f hf => ?_⟩
    simp only [Step.apply, Store.next_add]
    rcases List.mem_cons.1 hf with rfl | hf
    · exact Nat.lt_succ_self _
    · exact Nat.lt_succ_of_lt (hlt f hf)
  | bind frame name value => exact ⟨hnodup, fun f hf => by simpa [Step.apply] using hlt f hf⟩
  | leave frame => exact ⟨hnodup.tail, fun f hf => hlt f (List.mem_of_mem_tail hf)⟩
  | tell line => exact ⟨hnodup, hlt⟩

theorem CallsOf.replay {calls : List Nat} {s : Store ν} (h : CallsOf s calls)
    {steps : List (Step ν)} (horder : Orderly calls s steps) :
    CallsOf (s.replay steps) (Step.callsAfterAll calls steps) := by
  induction steps generalizing calls s with
  | nil => exact h
  | cons step steps ih => exact ih (h.step horder.1) horder.2

/-- A frame that exists and belongs to no call in progress is never bound in. -/
theorem Orderly.bind_not_mem {calls : List Nat} {s : Store ν} {steps : List (Step ν)}
    (h : Orderly calls s steps) {f : Nat} (hf : f < s.next) (hcalls : f ∉ calls) (name : String)
    (value : ν) : .bind f name value ∉ steps := by
  induction steps generalizing calls s with
  | nil => simp
  | cons step steps ih =>
    obtain ⟨hstep, hrest⟩ := h
    intro hmem
    rcases List.mem_cons.1 hmem with rfl | hmem
    · exact hcalls (List.mem_of_head? hstep)
    · refine ih hrest ?_ ?_ hmem
      · cases step with
        | enter frame scope => simpa [Step.apply] using Nat.lt_succ_of_lt hf
        | bind frame n v => simpa [Step.apply] using hf
        | leave frame => exact hf
        | tell line => exact hf
      · cases step with
        | enter frame scope =>
          obtain rfl : frame = s.next := hstep
          have hne : f ≠ s.next := by omega
          simp [Step.callsAfter, hne, hcalls]
        | bind frame n v => exact hcalls
        | leave frame => exact fun hin => hcalls (List.mem_of_mem_tail hin)
        | tell line => exact hcalls

/-- As long as a call has not ended, frames older than its own are not bound in.
    The induction is on the history; `inner` are the calls that it makes. -/
theorem Orderly.le_of_bind_mem {inner outer : List Nat} {f : Nat} {s : Store ν}
    {steps : List (Step ν)} (h : Orderly (inner ++ f :: outer) s steps) (hf : f < s.next)
    (hinner : ∀ g ∈ inner, f ≤ g) (hleave : .leave f ∉ steps) {g : Nat} {name : String} {value : ν}
    (hmem : .bind g name value ∈ steps) : f ≤ g := by
  induction steps generalizing inner s with
  | nil => simp at hmem
  | cons step steps ih =>
    obtain ⟨hstep, hrest⟩ := h
    have hleave' : .leave f ∉ steps := fun hin => hleave (List.mem_cons_of_mem _ hin)
    cases step with
    | enter frame scope =>
      obtain rfl : frame = s.next := hstep
      have hmem' : .bind g name value ∈ steps := by simpa using hmem
      have hstack : Orderly ((s.next :: inner) ++ f :: outer) (s.add (some scope)) steps := hrest
      refine ih hstack ?_ ?_ hleave' hmem'
      · simpa [Step.apply] using Nat.lt_succ_of_lt hf
      · intro k hk
        rcases List.mem_cons.1 hk with rfl | hk
        · exact Nat.le_of_lt hf
        · exact hinner k hk
    | bind frame n v =>
      rcases List.mem_cons.1 hmem with heq | hmem'
      · obtain ⟨rfl, -, -⟩ := Step.bind.inj heq
        cases inner with
        | nil => exact Nat.le_of_eq (Option.some.inj hstep)
        | cons k inner => exact Option.some.inj hstep ▸ hinner k List.mem_cons_self
      · exact ih hrest (by simpa [Step.apply] using hf) hinner hleave' hmem'
    | leave frame =>
      have hmem' : .bind g name value ∈ steps := by simpa using hmem
      cases inner with
      | nil =>
        obtain rfl : f = frame := Option.some.inj hstep
        exact absurd List.mem_cons_self hleave
      | cons k inner =>
        exact ih hrest hf (fun m hm => hinner m (List.mem_cons_of_mem _ hm)) hleave' hmem'
    | tell line =>
      have hmem' : .bind g name value ∈ steps := by simpa using hmem
      exact ih hrest hf hinner hleave' hmem'

/-- What the calls of a history may do to frames. -/
structure CallDiscipline (s : Store ν) (steps : List (Step ν)) : Prop where
  /-- The frame of a call did not exist before it. -/
  fresh : ∀ before frame scope after, steps = before ++ .enter frame scope :: after →
    frame = (s.replay before).next
  /-- As long as a call has not ended, nothing is bound in an older frame than its
      own, such as the frames of its callers. -/
  nested : ∀ before frame scope inside after,
    steps = before ++ .enter frame scope :: (inside ++ after) → .leave frame ∉ inside →
      ∀ f name value, .bind f name value ∈ inside → frame ≤ f
  /-- Nothing is bound in the frame of a call that has ended. -/
  finished : ∀ before frame after, steps = before ++ .leave frame :: after →
    ∀ name value, .bind frame name value ∉ after

theorem Orderly.callDiscipline {calls : List Nat} {s : Store ν} {steps : List (Step ν)}
    (h : Orderly calls s steps) (hcalls : CallsOf s calls) : CallDiscipline s steps where
  fresh before frame scope after heq := by
    subst heq
    exact (orderly_append.1 h).2.1
  nested before frame scope inside after heq hleave f name value hmem := by
    subst heq
    obtain ⟨hframe, hrest⟩ := (orderly_append.1 h).2
    obtain rfl : frame = (s.replay before).next := hframe
    have hinside : Orderly ([] ++ (s.replay before).next :: Step.callsAfterAll calls before)
        ((s.replay before).add (some scope)) inside := (orderly_append.1 hrest).1
    exact hinside.le_of_bind_mem (by simp) (by simp) hleave hmem
  finished before frame after heq name value := by
    subst heq
    obtain ⟨hbefore, hleave, hafter⟩ := orderly_append.1 h
    obtain ⟨hnodup, hlt⟩ := hcalls.replay hbefore
    have hhead : frame ∈ Step.callsAfterAll calls before := List.mem_of_head? hleave
    refine hafter.bind_not_mem (hlt frame hhead) ?_ name value
    obtain ⟨rest, hrest⟩ := List.head?_eq_some_iff.1 hleave
    rw [hrest] at hnodup
    simpa [Step.callsAfter, hrest] using (List.nodup_cons.1 hnodup).1

-- ============================================================================
-- Runs
-- ============================================================================

/-- A run that changes no frames that exist before it but those that are listed,
    whatever its outcome. -/
def Run.Touches (touched : List Nat) (x : Run ν α) : Prop :=
  ∀ s : Store ν, s.AgreesOutside touched (x.outcome s).2

namespace Run.Touches

variable {touched : List Nat}

theorem pure (a : α) : Touches touched (pure a : Run ν α) := fun s => .refl s

theorem ofExcept (r : Except (Fault ν) α) : Touches touched (.ofExcept r) := by
  intro s
  rw [outcome_ofExcept]
  exact .refl s

theorem bind {x : Run ν α} {f : α → Run ν β} (hx : Touches touched x)
    (hf : ∀ a, Touches touched (f a)) : Touches touched (x >>= f) := by
  intro s
  have hfirst := hx s
  rw [outcome_bind]
  rcases hout : x.outcome s with ⟨r, s'⟩
  rw [hout] at hfirst
  cases r with
  | error fault => exact hfirst
  | ok a => exact hfirst.trans (hf a s')

theorem mapM {f : β → Run ν α} (h : ∀ b, Touches touched (f b)) (bs : List β) :
    Touches touched (bs.mapM f) := by
  induction bs with
  | nil =>
    rw [List.mapM_nil]
    exact pure []
  | cons b bs ih =>
    rw [List.mapM_cons]
    exact (h b).bind fun a => ih.bind fun as => pure (a :: as)

end Run.Touches

theorem Node.evaluate_touches [Host η] (limit : Nat) (node : Node) (frame : Nat) :
    Run.Touches [frame] (node.evaluate limit frame : Run (Value η) (Value η)) := by
  intro s
  obtain ⟨steps, -, hstore, horder, -⟩ := (recorded_follows limit).1 node frame [] s
  rw [← hstore]
  exact horder.agreesOutside

theorem Value.apply_touches [Host η] (limit : Nat) (function : Value η) (args : List (Value η)) :
    Run.Touches [] (function.apply limit args) := by
  intro s
  obtain ⟨steps, -, hstore, horder, -⟩ := (recorded_follows limit).2 function args [] s
  rw [← hstore]
  exact horder.agreesOutside

theorem runExpr_touches [Host η] (frame : Nat) (e : Expr) :
    Run.Touches [frame] (runExpr frame e : Run (Value η) (Value η)) :=
  (Run.Touches.ofExcept _).bind fun node => node.evaluate_touches maxDepth frame

theorem runCode_touches [Host η] (frame : Nat) (code : String) :
    Run.Touches [frame] (runCode frame code : Run (Value η) (List (Value η))) :=
  (Run.Touches.ofExcept _).bind fun exprs => .mapM (fun e => runExpr_touches frame e) exprs

/-- The history of a run leads to the store that the run leaves, and its calls keep
    to their frames. -/
theorem Node.history_spec [Host η] (limit : Nat) (node : Node) {frame : Nat}
    {s : Store (Value η)} (hframe : frame < s.next) :
    s.replay (node.history limit frame s) = ((node.evaluate limit frame).outcome s).2 ∧
      CallDiscipline s (node.history limit frame s) := by
  obtain ⟨steps, hout, hstore, horder, -⟩ := (recorded_follows limit).1 node frame [] s
  have hsteps : node.history limit frame s = steps := by
    rw [Node.history, hout, List.nil_append]
  rw [hsteps]
  refine ⟨hstore, horder.callDiscipline ⟨by simp, fun f hf => ?_⟩⟩
  obtain rfl := List.mem_singleton.1 hf
  exact hframe

/-- Frame effect. Running a node changes no frame but its own among those that
    exist before, and applying a value changes none of them. In the history of a
    run no call binds in an older frame than its own, and no frame of an ended call
    is bound in. The expressions of a session change its root frame alone. -/
theorem evaluation_changes_own_frame_only [Host η] :
    (∀ (limit : Nat) (node : Node) (frame : Nat),
      Run.Touches [frame] (node.evaluate limit frame : Run (Value η) (Value η))) ∧
    (∀ (limit : Nat) (function : Value η) (args : List (Value η)),
      Run.Touches [] (function.apply limit args)) ∧
    (∀ (limit : Nat) (node : Node) (frame : Nat) (s : Store (Value η)), frame < s.next →
      s.replay (node.history limit frame s) = ((node.evaluate limit frame).outcome s).2 ∧
        CallDiscipline s (node.history limit frame s)) ∧
    (∀ (session : Session) (e : Expr),
      Run.Touches [session.root] (runExpr session.root e : Run (Value η) (Value η))) ∧
    (∀ (session : Session) (code : String),
      Run.Touches [session.root] (session.eval code : Run (Value η) (List (Value η)))) := by
  refine ⟨Node.evaluate_touches, Value.apply_touches, ?_, ?_, ?_⟩
  · intro limit node frame s hframe
    exact node.history_spec limit hframe
  · intro session e
    exact runExpr_touches session.root e
  · intro session code
    exact runCode_touches session.root code

/-- A call that binds its parameter again after a call inside it: the frame of the
    inner call, which has ended by then, is left alone. -/
theorem ended_call_left_alone :
    let s : Store (Value Empty) := Store.empty.newGlobal.2
    let inner : Node := .apply (.lambda ["y"] [.assign "y" (.literal (.int 3))]) [.lookup "x"]
    let outer : Node := .apply (.lambda ["x"] [inner, .assign "x" (.literal (.int 2))])
      [.literal (.int 1)]
    let before : List (Step (Value Empty)) :=
      [.enter 1 0, .bind 1 "x" (.int 1), .enter 2 1, .bind 2 "y" (.int 1), .bind 2 "y" (.int 3)]
    let after : List (Step (Value Empty)) := [.bind 1 "x" (.int 2), .leave 1]
    0 < s.next ∧ outer.history 9 0 s = before ++ .leave 2 :: after ∧
      ∀ name value, .bind 2 name value ∉ after := by
  intro s inner outer before after
  have hframe : 0 < s.next := by decide
  have hhistory : outer.history 9 0 s = before ++ .leave 2 :: after := rfl
  have hspec := evaluation_changes_own_frame_only.2.2.1 9 outer 0 s hframe
  exact ⟨hframe, hhistory, hspec.2.finished before 2 after hhistory⟩

end LineLisp
