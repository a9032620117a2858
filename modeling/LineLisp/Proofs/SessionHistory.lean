/-
  LineLisp.Proofs.SessionHistory

  The histories of sessions. A session is given lines or single expressions, one after
  the other, and goes on after those that fail. How much room each of them has is left
  open; with the room that a session gives, a line is evaluated as the session does it.
  The record of such a run is put together from those of the expressions, so it keeps
  every policy that their code fits.
-/
import LineLisp.Proofs.Policy
import LineLisp.Session

namespace LineLisp

variable {η κ ν α β : Type}

-- ============================================================================
-- Runs of lines and of expressions
-- ============================================================================

/-- Compiles an expression and runs it in a frame, with the given room. -/
def runExprWithin [Host η] (frame limit : Nat) (e : Expr) : Run (Value η) (Value η) := do
  let node ← Run.ofExcept (compileExpr e)
  node.evaluate limit frame

/-- Runs expressions in a frame, each with its own room, one after the other. An
    expression that fails does not keep the next ones from being run. -/
def runExprs [Host η] (frame : Nat) (exprs : List (Nat × Expr)) :
    Run (Value η) (List (Except (Fault (Value η)) (Value η))) :=
  exprs.mapM fun (limit, e) => Run.settle (runExprWithin frame limit e)

/-- Runs that are settled one after the other all have an outcome. -/
theorem Run.outcome_mapM_settle (f : β → Run ν α) (bs : List β) (s : Store ν) :
    ∃ results, ((bs.mapM fun b => Run.settle (f b)).outcome s).1 = .ok results := by
  induction bs generalizing s with
  | nil => exact ⟨[], rfl⟩
  | cons b bs ih =>
    obtain ⟨results, hresults⟩ := ih ((f b).outcome s).2
    refine ⟨((f b).outcome s).1 :: results, ?_⟩
    simp only [List.mapM_cons, outcome_bind, outcome_settle]
    rcases hrest : (bs.mapM fun b => Run.settle (f b)).outcome ((f b).outcome s).2 with ⟨r, t⟩
    rw [hrest] at hresults
    subst hresults
    rfl

section

variable {f : β → Run ν α} {b : β} {bs : List β} {as : List α} {s t u : Store ν}

/-- A run comes through if its first part does and the rest does after it. -/
theorem Run.outcome_bind_ok_iff {x : Run ν α} {g : α → Run ν β} :
    (x >>= g).outcome s = (.ok b, u) ↔
      ∃ a t, x.outcome s = (.ok a, t) ∧ (g a).outcome t = (.ok b, u) := by
  rw [outcome_bind]
  rcases x.outcome s with ⟨r, t⟩
  cases r with
  | error fault =>
    constructor
    · exact nofun
    · rintro ⟨a, t', ⟨⟩, -⟩
  | ok a =>
    constructor
    · exact fun h => ⟨a, t, rfl, h⟩
    · rintro ⟨a', t', ⟨⟩, h⟩
      exact h

/-- Runs in order come through if the first one does and the others do after it. -/
theorem Run.outcome_mapM_cons_ok_iff :
    ((b :: bs).mapM f).outcome s = (.ok as, u) ↔
      ∃ a others t, (f b).outcome s = (.ok a, t) ∧ (bs.mapM f).outcome t = (.ok others, u) ∧
        as = a :: others := by
  simp only [List.mapM_cons, outcome_bind_ok_iff, outcome_pure, Prod.mk.injEq, Except.ok.injEq]
  constructor
  · rintro ⟨a, t, hfirst, others, t', hrest, rfl, rfl⟩
    exact ⟨a, others, t, hfirst, hrest, rfl⟩
  · rintro ⟨a, others, t, hfirst, hrest, rfl⟩
    exact ⟨a, t, hfirst, others, u, hrest, rfl, rfl⟩

/-- Behind runs that come through, the next ones go on from where those ended. -/
theorem Run.outcome_mapM_append (h : (bs.mapM f).outcome s = (.ok as, t)) (cs : List β) :
    ((bs ++ cs).mapM f).outcome s =
      (((cs.mapM f).outcome t).1.map (as ++ ·), ((cs.mapM f).outcome t).2) := by
  rw [List.mapM_append, outcome_bind, h]
  show outcome (List.mapM f cs >>= fun others => pure (as ++ others)) t = _
  rw [bind_pure_comp, outcome_map]

end

theorem runExprs_eq_ok [Host η] (frame : Nat) (exprs : List (Nat × Expr)) (s : Store (Value η)) :
    ∃ results, ((runExprs frame exprs).outcome s).1 = .ok results :=
  Run.outcome_mapM_settle (fun (limit, e) => runExprWithin frame limit e) exprs s

namespace Session

/-- Runs a line of code in a session, with the given room. -/
def evalWithin [Host η] (session : Session) (limit : Nat) (line : String) :
    Run (Value η) (List (Value η)) := do
  let exprs ← Run.ofExcept (readSource line)
  exprs.mapM (runExprWithin session.root limit)

/-- Runs lines of code in a session, each with its own room, one after the other. A line
    that fails does not keep the next ones from being run. -/
def evalLines [Host η] (session : Session) (lines : List (Nat × String)) :
    Run (Value η) (List (Except (Fault (Value η)) (List (Value η)))) :=
  lines.mapM fun (limit, line) => Run.settle (session.evalWithin limit line)

theorem evalLines_eq_ok [Host η] (session : Session) (lines : List (Nat × String))
    (s : Store (Value η)) : ∃ results, ((session.evalLines lines).outcome s).1 = .ok results :=
  Run.outcome_mapM_settle (fun (limit, line) => session.evalWithin limit line) lines s

theorem evalWithin_maxDepth [Host η] (session : Session) :
    session.evalWithin maxDepth = (session.eval : String → Run (Value η) (List (Value η))) :=
  rfl

end Session

-- ============================================================================
-- Their records
-- ============================================================================

/-- The history of a recorded run from a store. -/
def Recorded.history (x : Recorded ν α) (s : Store ν) : List (Step ν) :=
  (x.outcome s []).2.2

/-- Compiles an expression and runs it in a frame with a record. What is run is code that
    is made of the expression and its node. -/
def recordedExpr [Code κ] [Host η κ] (codeOf : Expr → Node → κ) (frame limit : Nat) (e : Expr) :
    Recorded (Value η κ) (Value η κ) :=
  match e.compile with
  | .ok node => Code.recorded limit (codeOf e node) frame
  | .error error => .fail (.compiling error)

/-- Runs expressions in a frame with a record. -/
def recordedExprs [Code κ] [Host η κ] (codeOf : Expr → Node → κ) (frame : Nat)
    (exprs : List (Nat × Expr)) :
    Recorded (Value η κ) (List (Except (Fault (Value η κ)) (Value η κ))) :=
  exprs.mapM fun (limit, e) => Recorded.settle (recordedExpr codeOf frame limit e)

/-- An expression is run as its node, and the node is all there is to its code. -/
def bareNode (_ : Expr) (node : Node) : Node := node

/-- Runs lines of code in a session with a record. -/
def Session.recordedLines [Host η] (session : Session) (lines : List (Nat × String)) :
    Recorded (Value η) (List (Except (Fault (Value η)) (List (Value η)))) :=
  lines.mapM fun (limit, line) => Recorded.settle do
    let exprs ← Recorded.ofExcept (readSource line)
    exprs.mapM (recordedExpr bareNode session.root limit)

/-- Recorded runs of a frame in which no call is in progress. -/
def Recorded.FollowsIn (frame : Nat) (x : Recorded ν α) (y : Run ν α) : Prop :=
  Recorded.Follows [frame] x y fun _ => [frame]

theorem Recorded.FollowsIn.replay_history {frame : Nat} {x : Recorded ν α} {y : Run ν α}
    (h : Recorded.FollowsIn frame x y) (s : Store ν) :
    s.replay (x.history s) = (y.outcome s).2 := by
  obtain ⟨steps, hout, hstore, -⟩ := h s
  rw [Recorded.history, hout, List.nil_append, hstore]

theorem Recorded.FollowsIn.result {frame : Nat} {x : Recorded ν α} {y : Run ν α}
    (h : Recorded.FollowsIn frame x y) (s : Store ν) :
    (x.outcome s []).1 = (y.outcome s).1 := by
  obtain ⟨steps, hout, -⟩ := h s
  rw [hout]

section

open Recorded

variable [Host η]

theorem recordedExpr_follows (frame limit : Nat) (e : Expr) :
    FollowsIn frame (recordedExpr bareNode frame limit e : Recorded (Value η) (Value η))
      (runExprWithin frame limit e) := by
  unfold recordedExpr runExprWithin compileExpr
  cases e.compile with
  | ok node =>
    have hnode : FollowsIn frame (node.recorded limit frame : Recorded (Value η) (Value η))
        (node.evaluate limit frame) := (recorded_follows limit).1 node frame []
    rw [Node.recorded_eq] at hnode
    exact hnode
  | error error => exact follows_fail _ rfl

theorem recordedExprs_follows (frame : Nat) (exprs : List (Nat × Expr)) :
    FollowsIn frame
      (recordedExprs bareNode frame exprs :
        Recorded (Value η) (List (Except (Fault (Value η)) (Value η))))
      (runExprs frame exprs) :=
  follows_mapM (fun (limit, e) => follows_settle (recordedExpr_follows frame limit e)) exprs

theorem Session.recordedLines_follows (session : Session) (lines : List (Nat × String)) :
    FollowsIn session.root
      (session.recordedLines lines :
        Recorded (Value η) (List (Except (Fault (Value η)) (List (Value η)))))
      (session.evalLines lines) := by
  refine follows_mapM (fun (limit, line) => follows_settle ?_) lines
  refine (follows_ofExcept (readSource line)).andThen fun exprs => ?_
  exact follows_mapM (fun e => recordedExpr_follows session.root limit e) exprs

end

-- ============================================================================
-- Policies
-- ============================================================================

/-- What holds after an outcome holds still when the store has grown. -/
theorem Policy.After.grows {P : Policy ν} {Q : Store ν → α → Prop} {s t : Store ν}
    (hs : P.Sound s) (hst : s.Grows t)
    (hQ : ∀ a, Q s a → Q t a) {r : Except (Fault ν) α} (h : P.After Q s r) : P.After Q t r := by
  cases r with
  | ok a => exact hQ a h
  | error fault => exact fun v hv => P.holds_grows hs.wellFormed hst (h v hv)

/-- From a store that is sound, every state of a run that keeps a policy is sound, the
    states grow, and its new frames stand on the roots of the policy. -/
structure Policy.KeptBy (P : Policy ν) (x : Recorded ν α) (Q : Store ν → α → Prop)
    (s : Store ν) : Prop where
  sound : ∀ n, P.Sound (s.replay ((x.history s).take n))
  rooted : ∀ n f, s.next ≤ f → f < (s.replay ((x.history s).take n)).next →
    (s.replay ((x.history s).take n)).Rooted P.roots f
  after : P.After Q (s.replay (x.history s)) (x.outcome s []).1

theorem Policy.Upholds.keptBy {P : Policy ν} {x : Recorded ν α} {Q : Store ν → α → Prop}
    {s : Store ν} (h : P.Upholds s x Q) (hs : P.Sound s) : P.KeptBy x Q s := by
  obtain ⟨steps, r, hout, hsteps, hafter⟩ := h
  have hhistory : x.history s = steps := by rw [Recorded.history, hout, List.nil_append]
  refine ⟨fun n => ?_, fun n f hnew hlt => ?_, ?_⟩
  · rw [hhistory]
    exact (hsteps.take n).sound hs
  · rw [hhistory] at hlt ⊢
    exact (hsteps.take n).rooted_of_le hnew hlt
  · rw [hhistory, hout]
    exact hafter

/-- The states of a history grow. -/
theorem Store.grows_take (s : Store ν) (steps : List (Step ν)) {m n : Nat} (h : m ≤ n) :
    (s.replay (steps.take m)).Grows (s.replay (steps.take n)) := by
  obtain ⟨k, rfl⟩ := Nat.exists_eq_add_of_le h
  rw [List.take_add, Store.replay_append]
  exact Store.grows_replay _ _

namespace CodePolicy

section

variable [Code κ] [Host η κ] {P : CodePolicy η κ} {s : Store (Value η κ)}
  {codeOf : Expr → Node → κ} {frame : Nat}

theorem upholds_recordedExpr (hhost : HostConfined η κ) (hs : P.Sound s) (limit : Nat) {e : Expr}
    (hfits : ∀ node, e.compile = .ok node → P.Fits s (codeOf e node) frame) :
    P.Upholds s (recordedExpr codeOf frame limit e) P.Holds := by
  unfold recordedExpr
  cases hnode : e.compile with
  | ok node => exact (P.upholds hhost limit).1 s _ frame hs (hfits node hnode)
  | error error => exact .failBare rfl

theorem upholds_recordedExprs (hhost : HostConfined η κ) (hs : P.Sound s)
    {exprs : List (Nat × Expr)}
    (hfits : ∀ e ∈ exprs.map Prod.snd, ∀ node, e.compile = .ok node →
      P.Fits s (codeOf e node) frame) :
    P.Upholds s (recordedExprs codeOf frame exprs) fun t results =>
      ∀ r ∈ results, P.After P.Holds t r := by
  refine .mapM hs (fun ht htu hr => hr.grows ht htu fun v => P.holds_grows ht.wellFormed htu)
    fun (limit, e) hmem t hst ht => .settle (upholds_recordedExpr hhost ht limit ?_)
  intro node hnode
  have he : e ∈ exprs.map Prod.snd := List.mem_map_of_mem hmem
  exact P.fits_grows hs.wellFormed hst (hfits e he node hnode)

end

/-- A policy that any node fits in the root frame of a session is kept by all lines that
    the session is given. -/
theorem upholds_recordedLines [Host η] {P : CodePolicy η Node} (hhost : HostConfined η Node)
    {s : Store (Value η)} (hs : P.Sound s) (session : Session)
    (hfits : ∀ node, P.Fits s node session.root) (lines : List (Nat × String)) :
    P.Upholds s (session.recordedLines lines) fun t results =>
      ∀ r ∈ results, P.After (fun u values => ∀ v ∈ values, P.Holds u v) t r := by
  refine .mapM hs (fun ht htu hr => hr.grows ht htu fun values hvalues v hv =>
      P.holds_grows ht.wellFormed htu (hvalues v hv))
    fun (limit, line) _ t hst ht => .settle ?_
  have hread : P.Upholds t (Recorded.ofExcept (readSource line)) fun _ _ => True := by
    refine .ofExcept ?_
    unfold readSource
    split
    · exact nofun
    · split
      · exact nofun
      · trivial
  refine hread.bind ht fun u exprs htu hu _ => ?_
  refine .mapM hu (fun hw hwx hv => P.holds_grows hw.wellFormed hwx hv) fun e _ w huw hw => ?_
  refine upholds_recordedExpr hhost hw limit fun node _ => ?_
  exact P.fits_grows hs.wellFormed ((hst.trans htu).trans huw) (hfits node)

end CodePolicy

end LineLisp
