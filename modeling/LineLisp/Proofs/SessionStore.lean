/-
  LineLisp.Proofs.SessionStore

  The store of a session. In every state that the lines of a session lead to, also when
  they fail or lack room, frames lie where they lay when they were made, in older ones;
  what is bound stays bound; closures capture frames that exist; and the way outward from
  the frames of the session and from those that its closures capture ends at its root.
  These are two policies at once: one for all frames, and one for those on the root of
  the session.
-/
import LineLisp.Proofs.Interpreter
import LineLisp.Proofs.SessionHistory

namespace LineLisp

variable {η κ : Type}

-- ============================================================================
-- Captured frames
-- ============================================================================

/-- A value that captures no frame but one on the given roots. -/
def Value.CapturesOn (roots : Nat → Prop) (s : Store (Value η κ)) (v : Value η κ) : Prop :=
  ∀ params body scope, v = .closure params body scope → s.Rooted roots scope

/-- Code is run on the given roots, and closures that are bound there capture frames on
    them. -/
def capturePolicy [Code κ] (roots : Nat → Prop) : CodePolicy η κ where
  roots := roots
  Holds := Value.CapturesOn roots
  holds_grows _ hst h := fun params body scope hv => (h params body scope hv).grows hst
  Fits s _ frame := s.Rooted roots frame
  fits_grows _ hst h := h.grows hst
  rooted_of_fits _ h := h
  fits_part h _ := h
  fits_body _ h hlt hparent _ := fun _ _ => .inside hlt hparent (h _ _ _ rfl)
  holds_plain h := by
    rintro params body scope rfl
    cases h
  holds_closure h _ := by
    intro params body scope hv
    cases hv
    exact h
  rooted_of_holds _ h := h _ _ _ rfl

/-- All closures capture frames that exist. -/
def Store.Captured (s : Store (Value η κ)) : Prop :=
  ∀ f name params body scope, s.get? f name = some (.closure params body scope) → scope < s.next

/-- The store of a session with the given root: frames lie in older ones, the root exists
    and lies in no other frame, and all closures capture frames that exist. -/
structure SessionStore (root : Nat) (s : Store (Value η κ)) : Prop where
  wellFormed : s.WellFormed
  root_lt : root < s.next
  outermost : s.parent? root = none
  captured : s.Captured

/-- The closures that are bound in frames of a session capture frames of that session. A
    session that was given closures of another one does not have this. -/
def OwnClosures (root : Nat) (s : Store (Value η κ)) : Prop :=
  ∀ f name params body scope, s.root f = root →
    s.get? f name = some (.closure params body scope) → s.root scope = root

theorem SessionStore.rooted {root : Nat} {s : Store (Value η κ)} (h : SessionStore root s) :
    s.Rooted (· = root) root :=
  .root h.root_lt h.outermost rfl

section

variable [Code κ] {s : Store (Value η κ)} {root : Nat}

theorem captured_iff_sound (hwf : s.WellFormed) :
    s.Captured ↔ (capturePolicy fun _ => True : CodePolicy η κ).Sound s := by
  constructor
  · intro h
    refine ⟨hwf, fun f name v _ hv params body scope hclosure => ?_⟩
    rw [hclosure] at hv
    exact .of_lt_next hwf (h f name params body scope hv)
  · intro h f name params body scope hv
    have hf : s.Rooted (fun _ => True) f := .of_lt_next hwf (Store.lt_next_of_get? hv)
    exact (h.holds f name _ hf hv params body scope rfl).lt_next

theorem SessionStore.own_iff_sound (h : SessionStore root s) :
    OwnClosures root s ↔ (capturePolicy (· = root) : CodePolicy η κ).Sound s := by
  constructor
  · intro hown
    refine ⟨h.wellFormed, fun f name v hf hv params body scope hclosure => ?_⟩
    rw [hclosure] at hv
    have hroot : s.root f = root := ((Store.rooted_eq_iff h.wellFormed).1 hf).2
    exact (Store.rooted_eq_iff h.wellFormed).2
      ⟨h.captured f name params body scope hv, hown f name params body scope hroot hv⟩
  · intro hsound f name params body scope hroot hv
    have hf : s.Rooted (· = root) f :=
      (Store.rooted_eq_iff h.wellFormed).2 ⟨Store.lt_next_of_get? hv, hroot⟩
    have hscope := hsound.holds f name _ hf hv params body scope rfl
    exact ((Store.rooted_eq_iff h.wellFormed).1 hscope).2

/-- A fresh frame in which no closure is bound is the root of a store of its own. -/
theorem SessionStore.newRoot (hwf : s.WellFormed) (hcaptured : s.Captured)
    {bindings : Bindings (Value η κ)} (hplain : ∀ b ∈ bindings, b.2.isClosure = false) :
    SessionStore s.next (s.withRoot bindings) ∧ OwnClosures s.next (s.withRoot bindings) := by
  have hholds : ∀ (P : CodePolicy η κ) (t : Store (Value η κ)), ∀ b ∈ bindings, P.Holds t b.2 :=
    fun P t b hb => P.holds_plain (hplain b hb)
  have hall := ((captured_iff_sound hwf).1 hcaptured).withRoot trivial (hholds _ _)
  have hstore : SessionStore s.next (s.withRoot bindings) :=
    ⟨hall.wellFormed, by simp, s.parent?_withRoot bindings,
      (captured_iff_sound hall.wellFormed).2 hall⟩
  have hbefore : (capturePolicy (· = s.next) : CodePolicy η κ).Sound s :=
    Policy.sound_of_next_le hwf fun f hf => Nat.le_of_eq hf.symm
  exact ⟨hstore, hstore.own_iff_sound.2 (hbefore.withRoot rfl (hholds _ _))⟩

end

/-- What every session starts with is no closure. -/
theorem isClosure_of_mem_builtins {b : String × Value η κ} (hb : b ∈ (builtins : Bindings _)) :
    b.2.isClosure = false := by
  simp only [builtins, List.mem_cons, List.not_mem_nil, or_false] at hb
  rcases hb with rfl | rfl <;> rfl

-- ============================================================================
-- The states of a session
-- ============================================================================

section

variable [Host η] {session : Session} {s : Store (Value η)}

/-- The state after some steps of the lines of a session. -/
def Session.state (session : Session) (lines : List (Nat × String)) (s : Store (Value η))
    (n : Nat) : Store (Value η) :=
  s.replay (((session.recordedLines lines).history s).take n)

theorem Session.grows_state (session : Session) (lines : List (Nat × String))
    (s : Store (Value η)) {m n : Nat} (h : m ≤ n) :
    (session.state lines s m).Grows (session.state lines s n) :=
  s.grows_take _ h

/-- The last state is the store that the lines leave. -/
theorem Session.state_last (session : Session) (lines : List (Nat × String))
    (s : Store (Value η)) :
    session.state lines s ((session.recordedLines lines).history s).length =
      ((session.evalLines lines).outcome s).2 := by
  rw [state, List.take_length, (session.recordedLines_follows lines).replay_history]

/-- What the lines of a session keep of the frames on given roots. -/
theorem Session.captures_keptBy (hhost : HostConfined η Node) {roots : Nat → Prop}
    (hs : (capturePolicy roots : CodePolicy η Node).Sound s) (hroot : s.Rooted roots session.root)
    (lines : List (Nat × String)) :
    (∀ n, (capturePolicy roots : CodePolicy η Node).Sound (session.state lines s n)) ∧
    (∀ n f, s.next ≤ f → f < (session.state lines s n).next →
      (session.state lines s n).Rooted roots f) ∧
    ∀ results, ((session.evalLines lines).outcome s).1 = .ok results →
      ∀ values, .ok values ∈ results → ∀ v ∈ values,
        v.CapturesOn roots ((session.evalLines lines).outcome s).2 := by
  have hkept := (CodePolicy.upholds_recordedLines hhost hs session (fun _ => hroot) lines).keptBy hs
  refine ⟨hkept.sound, hkept.rooted, fun results hresults values hmem v hv => ?_⟩
  have hafter := hkept.after
  rw [(session.recordedLines_follows lines).result s, hresults,
    (session.recordedLines_follows lines).replay_history] at hafter
  exact hafter (.ok values) hmem v hv

/-- Every state of a session is a store of that session. -/
theorem SessionStore.state (hhost : HostConfined η Node) (hs : SessionStore session.root s)
    (lines : List (Nat × String)) (n : Nat) :
    SessionStore session.root (session.state lines s n) := by
  have hgrow : s.Grows (session.state lines s n) := s.grows_replay _
  have hall := (session.captures_keptBy hhost ((captured_iff_sound hs.wellFormed).1 hs.captured)
    (.of_lt_next hs.wellFormed hs.root_lt) lines).1 n
  exact ⟨hall.wellFormed, Nat.lt_of_lt_of_le hs.root_lt hgrow.next,
    (hgrow.parent _ hs.root_lt).trans hs.outermost, (captured_iff_sound hall.wellFormed).2 hall⟩

theorem SessionStore.last (hhost : HostConfined η Node) (hs : SessionStore session.root s)
    (lines : List (Nat × String)) :
    SessionStore session.root ((session.evalLines lines).outcome s).2 := by
  rw [← session.state_last lines s]
  exact hs.state hhost lines _

end

/-- The chains in a state of a session that began in the first store: those of the frames
    that the session made and of the frames that its closures capture end at its root. -/
structure SessionChains (root : Nat) (s t : Store (Value η)) : Prop where
  own : OwnClosures root t
  made : ∀ f, s.next ≤ f → f < t.next → ∃ way, t.Resolves (· = root) f way
  held : ∀ f name params body scope, t.root f = root →
    t.get? f name = some (.closure params body scope) → ∃ way, t.Resolves (· = root) scope way

theorem SessionStore.chains [Host η] (hhost : HostConfined η Node) {session : Session}
    {s : Store (Value η)} (hs : SessionStore session.root s) (hown : OwnClosures session.root s)
    (lines : List (Nat × String)) (n : Nat) :
    SessionChains session.root s (session.state lines s n) := by
  have hstore := hs.state hhost lines n
  obtain ⟨hsound, hmade, -⟩ :=
    session.captures_keptBy hhost (hs.own_iff_sound.1 hown) hs.rooted lines
  refine ⟨hstore.own_iff_sound.2 (hsound n), fun f hnew hf => ?_, ?_⟩
  · exact (hmade n f hnew hf).resolves hstore.wellFormed
  · intro f name params body scope hroot hv
    have hf := (Store.rooted_eq_iff hstore.wellFormed).2 ⟨Store.lt_next_of_get? hv, hroot⟩
    exact ((hsound n).holds f name _ hf hv params body scope rfl).resolves hstore.wellFormed

instance : DecidableEq Relay := fun .relay .relay => .isTrue rfl

theorem hostConfined_relay {κ : Type} : HostConfined Relay κ := by
  intro function args
  cases args with
  | nil => exact nofun
  | cons callee others =>
    have hargs : ∀ arg ∈ others, arg.isClosure = false ∨ arg ∈ callee :: others :=
      fun arg harg => .inr (List.mem_cons_of_mem _ harg)
    exact ⟨.inr List.mem_cons_self, hargs, fun value => .inr rfl⟩

end LineLisp
