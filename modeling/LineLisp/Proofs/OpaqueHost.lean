/-
  LineLisp.Proofs.OpaqueHost

  Functions of the host that cannot look into closures. Whatever way there is to relate
  values that leaves everything but closures alone, such a function takes the same steps
  on related arguments. The relation may grow while the function waits for a call that it
  made, so it is taken at stages. Then the functions of a host run alike wherever
  applications do.
-/
import LineLisp.Proofs.Interpreter
import LineLisp.Proofs.Simulation

namespace LineLisp

variable {η W ν α β : Type}

-- ============================================================================
-- Actions at stages
-- ============================================================================

/-- Actions that take the same steps on values that are related at a stage; after a call
    they go on at a later one. -/
inductive Action.Alike [Preorder W] (R : W → ν → ν → Prop) : W → Action ν → Action ν → Prop where
  | yield {w : W} {v v' : ν} (h : R w v v') : Alike R w (.yield v) (.yield v')
  | refuse {w : W} {f f' : Fault ν} (h : f.Rel (R w) f') : Alike R w (.refuse f) (.refuse f')
  | tell {w : W} (line : String) {a b : Action ν} (h : Alike R w a b) :
    Alike R w (.tell line a) (.tell line b)
  | ask {w : W} {a b : Array String → Action ν} (h : ∀ lines, Alike R w (a lines) (b lines)) :
    Alike R w (.ask a) (.ask b)
  | call {w : W} {f f' : ν} {vs vs' : List ν} {a b : ν → Action ν} (hf : R w f f')
    (hargs : List.Forall₂ (R w) vs vs')
    (hnext : ∀ w₁, w ≤ w₁ → ∀ v v', R w₁ v v' → Alike R w₁ (a v) (b v')) :
    Alike R w (.call f vs a) (.call f' vs' b)
  | attempt {w : W} {f f' : ν} {vs vs' : List ν} {a b : Except (Fault ν) ν → Action ν}
    (hf : R w f f') (hargs : List.Forall₂ (R w) vs vs')
    (hnext : ∀ w₁, w ≤ w₁ → ∀ r r', Result.Rel (R w₁) (R w₁) r r' → Alike R w₁ (a r) (b r')) :
    Alike R w (.attempt f vs a) (.attempt f' vs' b)

/-- A way to relate values that leaves everything but closures alone: data and primitives
    are related to themselves, and closures to closures. -/
structure Value.Opaque [Preorder W] (R : W → Value η → Value η → Prop) : Prop where
  mono : ∀ {w w'}, w ≤ w' → ∀ {v v'}, R w v v' → R w' v v'
  datum : ∀ w e, R w (.datum e) (.datum e)
  primitive : ∀ w name operation, R w (.primitive name operation) (.primitive name operation)
  alike : ∀ {w v v'}, R w v v' → v.Alike (fun _ => True) (fun _ _ _ _ => True) v'

/-- The functions of the host cannot look into closures, nor make any: they take the same
    steps on arguments that are the same but for their closures. -/
def OpaqueHost (η : Type) [Host η] : Prop :=
  ∀ (W : Type) [Preorder W] (R : W → Value η → Value η → Prop), Value.Opaque R →
    ∀ (w : W) (function : η) (vs vs' : List (Value η)), List.Forall₂ (R w) vs vs' →
      Action.Alike R w (Host.act function vs) (Host.act function vs')

/-- The host without functions does not look into anything. -/
theorem opaqueHost_empty : OpaqueHost Empty :=
  fun _ _ _ _ _ function => nomatch function

theorem opaqueHost_relay : OpaqueHost Relay := by
  intro W _ R _ w function vs vs' h
  cases h with
  | nil => exact .refuse (.host _ _)
  | cons hv hrest => exact .call hv hrest fun _ _ _ _ h => .yield h

-- ============================================================================
-- Runs of actions
-- ============================================================================

namespace Likeness

variable [Preorder W] {L : Likeness η W} {w : W} {Q : W → α → β → Prop}

theorem result_rel_mono {w' : W} (hw : w ≤ w') {r r' : Except (Fault (Value η)) (Value η)}
    (h : Result.Rel (L.Values w) (L.Values w) r r') :
    Result.Rel (L.Values w') (L.Values w') r r' :=
  h.imp fun _ _ hv => hv.mono hw

theorem Runs.settle {x : Run (Value η) α} {y : Run (Value η) β} (h : L.Runs w Q x y) :
    L.Runs w (fun w₁ => Result.Rel (L.Values w₁) (Q w₁)) x.settle y.settle := by
  intro w₁ hw s t hst
  obtain ⟨w₂, hw₂, hstores, hends⟩ := h w₁ hw s t hst
  exact ⟨w₂, hw₂, hstores, .ok hends.result⟩

/-- What can be gone on after on one side can be gone on after on the other. -/
theorem Ends.recover {r : Except (Fault (Value η)) α} {r' : Except (Fault (Value η)) β}
    (h : L.Ends w Q r r') :
    L.Ends w (fun w₁ => Result.Rel (L.Values w₁) (Q w₁)) (Run.recover r) (Run.recover r') := by
  cases h with
  | ok hab => exact .ok (.ok hab)
  | error hfault hadmits =>
    have hresult : Result.Rel (L.Values w) (Q w) (.error _) (.error _) := .error hfault
    cases hfault <;> first | exact .error .tooDeep hadmits | exact .ok hresult

theorem Runs.attempt {x : Run (Value η) α} {y : Run (Value η) β} (h : L.Runs w Q x y) :
    L.Runs w (fun w₁ => Result.Rel (L.Values w₁) (Q w₁)) x.attempt y.attempt := by
  intro w₁ hw s t hst
  obtain ⟨w₂, hw₂, hstores, hends⟩ := h w₁ hw s t hst
  rw [Run.outcome_attempt, Run.outcome_attempt]
  exact ⟨w₂, hw₂, hstores, hends.recover⟩

/-- Alike actions run alike where applications do, if the journals of alike stores are the
    same and stay so when a line is added. -/
theorem Runs.action [Host η] (hadmits : ∀ fault, L.Admits fault)
    (hjournal : ∀ w s t, L.Stores w s t → t.journal = s.journal)
    (htell : ∀ w s t line, L.Stores w s t → L.Stores w (s.tell line) (t.tell line)) {limit : Nat}
    (happlies : L.Applies limit) {a b : Action (Value η)} (h : Action.Alike L.Values w a b) :
    L.Runs w L.Values (a.run (Value.apply limit)) (b.run (Value.apply limit)) := by
  induction h with
  | yield hv => exact .pure fun w₁ hw => hv.mono hw
  | refuse hfault => exact .fail (fun w₁ hw => hfault.imp fun _ _ hv => hv.mono hw) (hadmits _)
  | @tell w line a b _ ih =>
    have htold : L.Runs w (fun _ _ _ => True) (.update fun s => s.tell line)
        (.update fun t => t.tell line) := .update fun w₁ _ s t hst => htell w₁ s t line hst
    exact htold.bind fun w₁ hw _ _ _ => ih.mono hw
  | @ask w a b _ ih =>
    intro w₁ hw s t hst
    have hrun := ih s.journal w₁ hw s t hst
    simp only [Action.run, Run.outcome_bind, Run.outcome_get]
    rwa [hjournal w₁ s t hst]
  | call hf hargs _ ih =>
    exact (happlies _ _ _ _ _ hf hargs).bind fun w₁ hw v v' hv => ih w₁ hw v v' hv
  | attempt hf hargs _ ih =>
    exact (happlies _ _ _ _ _ hf hargs).attempt.bind fun w₁ hw r r' hr => ih w₁ hw r r' hr

theorem opaque_values (hdata : ∀ e, L.Data e) : Value.Opaque L.Values where
  mono hw _ _ hv := hv.mono hw
  datum _ e := .datum (hdata e)
  primitive _ name operation := .primitive name operation
  alike := by
    rintro w _ _ (_ | _ | _)
    · exact .datum trivial
    · exact .closure trivial
    · exact .primitive _ _

/-- Functions of a host that cannot look into closures run alike where applications do. -/
theorem host_of_opaque [Host η] (hhost : OpaqueHost η) (hdata : ∀ e, L.Data e)
    (hadmits : ∀ fault, L.Admits fault)
    (hjournal : ∀ w s t, L.Stores w s t → t.journal = s.journal)
    (htell : ∀ w s t line, L.Stores w s t → L.Stores w (s.tell line) (t.tell line)) (limit : Nat)
    (happlies : L.Applies limit) (w : W) (function : η) (vs vs' : List (Value η))
    (hvs : List.Forall₂ (L.Values w) vs vs') :
    L.Runs w L.Values ((Host.act function vs).run (Value.apply limit))
      ((Host.act function vs').run (Value.apply limit)) :=
  .action hadmits hjournal htell happlies
    (hhost W L.Values (opaque_values hdata) w function vs vs' hvs)

end Likeness

end LineLisp
