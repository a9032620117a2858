/-
  LineLisp.Proofs.SessionSimulation

  Lines of two sessions side by side. What reading and compiling come to depends on the
  text alone, so two sessions that are given the same line run the same code, each in its
  root. If that code is alike in both roots, then the lines have alike runs.
-/
import LineLisp.Proofs.OpaqueHost
import LineLisp.Proofs.SessionHistory
import LineLisp.Proofs.SourceText

namespace LineLisp

variable {η W ν α : Type}

-- ============================================================================
-- Faults without values
-- ============================================================================

theorem Fault.rel_self {R : ν → ν → Prop} {fault : Fault ν} (h : ∀ v ∈ fault.values, R v v) :
    fault.Rel R fault := by
  cases fault with
  | notApplicable v => exact .notApplicable (h v (List.mem_singleton.2 rfl))
  | notInteger function position v =>
    exact .notInteger function position (h v (List.mem_singleton.2 rfl))
  | _ => constructor

/-- Why a text has no expressions does not depend on values. -/
theorem values_of_readSource {line : String} {fault : Fault (Value η)}
    (h : readSource line = .error fault) : fault.values = [] := by
  unfold readSource at h
  split at h
  · cases h
    rfl
  · split at h
    · cases h
      rfl
    · cases h

/-- Why an expression has no node does not depend on values. -/
theorem values_of_compileExpr {e : Expr} {fault : Fault (Value η)}
    (h : compileExpr e = .error fault) : fault.values = [] := by
  unfold compileExpr at h
  split at h
  · cases h
  · cases h
    rfl

theorem compile_of_compileExpr {e : Expr} {node : Node}
    (h : (compileExpr e : Except (Fault (Value η)) Node) = .ok node) : e.compile = .ok node := by
  unfold compileExpr at h
  split at h
  · next hcompile =>
    cases h
    exact hcompile
  · cases h

-- ============================================================================
-- The code of a line
-- ============================================================================

/-- Code that a line is compiled to: the node of one of its expressions. -/
def CodeOf (line : String) (node : Node) : Prop :=
  ∃ tokens exprs, tokenize line = .ok tokens ∧
    (Expr.readAll Expr.maxNesting tokens).1 = .ok exprs ∧ ∃ e ∈ exprs, e.compile = .ok node

namespace Likeness

variable [Preorder W] {L : Likeness η W} {w : W}

/-- An outcome that is there already, of which a fault carries no values. -/
theorem Runs.ofExcept {Q : W → α → α → Prop} {r : Except (Fault (Value η)) α}
    (hok : ∀ a, r = .ok a → ∀ w₁, w ≤ w₁ → Q w₁ a a)
    (hfault : ∀ fault, r = .error fault → fault.values = [] ∧ L.Admits fault) :
    L.Runs w Q (.ofExcept r) (.ofExcept r) := by
  cases r with
  | ok a => exact .pure (hok a rfl)
  | error fault =>
    obtain ⟨hvalues, hadmits⟩ := hfault fault rfl
    refine .fail (fun w₁ _ => Fault.rel_self ?_) hadmits
    rw [hvalues]
    exact nofun

namespace Closed

variable [Host η] {session session' : Session}

/-- A line has alike runs in two sessions, if its code is alike in their roots. -/
theorem evalWithin (h : L.Closed) (hadmits : ∀ fault, L.Admits fault) {line : String}
    (hcode : ∀ node, CodeOf line node → L.Codes w node session.root node session'.root)
    (limit : Nat) :
    L.Runs w (fun w₁ => List.Forall₂ (L.Values w₁)) (session.evalWithin limit line)
      (session'.evalWithin limit line) := by
  have hread : L.Runs w (fun _ es es' => es' = es ∧
        (readSource line : Except (Fault (Value η)) (List Expr)) = .ok es)
      (.ofExcept (readSource line)) (.ofExcept (readSource line)) :=
    .ofExcept (fun _ hes _ _ => ⟨rfl, hes⟩)
      fun fault hfault => ⟨values_of_readSource hfault, hadmits fault⟩
  refine hread.bind fun w₁ hw₁ exprs exprs' hexprs => ?_
  obtain ⟨rfl, hsource⟩ := hexprs
  obtain ⟨tokens, htokens, hreadAll⟩ := readSource_eq_ok_iff.1 hsource
  refine .mapM (E := fun e e' => e' = e ∧ e ∈ exprs') (fun _ _ hw _ _ hv => hv.mono hw) ?_
    (List.forall₂_same.2 fun e he => ⟨rfl, he⟩)
  rintro _ e ⟨rfl, he⟩
  have hcompile : L.Runs w₁ (fun _ n n' => n' = n ∧ CodeOf line n)
      (.ofExcept (compileExpr e)) (.ofExcept (compileExpr e)) := by
    refine .ofExcept (fun node hnode _ _ => ⟨rfl, tokens, exprs', htokens, hreadAll, e, he, ?_⟩)
      fun fault hfault => ⟨values_of_compileExpr hfault, hadmits fault⟩
    exact compile_of_compileExpr hnode
  refine hcompile.bind fun w₂ hw₂ node node' hnode => ?_
  obtain ⟨rfl, hof⟩ := hnode
  exact (h.alike limit).1 w₂ _ _ _ _ (L.codes_mono (le_trans hw₁ hw₂) (hcode _ hof))

/-- Lines have alike runs in two sessions, if their code is alike in the roots. -/
theorem evalLines (h : L.Closed) (hadmits : ∀ fault, L.Admits fault)
    {lines : List (Nat × String)} (hcode : ∀ line ∈ lines, ∀ node, CodeOf line.2 node →
      L.Codes w node session.root node session'.root) :
    L.Runs w (fun w₁ => List.Forall₂ (Result.Rel (L.Values w₁) (List.Forall₂ (L.Values w₁))))
      (session.evalLines lines) (session'.evalLines lines) := by
  refine .mapM (P := fun w₁ => Result.Rel (L.Values w₁) (List.Forall₂ (L.Values w₁)))
    (E := fun p q => q = p ∧ p ∈ lines) (fun w₁ w₂ hw r r' hr => ?_) ?_
    (List.forall₂_same.2 fun p hp => ⟨rfl, hp⟩)
  · cases hr with
    | ok hvs => exact .ok (forall₂_values_mono hw hvs)
    | error hfault => exact .error (hfault.imp fun _ _ hv => hv.mono hw)
  · rintro _ ⟨limit, line⟩ ⟨rfl, hp⟩
    exact (h.evalWithin hadmits (hcode _ hp) limit).settle

end Closed

end Likeness

end LineLisp
