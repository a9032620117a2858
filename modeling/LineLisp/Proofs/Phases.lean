/-
  LineLisp.Proofs.Phases

  The phases of a line. A line is cut into tokens and read as a whole before any of it is
  run, so a fault of these phases leaves the store as it is. Then the expressions are
  compiled and run one by one: those before the first that fails have had their effects,
  those behind it have none, and if it has a malformed form anywhere in its code, it has
  no effect either.
-/
import LineLisp.Proofs.FormErrors
import LineLisp.Proofs.SessionHistory
import LineLisp.Proofs.SourceText

namespace LineLisp

variable {η ν α β : Type}

-- ============================================================================
-- Runs in order
-- ============================================================================

/-- Runs in order up to the first that fails: those before it come through and leave a
    store, and it fails there. -/
structure Run.FailsAt (f : β → Run ν α) (s : Store ν) (before : List β) (b : β) (t : Store ν)
    (fault : Fault ν) (u : Store ν) : Prop where
  before : ∃ as, (before.mapM f).outcome s = (.ok as, t)
  failing : (f b).outcome t = (.error fault, u)

/-- Runs in order come through, or stop at the first that fails with what it has come
    to. -/
theorem Run.outcome_mapM_cases (f : β → Run ν α) (bs : List β) (s : Store ν) :
    (∃ as t, (bs.mapM f).outcome s = (.ok as, t) ∧ ∀ b ∈ bs, ∃ t a u, (f b).outcome t = (.ok a, u)) ∨
      ∃ before b after t fault u, bs = before ++ b :: after ∧ Run.FailsAt f s before b t fault u ∧
        (bs.mapM f).outcome s = (.error fault, u) := by
  induction bs generalizing s with
  | nil => exact .inl ⟨[], s, rfl, nofun⟩
  | cons b bs ih =>
    rw [List.mapM_cons, outcome_bind]
    rcases hb : (f b).outcome s with ⟨r, t⟩
    cases r with
    | error fault => exact .inr ⟨[], b, bs, s, fault, t, rfl, ⟨⟨[], rfl⟩, hb⟩, rfl⟩
    | ok a =>
      simp only [outcome_bind]
      rcases ih t with ⟨as, u, has, hall⟩ | ⟨before, b', after, u, fault, v, rfl, hfails, hstop⟩
      · refine .inl ⟨a :: as, u, by rw [has]; rfl, ?_⟩
        exact List.forall_mem_cons.2 ⟨⟨s, a, t, hb⟩, hall⟩
      · obtain ⟨⟨as, has⟩, hfailing⟩ := hfails
        refine .inr ⟨b :: before, b', after, u, fault, v, rfl, ⟨⟨a :: as, ?_⟩, hfailing⟩, ?_⟩
        · exact outcome_mapM_cons_ok_iff.2 ⟨a, as, t, hb, has, rfl⟩
        · rw [hstop]

-- ============================================================================
-- Expressions with a malformed form
-- ============================================================================

variable {e form : Expr} {rule : FormRule}

/-- All code of a readable expression is readable. -/
theorem Expr.Readable.of_hasCode (h : e.Readable) (hcode : e.HasCode form) : form.Readable := by
  refine hcode.inherits (fun hitem hform => ?_) h
  cases hform with
  | list hitems => exact hitems _ (Expr.mem_of_part? hitem)
  | int _ => cases hitem
  | sym _ => cases hitem
  | str _ => cases hitem

/-- Where a readable expression does not compile, the error is about a malformed form in
    it. -/
theorem Expr.Readable.malformed_of_compile {error : CompileError} (h : e.Readable)
    (herror : e.compile = .error error) :
    ∃ rule form, error = .malformed rule form ∧ form.Breaks rule ∧ e.HasCode form := by
  rcases hasCode_of_compile_eq_error herror with ⟨-, hcode⟩ | hform
  · exact absurd rfl (h.of_hasCode hcode).ne_hole
  · exact hform

/-- A fault that says of a malformed form of an expression which rule it breaks. It is
    seen from outside as what it is. -/
structure FormFault (e : Expr) (fault : Fault (Value η)) : Prop where
  about : ∃ rule form, fault = .compiling (.malformed rule form) ∧ form.Breaks rule ∧ e.HasCode form
  settled : fault.settled = fault
  logName? : fault.logName? = some "ToyLispCompileError"

/-- A readable expression with a malformed form does nothing but fail. -/
theorem Expr.HasMalformed.outcome_runExprWithin [Host η] (h : e.HasMalformed) (hread : e.Readable)
    (frame limit : Nat) :
    ∃ fault : Fault (Value η), FormFault e fault ∧
      ∀ s, (runExprWithin frame limit e).outcome s = (.error fault, s) := by
  have hhole : ¬ e.HasCode .hole := fun hcode => (hread.of_hasCode hcode).ne_hole rfl
  obtain ⟨error, herror⟩ := (compile_eq_error_iff hhole).2 h
  obtain ⟨rule, form, rfl, hbreaks, hcode⟩ := hread.malformed_of_compile herror
  have hfits : (Fault.compiling (.malformed rule form) : Fault (Value η)).fits = true :=
    (hread.of_hasCode hcode).fits
  refine ⟨.compiling (.malformed rule form), ⟨⟨rule, form, rfl, hbreaks, hcode⟩,
    Fault.settled_of_fits hfits, rfl⟩, fun s => ?_⟩
  simp only [runExprWithin, compileExpr, herror, Run.outcome_bind, Run.outcome_ofExcept]

-- ============================================================================
-- Lines
-- ============================================================================

section

variable [Host η] {limit : Nat} {line : String} {exprs : List Expr}

theorem Session.evalWithin_of_readSource_error (session : Session) {fault : Fault (Value η)}
    (h : readSource line = .error fault) (s : Store (Value η)) :
    (session.evalWithin limit line).outcome s = (.error fault, s) := by
  simp only [evalWithin, h, Run.outcome_bind, Run.outcome_ofExcept]

theorem Session.evalWithin_of_readSource (session : Session)
    (h : (readSource line : Except (Fault (Value η)) (List Expr)) = .ok exprs) :
    (session.evalWithin limit line : Run (Value η) (List (Value η))) =
      exprs.mapM (runExprWithin session.root limit) := by
  unfold evalWithin
  rw [h]
  rfl

/-- The expressions that were read from a line run in order. The first that fails fails
    by itself where its code has a malformed form. -/
theorem Session.evalWithin_cases (session : Session)
    (h : (readSource line : Except (Fault (Value η)) (List Expr)) = .ok exprs)
    (s : Store (Value η)) :
    (∃ values t, (session.evalWithin limit line).outcome s = (.ok values, t) ∧
        ∀ e ∈ exprs, ¬ e.HasMalformed) ∨
      ∃ before e after t fault u, exprs = before ++ e :: after ∧
        Run.FailsAt (runExprWithin session.root limit) s before e t fault u ∧
        (session.evalWithin limit line).outcome s = (.error fault, u) ∧
        (e.HasMalformed → FormFault e fault ∧ u = t) := by
  have hfails : ∀ e ∈ exprs, e.HasMalformed → ∃ fault : Fault (Value η), FormFault e fault ∧
      ∀ t, (runExprWithin session.root limit e).outcome t = (.error fault, t) := fun e he hmalformed =>
    hmalformed.outcome_runExprWithin (sourced_of_readSource h e he).readable session.root limit
  rw [session.evalWithin_of_readSource h]
  rcases Run.outcome_mapM_cases (runExprWithin session.root limit) exprs s with
    ⟨values, t, hvalues, hall⟩ | ⟨before, e, after, t, fault, u, rfl, hstop, hend⟩
  · refine .inl ⟨values, t, hvalues, fun e he hmalformed => ?_⟩
    obtain ⟨fault, -, hfault⟩ := hfails e he hmalformed
    obtain ⟨t', a, u, hok⟩ := hall e he
    rw [hfault t'] at hok
    cases hok
  · refine .inr ⟨before, e, after, t, fault, u, rfl, hstop, hend, fun hmalformed => ?_⟩
    obtain ⟨fault', hform, hfault⟩ := hfails e (by simp) hmalformed
    have heq := hstop.failing
    rw [hfault t] at heq
    cases heq
    exact ⟨hform, rfl⟩

end

end LineLisp
