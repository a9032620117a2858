/-
  LineLisp.Run

  Runs. A run takes a store and ends with an outcome (a result or a fault) and a
  store; a fault keeps all that was done before it. Names are looked up along
  the chain of a frame, and a call binds its parameters in a fresh frame.
-/
import LineLisp.Fault
import LineLisp.Store.Basic

namespace LineLisp

/-- A run: from a store to an outcome and a store. -/
abbrev Run (ν α : Type) := ExceptT (Fault ν) (StateM (Store ν)) α

namespace Run

variable {ν α β : Type}

/-- The outcome of a run from a store, and the store it leaves. -/
def outcome (x : Run ν α) (s : Store ν) : Except (Fault ν) α × Store ν :=
  x.run.run s

/-- Ends a run with a fault. -/
def fail (fault : Fault ν) : Run ν α :=
  throw fault

/-- An outcome that is there already, as a run without effect. -/
def ofExcept (outcome : Except (Fault ν) α) : Run ν α :=
  match outcome with
  | .ok a => pure a
  | .error fault => fail fault

/-- Carries out a run and yields its result or its fault. -/
def settle (x : Run ν α) : Run ν (Except (Fault ν) α) :=
  ExceptT.lift x.run

/-- The results and faults that a run can go on after: all but a lack of room. -/
def recover : Except (Fault ν) α → Except (Fault ν) (Except (Fault ν) α)
  | .error .tooDeep => .error .tooDeep
  | result => .ok result

/-- Carries out a run and yields its result or its fault, but ends with a lack of
    room. -/
def attempt (x : Run ν α) : Run ν (Except (Fault ν) α) := do
  let result ← settle x
  ofExcept (recover result)

/-- Changes the store. -/
def update (f : Store ν → Store ν) : Run ν Unit :=
  modify f

/-- Changes the store and yields a result. -/
def updateGet (f : Store ν → α × Store ν) : Run ν α :=
  modifyGet f

-- ============================================================================
-- Lemmas
-- ============================================================================

@[simp] theorem outcome_pure (a : α) (s : Store ν) :
    outcome (pure a : Run ν α) s = (.ok a, s) := rfl

@[simp] theorem outcome_fail (fault : Fault ν) (s : Store ν) :
    outcome (fail fault : Run ν α) s = (.error fault, s) := rfl

@[simp] theorem outcome_update (f : Store ν → Store ν) (s : Store ν) :
    outcome (update f) s = (.ok (), f s) := rfl

@[simp] theorem outcome_updateGet (f : Store ν → α × Store ν) (s : Store ν) :
    outcome (updateGet f) s = (.ok (f s).1, (f s).2) := rfl

@[simp] theorem outcome_get (s : Store ν) :
    outcome (get : Run ν (Store ν)) s = (.ok s, s) := rfl

/-- A run goes on from where the run before it ended, unless that was a
    fault. -/
@[simp] theorem outcome_bind (x : Run ν α) (f : α → Run ν β) (s : Store ν) :
    outcome (x >>= f) s =
      match outcome x s with
      | (.ok a, s') => outcome (f a) s'
      | (.error fault, s') => (.error fault, s') := by
  simp only [outcome, ExceptT.run_bind, StateT.run_bind]
  rcases h : x.run.run s with ⟨r, s'⟩
  cases r <;> rfl

@[simp] theorem outcome_map (f : α → β) (x : Run ν α) (s : Store ν) :
    outcome (f <$> x) s = ((outcome x s).1.map f, (outcome x s).2) := by
  rw [← bind_pure_comp, outcome_bind]
  rcases outcome x s with ⟨r, s'⟩
  cases r <;> rfl

@[simp] theorem outcome_settle (x : Run ν α) (s : Store ν) :
    outcome (settle x) s = (.ok (outcome x s).1, (outcome x s).2) := rfl

/-- Two runs that always do the same are the same. -/
theorem ext {x y : Run ν α} (h : ∀ s, outcome x s = outcome y s) : x = y :=
  funext h

@[simp] theorem outcome_ofExcept (r : Except (Fault ν) α) (s : Store ν) :
    outcome (ofExcept r) s = (r, s) := by
  cases r <;> rfl

@[simp] theorem outcome_attempt (x : Run ν α) (s : Store ν) :
    outcome (attempt x) s = (recover (outcome x s).1, (outcome x s).2) := by
  simp [attempt]

end Run

variable {ν : Type}

/-- The value of a name as seen from a frame. -/
def Run.lookup (frame : Nat) (name : String) : Run ν ν := do
  match (← get).lookup? frame name with
  | some value => pure value
  | none => .fail (.unbound name)

/-- Makes the frame of a call: inside the frame of the closure, with the
    parameters bound to the arguments in order, so that of parameters of one
    name the last one counts. The numbers of both have to agree. -/
def Run.bindArguments (params : List String) (scope : Nat) (args : List ν) :
    Run ν Nat := do
  if args.length = params.length then
    let frame ← Run.updateGet fun s => s.newChild scope
    Run.update fun s => s.defineAll frame (params.zip args)
    pure frame
  else .fail (.arity params.length args.length)

end LineLisp
