/-
  LineLisp.Proofs.Correspondence

  Runs over two types of values, related step by step. A relation on values is
  lifted to faults, to stores with the same frames, to outcomes and to runs; the
  ways of making runs keep it. Two runs that correspond end in the same way from
  corresponding stores, with corresponding results, and leave corresponding
  stores also where they fail.
-/
import LineLisp.Evaluation
import LineLisp.Store.Lemmas
import Mathlib.Data.List.Forall2

namespace LineLisp

variable {ν ν' α α' β β' : Type}

-- ============================================================================
-- Faults and actions
-- ============================================================================

/-- Faults of one kind with the same data, up to a relation on values. -/
inductive Fault.Rel (R : ν → ν' → Prop) : Fault ν → Fault ν' → Prop where
  | lexing (error : LexError) : Rel R (.lexing error) (.lexing error)
  | reading (error : ReadError) : Rel R (.reading error) (.reading error)
  | compiling (error : CompileError) : Rel R (.compiling error) (.compiling error)
  | unbound (name : String) : Rel R (.unbound name) (.unbound name)
  | arity (expected actual : Nat) : Rel R (.arity expected actual) (.arity expected actual)
  | notApplicable {v : ν} {w : ν'} (h : R v w) : Rel R (.notApplicable v) (.notApplicable w)
  | notInteger (function : String) (position : Nat) {v : ν} {w : ν'} (h : R v w) :
    Rel R (.notInteger function position v) (.notInteger function position w)
  | host (kind message : String) : Rel R (.host kind message) (.host kind message)
  | unknownNode : Rel R .unknownNode .unknownNode
  | tooDeep : Rel R .tooDeep .tooDeep
  | tooLong : Rel R .tooLong .tooLong

/-- Results that correspond, or faults that do. -/
inductive Result.Rel (R : ν → ν' → Prop) (Q : α → β → Prop) :
    Except (Fault ν) α → Except (Fault ν') β → Prop where
  | ok {a : α} {b : β} (h : Q a b) : Rel R Q (.ok a) (.ok b)
  | error {f : Fault ν} {g : Fault ν'} (h : f.Rel R g) : Rel R Q (.error f) (.error g)

/-- Actions that take the same steps on corresponding values. -/
inductive Action.Rel (R : ν → ν' → Prop) : Action ν → Action ν' → Prop where
  | yield {v : ν} {w : ν'} (h : R v w) : Rel R (.yield v) (.yield w)
  | refuse {f : Fault ν} {g : Fault ν'} (h : f.Rel R g) : Rel R (.refuse f) (.refuse g)
  | tell (line : String) {a : Action ν} {b : Action ν'} (h : Rel R a b) :
    Rel R (.tell line a) (.tell line b)
  | ask {a : Array String → Action ν} {b : Array String → Action ν'}
    (h : ∀ lines, Rel R (a lines) (b lines)) : Rel R (.ask a) (.ask b)
  | call {f : ν} {g : ν'} {vs : List ν} {ws : List ν'} {a : ν → Action ν} {b : ν' → Action ν'}
    (hf : R f g) (hargs : List.Forall₂ R vs ws) (hnext : ∀ v w, R v w → Rel R (a v) (b w)) :
    Rel R (.call f vs a) (.call g ws b)
  | attempt {f : ν} {g : ν'} {vs : List ν} {ws : List ν'} {a : Except (Fault ν) ν → Action ν}
    {b : Except (Fault ν') ν' → Action ν'} (hf : R f g) (hargs : List.Forall₂ R vs ws)
    (hnext : ∀ r r', Result.Rel R R r r' → Rel R (a r) (b r')) :
    Rel R (.attempt f vs a) (.attempt g ws b)

theorem Fault.Rel.imp {R R' : ν → ν' → Prop} (hR : ∀ v w, R v w → R' v w) {f : Fault ν}
    {g : Fault ν'} (h : f.Rel R g) : f.Rel R' g := by
  cases h with
  | notApplicable hvw => exact .notApplicable (hR _ _ hvw)
  | notInteger function position hvw => exact .notInteger function position (hR _ _ hvw)
  | _ => constructor

theorem Result.Rel.imp {R R' : ν → ν' → Prop} (hR : ∀ v w, R v w → R' v w)
    {r : Except (Fault ν) ν} {r' : Except (Fault ν') ν'} (h : Result.Rel R R r r') :
    Result.Rel R' R' r r' := by
  cases h with
  | ok hvw => exact .ok (hR _ _ hvw)
  | error hfault => exact .error (hfault.imp hR)

-- ============================================================================
-- Bindings
-- ============================================================================

theorem isSome_eq_of_rel {R : α → β → Prop} {a : Option α} {b : Option β}
    (h : Option.Rel R a b) : a.isSome = b.isSome := by
  cases h with
  | none => rfl
  | some _ => rfl

/-- Corresponding names in the same order, with corresponding values. -/
def Bindings.RelBy (N : String → String → Prop) (R : ν → ν' → Prop) (bs : Bindings ν)
    (cs : Bindings ν') : Prop :=
  List.Forall₂ (fun b c => N b.1 c.1 ∧ R b.2 c.2) bs cs

theorem Bindings.RelBy.zip {N : String → String → Prop} {R : ν → ν' → Prop}
    {names names' : List String} (hnames : List.Forall₂ N names names') {vs : List ν}
    {ws : List ν'} (h : List.Forall₂ R vs ws) :
    Bindings.RelBy N R (names.zip vs) (names'.zip ws) := by
  induction hnames generalizing vs ws with
  | nil => exact .nil
  | cons hname _ ih =>
    cases h with
    | nil => exact .nil
    | cons hvw hrest => exact .cons ⟨hname, hvw⟩ (ih hrest)

/-- The same names in the same order, with corresponding values. -/
def Bindings.Rel (R : ν → ν' → Prop) (bs : Bindings ν) (cs : Bindings ν') : Prop :=
  List.Forall₂ (fun b c => b.1 = c.1 ∧ R b.2 c.2) bs cs

namespace Bindings.Rel

variable {R : ν → ν' → Prop}

theorem get? {bs : Bindings ν} {cs : Bindings ν'} (h : bs.Rel R cs) (name : String) :
    Option.Rel R (bs.get? name) (cs.get? name) := by
  induction h with
  | nil => exact .none
  | @cons b c bs cs hbc _ ih =>
    obtain ⟨bound, v⟩ := b
    obtain ⟨bound', w⟩ := c
    obtain ⟨rfl, hvw⟩ : bound = bound' ∧ R v w := hbc
    simp only [Bindings.get?]
    split
    · exact .some hvw
    · exact ih

theorem define {bs : Bindings ν} {cs : Bindings ν'} (h : bs.Rel R cs) (name : String) {v : ν}
    {w : ν'} (hvw : R v w) : (bs.define name v).Rel R (cs.define name w) := by
  induction h with
  | nil => exact .cons ⟨rfl, hvw⟩ .nil
  | @cons b c bs cs hbc hrest ih =>
    obtain ⟨bound, old⟩ := b
    obtain ⟨bound', old'⟩ := c
    obtain ⟨rfl, hold⟩ : bound = bound' ∧ R old old' := hbc
    simp only [Bindings.define]
    split
    · exact .cons ⟨rfl, hvw⟩ hrest
    · exact .cons ⟨rfl, hold⟩ ih

theorem zip (names : List String) {vs : List ν} {ws : List ν'} (h : List.Forall₂ R vs ws) :
    Bindings.Rel R (names.zip vs) (names.zip ws) :=
  RelBy.zip (List.forall₂_refl names) h

theorem exists_left {bs : Bindings ν} {cs : Bindings ν'} (h : bs.Rel R cs) {c : String × ν'}
    (hc : c ∈ cs) : ∃ v, R v c.2 := by
  induction h with
  | nil => cases hc
  | @cons b c' bs cs hbc _ ih =>
    rcases List.mem_cons.1 hc with rfl | hc
    · exact ⟨b.2, hbc.2⟩
    · exact ih hc

end Bindings.Rel

-- ============================================================================
-- Stores
-- ============================================================================

/-- Stores with the same frames inside one another, corresponding bindings in each
    frame, and the same journal. -/
structure Store.Rel (R : ν → ν' → Prop) (s : Store ν) (t : Store ν') : Prop where
  next : s.next = t.next
  parent : ∀ f, s.parent? f = t.parent? f
  bindings : ∀ f, (s.bindings f).Rel R (t.bindings f)
  journal : s.journal = t.journal

namespace Store.Rel

variable {R : ν → ν' → Prop} {s : Store ν} {t : Store ν'}

theorem add (h : s.Rel R t) (parent : Option Nat) : (s.add parent).Rel R (t.add parent) where
  next := by rw [next_add, next_add, h.next]
  parent f := by
    by_cases hf : f = s.next
    · subst hf
      rw [parent?_add_self, h.next, parent?_add_self]
    · have hf' : f ≠ t.next := h.next ▸ hf
      rw [parent?_add_of_ne hf, parent?_add_of_ne hf', h.parent]
  bindings f := by
    rw [bindings_add, bindings_add]
    exact h.bindings f
  journal := h.journal

theorem define (h : s.Rel R t) (f : Nat) (name : String) {v : ν} {w : ν'} (hvw : R v w) :
    (s.define f name v).Rel R (t.define f name w) where
  next := by rw [next_define, next_define, h.next]
  parent g := by rw [parent?_define, parent?_define, h.parent]
  bindings g := by
    by_cases hg : g = f
    · subst hg
      by_cases hlt : g < s.next
      · rw [bindings_define_self hlt, bindings_define_self (h.next ▸ hlt)]
        exact (h.bindings g).define name hvw
      · -- Beyond the last frame nothing is bound, before and after.
        have hs : (s.define g name v).next ≤ g := by simpa using hlt
        have ht : (t.define g name w).next ≤ g := by simpa [← h.next] using hlt
        rw [bindings_eq_nil hs, bindings_eq_nil ht]
        exact .nil
    · rw [bindings_define_of_ne hg, bindings_define_of_ne hg]
      exact h.bindings g
  journal := h.journal

theorem defineAll (h : s.Rel R t) (f : Nat) {bs : Bindings ν} {cs : Bindings ν'}
    (hbs : bs.Rel R cs) : (s.defineAll f bs).Rel R (t.defineAll f cs) := by
  induction hbs generalizing s t with
  | nil => exact h
  | @cons b c bs cs hbc _ ih =>
    obtain ⟨name, v⟩ := b
    obtain ⟨name', w⟩ := c
    obtain ⟨rfl, hvw⟩ : name = name' ∧ R v w := hbc
    exact ih (h.define f name hvw)

theorem tell (h : s.Rel R t) (line : String) : (s.tell line).Rel R (t.tell line) where
  next := h.next
  parent := h.parent
  bindings := h.bindings
  journal := by
    show s.journal.push line = t.journal.push line
    rw [h.journal]

theorem ancestry (h : s.Rel R t) (n f : Nat) : s.ancestry n f = t.ancestry n f := by
  induction n generalizing f with
  | zero => rfl
  | succ n ih =>
    simp only [Store.ancestry, h.parent f]
    cases t.parent? f with
    | none => rfl
    | some outer => simp only [ih outer]

theorem get? (h : s.Rel R t) (f : Nat) (name : String) :
    Option.Rel R (s.get? f name) (t.get? f name) :=
  (h.bindings f).get? name

/-- A name is found in the same frame of both stores. -/
theorem find? (h : s.Rel R t) (f : Nat) (name : String) : s.find? f name = t.find? f name := by
  have hsome : ∀ g, (s.get? g name).isSome = (t.get? g name).isSome := fun g =>
    isSome_eq_of_rel (h.get? g name)
  simp only [Store.find?, chain, h.ancestry, hsome]

theorem lookup? (h : s.Rel R t) (f : Nat) (name : String) :
    Option.Rel R (s.lookup? f name) (t.lookup? f name) := by
  simp only [Store.lookup?, h.find? f name]
  cases t.find? f name with
  | none => exact .none
  | some g => exact h.get? g name

end Store.Rel

/-- Puts other values in the place of those that are bound. -/
def Store.mapValues (g : ν → ν') (s : Store ν) : Store ν' :=
  ⟨s.frames.map fun frame => ⟨frame.parent, frame.bindings.map fun b => (b.1, g b.2)⟩, s.journal⟩

theorem Store.Rel.mapValues {R : ν' → ν → Prop} {g : ν → ν'} {s : Store ν}
    (h : ∀ frame ∈ s.frames, ∀ b ∈ frame.bindings, R (g b.2) b.2) :
    (s.mapValues g).Rel R s where
  next := by simp [Store.mapValues, Store.next]
  parent f := by
    simp only [Store.parent?, Store.mapValues, Array.getElem?_map]
    cases s.frames[f]? with
    | none => rfl
    | some frame => rfl
  bindings f := by
    simp only [Store.bindings, Store.mapValues, Array.getElem?_map]
    cases hf : s.frames[f]? with
    | none => exact .nil
    | some frame =>
      have hframe : frame ∈ s.frames := Array.mem_of_getElem? hf
      show List.Forall₂ _ (frame.bindings.map fun b => (b.1, g b.2)) frame.bindings
      rw [List.forall₂_map_left_iff, List.forall₂_same]
      intro b hb
      exact ⟨rfl, h frame hframe b hb⟩
  journal := rfl

-- ============================================================================
-- Sums
-- ============================================================================

section

variable {η κ κ' : Type} {R : Value η κ → Value η κ' → Prop}

/-- Sums of corresponding arguments are the same, or fail at the same argument, if
    corresponding values hold the same integers. -/
theorem Result.Rel.sumFrom (hint : ∀ v w, R v w → v.int? = w.int?) {vs : List (Value η κ)}
    {ws : List (Value η κ')} (h : List.Forall₂ R vs ws) (total : Int) (position : Nat) :
    Result.Rel R (fun m n => m = n) (Value.sumFrom total position vs)
      (Value.sumFrom total position ws) := by
  induction h generalizing total position with
  | nil => exact .ok rfl
  | @cons v w vs ws hvw _ ih =>
    simp only [Value.sumFrom, Value.asInt, hint v w hvw]
    cases w.int? with
    | some n => exact ih (total + n) (position + 1)
    | none => exact .error (.notInteger "add" position hvw)

theorem Result.Rel.sum (hint : ∀ v w, R v w → v.int? = w.int?)
    (hdatum : ∀ e, R (.datum e) (.datum e)) {vs : List (Value η κ)} {ws : List (Value η κ')}
    (h : List.Forall₂ R vs ws) : Result.Rel R R (Value.sum vs) (Value.sum ws) := by
  have hsum := Result.Rel.sumFrom hint h 0 0
  unfold Value.sum
  generalize Value.sumFrom 0 0 vs = r at hsum
  generalize Value.sumFrom 0 0 ws = r' at hsum
  cases hsum with
  | @ok m n hmn =>
    subst hmn
    exact .ok (hdatum (.int m))
  | error hfault => exact .error hfault

end

-- ============================================================================
-- Outcomes and runs
-- ============================================================================

/-- Outcomes that correspond: two results or two faults, and the stores left. -/
structure Outcome.Rel (R : ν → ν' → Prop) (Q : α → β → Prop)
    (x : Except (Fault ν) α × Store ν) (y : Except (Fault ν') β × Store ν') : Prop where
  result : Result.Rel R Q x.1 y.1
  store : x.2.Rel R y.2

/-- What can be gone on after on one side can be gone on after on the other. -/
theorem Result.Rel.recover {R : ν → ν' → Prop} {Q : α → β → Prop} {r : Except (Fault ν) α}
    {r' : Except (Fault ν') β} (h : Result.Rel R Q r r') :
    Result.Rel R (Result.Rel R Q) (Run.recover r) (Run.recover r') := by
  cases h with
  | ok hab => exact .ok (.ok hab)
  | error hfault =>
    have hresult : Result.Rel R Q (.error _) (.error _) := .error hfault
    cases hfault <;> first | exact .error .tooDeep | exact .ok hresult

/-- Runs that correspond: from corresponding stores they have corresponding
    outcomes. -/
def Run.Rel (R : ν → ν' → Prop) (Q : α → β → Prop) (x : Run ν α) (y : Run ν' β) : Prop :=
  ∀ s t, s.Rel R t → Outcome.Rel R Q (x.outcome s) (y.outcome t)

namespace Run.Rel

variable {R : ν → ν' → Prop} {Q : α → β → Prop} {P : α' → β' → Prop}

theorem pure {a : α} {b : β} (h : Q a b) :
    Run.Rel R Q (pure a : Run ν α) (pure b : Run ν' β) :=
  fun _ _ hst => ⟨.ok h, hst⟩

theorem fail {f : Fault ν} {g : Fault ν'} (h : f.Rel R g) :
    Run.Rel R Q (.fail f) (.fail g) :=
  fun _ _ hst => ⟨.error h, hst⟩

theorem ofExcept {r : Except (Fault ν) α} {r' : Except (Fault ν') β} (h : Result.Rel R Q r r') :
    Run.Rel R Q (.ofExcept r) (.ofExcept r') := by
  cases h with
  | ok hab => exact .pure hab
  | error hfault => exact .fail hfault

theorem update {f : Store ν → Store ν} {g : Store ν' → Store ν'}
    (h : ∀ s t, s.Rel R t → (f s).Rel R (g t)) :
    Run.Rel R (fun _ _ => True) (.update f) (.update g) :=
  fun s t hst => ⟨.ok trivial, h s t hst⟩

theorem bind {x : Run ν α} {y : Run ν' β} {f : α → Run ν α'} {g : β → Run ν' β'}
    (hxy : Run.Rel R Q x y) (hfg : ∀ a b, Q a b → Run.Rel R P (f a) (g b)) :
    Run.Rel R P (x >>= f) (y >>= g) := by
  intro s t hst
  obtain ⟨hresult, hstore⟩ := hxy s t hst
  rw [outcome_bind, outcome_bind]
  rcases hx : x.outcome s with ⟨r, s'⟩
  rcases hy : y.outcome t with ⟨r', t'⟩
  rw [hx, hy] at hresult hstore
  cases hresult with
  | ok hab => exact hfg _ _ hab s' t' hstore
  | error hfault => exact ⟨.error hfault, hstore⟩

theorem attempt {x : Run ν α} {y : Run ν' β} (h : Run.Rel R Q x y) :
    Run.Rel R (Result.Rel R Q) x.attempt y.attempt := by
  have hsettle : Run.Rel R (Result.Rel R Q) x.settle y.settle := by
    intro s t hst
    obtain ⟨hresult, hstore⟩ := h s t hst
    exact ⟨.ok hresult, hstore⟩
  exact hsettle.bind fun r r' hr => .ofExcept hr.recover

theorem mapM {E : α → β → Prop} {f : α → Run ν α'} {g : β → Run ν' β'}
    (h : ∀ a b, E a b → Run.Rel R P (f a) (g b)) {as : List α} {bs : List β}
    (hs : List.Forall₂ E as bs) :
    Run.Rel R (List.Forall₂ P) (as.mapM f) (bs.mapM g) := by
  induction hs with
  | nil =>
    rw [List.mapM_nil, List.mapM_nil]
    exact .pure .nil
  | @cons a b as bs hab _ ih =>
    rw [List.mapM_cons, List.mapM_cons]
    refine (h a b hab).bind fun c d hcd => ?_
    exact ih.bind fun cs ds hcds => .pure (.cons hcd hcds)

theorem foldlM {E : α → β → Prop} {f : α' → α → Run ν α'} {g : β' → β → Run ν' β'}
    (h : ∀ c d a b, P c d → E a b → Run.Rel R P (f c a) (g d b)) {as : List α} {bs : List β}
    (hs : List.Forall₂ E as bs) {c : α'} {d : β'} (hcd : P c d) :
    Run.Rel R P (as.foldlM f c) (bs.foldlM g d) := by
  induction hs generalizing c d with
  | nil =>
    rw [List.foldlM_nil, List.foldlM_nil]
    exact .pure hcd
  | @cons a b as bs hab _ ih =>
    rw [List.foldlM_cons, List.foldlM_cons]
    exact (h c d a b hcd hab).bind fun c' d' hcd' => ih hcd'

theorem lookup (frame : Nat) (name : String) :
    Run.Rel R R (.lookup frame name) (.lookup frame name) := by
  intro s t hst
  have hlookup := hst.lookup? frame name
  simp only [Run.lookup, outcome_bind, outcome_get]
  cases hs : s.lookup? frame name with
  | none =>
    cases ht : t.lookup? frame name with
    | none => exact ⟨.error (.unbound name), hst⟩
    | some w =>
      rw [hs, ht] at hlookup
      cases hlookup
  | some v =>
    cases ht : t.lookup? frame name with
    | none =>
      rw [hs, ht] at hlookup
      cases hlookup
    | some w =>
      rw [hs, ht] at hlookup
      cases hlookup with
      | some hvw => exact ⟨.ok hvw, hst⟩

theorem bindArguments (params : List String) (scope : Nat) {vs : List ν} {ws : List ν'}
    (h : List.Forall₂ R vs ws) :
    Run.Rel R (fun f g => f = g) (.bindArguments params scope vs)
      (.bindArguments params scope ws) := by
  unfold Run.bindArguments
  rw [h.length_eq]
  split
  · intro s t hst
    have hchild := hst.add (some scope)
    have hall := hchild.defineAll s.next (Bindings.Rel.zip params h)
    simp only [outcome_bind, outcome_updateGet, outcome_update, Store.newChild]
    rw [← hst.next]
    exact ⟨.ok rfl, hall⟩
  · exact .fail (.arity _ _)

theorem action {call : ν → List ν → Run ν ν} {call' : ν' → List ν' → Run ν' ν'}
    (hcall : ∀ f g vs ws, R f g → List.Forall₂ R vs ws → Run.Rel R R (call f vs) (call' g ws))
    {a : Action ν} {b : Action ν'} (h : a.Rel R b) :
    Run.Rel R R (a.run call) (b.run call') := by
  induction h with
  | yield hvw => exact .pure hvw
  | refuse hfault => exact .fail hfault
  | tell line _ ih => exact (Run.Rel.update fun s t hst => hst.tell line).bind fun _ _ _ => ih
  | @ask a b _ ih =>
    intro s t hst
    show Outcome.Rel R R (((a s.journal).run call).outcome s) (((b t.journal).run call').outcome t)
    rw [← hst.journal]
    exact ih s.journal s t hst
  | call hf hargs _ ih => exact (hcall _ _ _ _ hf hargs).bind fun v w hvw => ih v w hvw
  | attempt hf hargs _ ih =>
    exact (hcall _ _ _ _ hf hargs).attempt.bind fun r r' hr => ih r r' hr

end Run.Rel

end LineLisp
