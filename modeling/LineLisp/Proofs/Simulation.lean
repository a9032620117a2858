/-
  LineLisp.Proofs.Simulation

  Two runs of one session side by side. What makes them alike is said about code in
  its frame and about stores, relative to a stage that runs can only move on; a closure
  is the code of its lambda in the frame where it was made. If alike code takes alike
  steps, then alike code has alike runs: they end in the same way, with alike results or
  faults, and leave alike stores. Taken for two runs of which the one is the other, this
  says what every run keeps.
-/
import LineLisp.Evaluation
import LineLisp.Proofs.Correspondence
import Mathlib.Order.Defs.PartialOrder

namespace LineLisp

variable {η W α β α' β' : Type}

-- ============================================================================
-- Faults of calls
-- ============================================================================

/-- The faults that an application comes to by itself, whatever the code. -/
inductive Fault.OfCall : Fault (Value η) → Prop where
  | notApplicable (v : Value η) : OfCall (.notApplicable v)
  | notInteger (function : String) (position : Nat) (v : Value η) :
    OfCall (.notInteger function position v)
  | tooDeep : OfCall .tooDeep

/-- A sum fails at an argument that is no integer, and in no other way. -/
theorem Value.ofCall_of_sumFrom {args : List (Value η)} {total : Int} {position : Nat}
    {fault : Fault (Value η)} (h : sumFrom total position args = .error fault) : fault.OfCall := by
  induction args generalizing total position with
  | nil => cases h
  | cons v vs ih =>
    simp only [sumFrom, asInt] at h
    cases hv : v.int? with
    | some n =>
      rw [hv] at h
      exact ih h
    | none =>
      rw [hv] at h
      cases h
      exact .notInteger "add" position v

-- ============================================================================
-- What is alike
-- ============================================================================

/-- Lists of which each entry stands beside itself. -/
theorem forall₂_beside_self {P : α → Prop} {as bs : List α}
    (h : List.Forall₂ (fun a b => b = a ∧ P a) as bs) : bs = as ∧ ∀ a ∈ as, P a := by
  induction h with
  | nil => exact ⟨rfl, nofun⟩
  | cons hab _ ih =>
    obtain ⟨rfl, ha⟩ := hab
    exact ⟨by rw [ih.1], List.forall_mem_cons.2 ⟨ha, ih.2⟩⟩

/-- Values that are alike, given the data that may occur and the code that is alike in
    two frames. -/
inductive Value.Alike (Data : Expr → Prop) (Codes : Node → Nat → Node → Nat → Prop) :
    Value η → Value η → Prop where
  | datum {e : Expr} (h : Data e) : Alike Data Codes (.datum e) (.datum e)
  | closure {params params' : List String} {body body' : List Node} {scope scope' : Nat}
    (h : Codes (.lambda params body) scope (.lambda params' body') scope') :
    Alike Data Codes (.closure params body scope) (.closure params' body' scope')
  | primitive (name : String) (operation : Primitive η) :
    Alike Data Codes (.primitive name operation) (.primitive name operation)

namespace Value.Alike

variable {Data : Expr → Prop} {Codes Codes' : Node → Nat → Node → Nat → Prop} {v v' : Value η}

theorem isNil_eq (h : Alike Data Codes v v') : v.isNil = v'.isNil := by
  cases h with
  | datum _ => rfl
  | closure _ => rfl
  | primitive _ _ => rfl

theorem int?_eq (h : Alike Data Codes v v') : v.int? = v'.int? := by
  cases h with
  | datum _ => rfl
  | closure _ => rfl
  | primitive _ _ => rfl

theorem imp (hcodes : ∀ n f m g, Codes n f m g → Codes' n f m g) (h : Alike Data Codes v v') :
    Alike Data Codes' v v' := by
  cases h with
  | datum hdata => exact .datum hdata
  | closure hcode => exact .closure (hcodes _ _ _ _ hcode)
  | primitive name operation => exact .primitive name operation

end Value.Alike

/-- A way in which two runs can be alike at each stage: the data that occur, the code in
    a frame of the first run that is alike to code in a frame of the second, the stores
    that are alike, and the faults that runs can end with. -/
structure Likeness (η W : Type) [Preorder W] where
  Data : Expr → Prop
  Codes : W → Node → Nat → Node → Nat → Prop
  Stores : W → Store (Value η) → Store (Value η) → Prop
  Admits : Fault (Value η) → Prop
  codes_mono : ∀ {w w'}, w ≤ w' → ∀ {n f m g}, Codes w n f m g → Codes w' n f m g

namespace Likeness

variable [Preorder W] (L : Likeness η W)

/-- Values that are alike at a stage. -/
def Values (w : W) : Value η → Value η → Prop :=
  Value.Alike L.Data (L.Codes w)

/-- Results that are alike at a stage, or faults that are and that runs can end with. -/
inductive Ends (w : W) (Q : W → α → β → Prop) :
    Except (Fault (Value η)) α → Except (Fault (Value η)) β → Prop where
  | ok {a : α} {b : β} (h : Q w a b) : Ends w Q (.ok a) (.ok b)
  | error {f g : Fault (Value η)} (h : f.Rel (L.Values w) g) (hadmits : L.Admits f) :
    Ends w Q (.error f) (.error g)

/-- Runs that are alike from a stage on: from stores that are alike at a later stage they
    come to alike ends at a stage later still. -/
def Runs (w : W) (Q : W → α → β → Prop) (x : Run (Value η) α) (y : Run (Value η) β) : Prop :=
  ∀ w₁, w ≤ w₁ → ∀ s t, L.Stores w₁ s t →
    ∃ w₂, w₁ ≤ w₂ ∧ L.Stores w₂ (x.outcome s).2 (y.outcome t).2 ∧
      L.Ends w₂ Q (x.outcome s).1 (y.outcome t).1

variable {L} {w w' : W} {Q : W → α → β → Prop} {P : W → α' → β' → Prop}

theorem Ends.result {r : Except (Fault (Value η)) α} {r' : Except (Fault (Value η)) β}
    (h : L.Ends w Q r r') : Result.Rel (L.Values w) (Q w) r r' := by
  cases h with
  | ok hab => exact .ok hab
  | error hfault _ => exact .error hfault

theorem Values.mono (hw : w ≤ w') {v v' : Value η} (h : L.Values w v v') : L.Values w' v v' :=
  h.imp fun _ _ _ _ => L.codes_mono hw

theorem forall₂_values_mono (hw : w ≤ w') {vs vs' : List (Value η)}
    (h : List.Forall₂ (L.Values w) vs vs') : List.Forall₂ (L.Values w') vs vs' :=
  h.imp fun _ _ hv => hv.mono hw

-- ============================================================================
-- Ways of making runs
-- ============================================================================

namespace Runs

variable {x : Run (Value η) α} {y : Run (Value η) β}

theorem mono (hw : w ≤ w') (h : L.Runs w Q x y) : L.Runs w' Q x y :=
  fun w₁ hw₁ => h w₁ (le_trans hw hw₁)

/-- A result that is alike now and later. -/
theorem pure {a : α} {b : β} (h : ∀ w₁, w ≤ w₁ → Q w₁ a b) : L.Runs w Q (pure a) (pure b) :=
  fun w₁ hw _ _ hst => ⟨w₁, le_rfl, hst, .ok (h w₁ hw)⟩

theorem fail {f g : Fault (Value η)} (h : ∀ w₁, w ≤ w₁ → f.Rel (L.Values w₁) g)
    (hadmits : L.Admits f) : L.Runs w Q (.fail f) (.fail g) :=
  fun w₁ hw _ _ hst => ⟨w₁, le_rfl, hst, .error (h w₁ hw) hadmits⟩

theorem bind {f : α → Run (Value η) α'} {g : β → Run (Value η) β'} (hxy : L.Runs w Q x y)
    (hfg : ∀ w₁, w ≤ w₁ → ∀ a b, Q w₁ a b → L.Runs w₁ P (f a) (g b)) :
    L.Runs w P (x >>= f) (y >>= g) := by
  intro w₁ hw s t hst
  obtain ⟨w₂, hw₂, hstores, hends⟩ := hxy w₁ hw s t hst
  rw [Run.outcome_bind, Run.outcome_bind]
  rcases hx : x.outcome s with ⟨r, s'⟩
  rcases hy : y.outcome t with ⟨r', t'⟩
  rw [hx, hy] at hstores hends
  cases hends with
  | error hfault hadmits => exact ⟨w₂, hw₂, hstores, .error hfault hadmits⟩
  | ok hab =>
    obtain ⟨w₃, hw₃, hend⟩ := hfg w₂ (le_trans hw hw₂) _ _ hab w₂ le_rfl s' t' hstores
    exact ⟨w₃, le_trans hw₂ hw₃, hend⟩

theorem mapM {E : α → β → Prop} {f : α → Run (Value η) α'} {g : β → Run (Value η) β'}
    (hP : ∀ w₁ w₂, w₁ ≤ w₂ → ∀ c d, P w₁ c d → P w₂ c d)
    (h : ∀ a b, E a b → L.Runs w P (f a) (g b)) {as : List α} {bs : List β}
    (hs : List.Forall₂ E as bs) :
    L.Runs w (fun w₁ => List.Forall₂ (P w₁)) (as.mapM f) (bs.mapM g) := by
  induction hs with
  | nil =>
    rw [List.mapM_nil, List.mapM_nil]
    exact .pure fun _ _ => .nil
  | @cons a b as bs hab _ ih =>
    rw [List.mapM_cons, List.mapM_cons]
    refine (h a b hab).bind fun w₁ hw₁ c d hcd => ?_
    refine (ih.mono hw₁).bind fun w₂ hw₂ cs ds hcds => .pure fun w₃ hw₃ => ?_
    exact .cons (hP w₁ w₃ (le_trans hw₂ hw₃) c d hcd) (hcds.imp fun c d => hP w₂ w₃ hw₃ c d)

theorem foldlM {E : α → β → Prop} {f : α' → α → Run (Value η) α'}
    {g : β' → β → Run (Value η) β'} (hP : ∀ w₁ w₂, w₁ ≤ w₂ → ∀ c d, P w₁ c d → P w₂ c d)
    (h : ∀ a b, E a b → ∀ w₁, w ≤ w₁ → ∀ c d, P w₁ c d → L.Runs w₁ P (f c a) (g d b))
    {as : List α} {bs : List β} (hs : List.Forall₂ E as bs) {c : α'} {d : β'} (hcd : P w c d) :
    L.Runs w P (as.foldlM f c) (bs.foldlM g d) := by
  induction hs generalizing w c d with
  | nil =>
    rw [List.foldlM_nil, List.foldlM_nil]
    exact .pure fun w₁ hw => hP w w₁ hw c d hcd
  | @cons a b as bs hab _ ih =>
    rw [List.foldlM_cons, List.foldlM_cons]
    refine (h a b hab w le_rfl c d hcd).bind fun w₁ hw₁ c' d' hcd' => ?_
    exact ih (fun a b hab w₂ hw₂ => h a b hab w₂ (le_trans hw₁ hw₂)) hcd'

theorem lookup {f g : Nat} {name : String}
    (h : ∀ w₁, w ≤ w₁ → ∀ s t, L.Stores w₁ s t →
      Option.Rel (L.Values w₁) (s.lookup? f name) (t.lookup? g name))
    (hadmits : L.Admits (.unbound name)) :
    L.Runs w L.Values (.lookup f name) (.lookup g name) := by
  intro w₁ hw s t hst
  refine ⟨w₁, le_rfl, ?_⟩
  have hlookup := h w₁ hw s t hst
  simp only [Run.lookup, Run.outcome_bind, Run.outcome_get]
  generalize s.lookup? f name = a at hlookup
  generalize t.lookup? g name = b at hlookup
  cases hlookup with
  | none => exact ⟨hst, .error (.unbound name) hadmits⟩
  | some hv => exact ⟨hst, .ok hv⟩

theorem update {f g : Store (Value η) → Store (Value η)}
    (h : ∀ w₁, w ≤ w₁ → ∀ s t, L.Stores w₁ s t → L.Stores w₁ (f s) (g t)) :
    L.Runs w (fun _ _ _ => True) (.update f) (.update g) :=
  fun w₁ hw s t hst => ⟨w₁, le_rfl, h w₁ hw s t hst, .ok trivial⟩

/-- A name that is bound on both sides. -/
theorem lookup_bound {f g : Nat} {name name' : String}
    (h : ∀ w₁, w ≤ w₁ → ∀ s t, L.Stores w₁ s t → ∃ v v', s.lookup? f name = some v ∧
      t.lookup? g name' = some v' ∧ L.Values w₁ v v') :
    L.Runs w L.Values (.lookup f name) (.lookup g name') := by
  intro w₁ hw s t hst
  obtain ⟨v, v', hv, hv', hvalues⟩ := h w₁ hw s t hst
  refine ⟨w₁, le_rfl, ?_⟩
  simp only [Run.lookup, Run.outcome_bind, Run.outcome_get, hv, hv']
  exact ⟨hst, .ok hvalues⟩

/-- Calls make alike frames if stores with the frame of the call are alike at a later
    stage. -/
theorem bindArguments {Q : W → Nat → Nat → Prop} {params params' : List String} {f g : Nat}
    {vs vs' : List (Value η)} (hparams : params'.length = params.length)
    (hvs : List.Forall₂ (L.Values w) vs vs')
    (h : vs.length = params.length → ∀ w₁, w ≤ w₁ → ∀ s t, L.Stores w₁ s t → ∃ w₂, w₁ ≤ w₂ ∧
      L.Stores w₂ ((s.newChild f).2.defineAll s.next (params.zip vs))
        ((t.newChild g).2.defineAll t.next (params'.zip vs')) ∧ Q w₂ s.next t.next)
    (hadmits : L.Admits (.arity params.length vs.length)) :
    L.Runs w Q (.bindArguments params f vs) (.bindArguments params' g vs') := by
  intro w₁ hw s t hst
  unfold Run.bindArguments
  rw [← hvs.length_eq, hparams]
  by_cases hlength : vs.length = params.length
  · obtain ⟨w₂, hw₂, hstores, hframes⟩ := h hlength w₁ hw s t hst
    rw [if_pos hlength, if_pos hlength]
    exact ⟨w₂, hw₂, hstores, .ok hframes⟩
  · rw [if_neg hlength, if_neg hlength]
    exact ⟨w₁, le_rfl, hst, .error (.arity _ _) hadmits⟩

/-- Sums of alike arguments are the same, or fail at the same argument. -/
theorem sum (hint : ∀ n, L.Data (.int n)) (hadmits : ∀ fault, fault.OfCall → L.Admits fault)
    {vs vs' : List (Value η)} (h : List.Forall₂ (L.Values w) vs vs') :
    L.Runs w L.Values (.ofExcept (Value.sum vs)) (.ofExcept (Value.sum vs')) := by
  have hsum : ∀ w₁, w ≤ w₁ → Result.Rel (L.Values w₁) (fun m n => m = n)
      (Value.sumFrom 0 0 vs) (Value.sumFrom 0 0 vs') := fun w₁ hw =>
    Result.Rel.sumFrom (fun _ _ => Value.Alike.int?_eq) (forall₂_values_mono hw h) 0 0
  unfold Value.sum
  cases hvs : Value.sumFrom 0 0 vs with
  | ok n =>
    have hfirst := hsum w le_rfl
    rw [hvs] at hfirst
    cases hvs' : Value.sumFrom 0 0 vs' with
    | error fault =>
      rw [hvs'] at hfirst
      cases hfirst
    | ok m =>
      rw [hvs'] at hfirst
      cases hfirst with
      | ok hnm =>
        subst hnm
        exact .pure fun _ _ => .datum (hint n)
  | error fault =>
    cases hvs' : Value.sumFrom 0 0 vs' with
    | ok m =>
      have hfirst := hsum w le_rfl
      rw [hvs, hvs'] at hfirst
      cases hfirst
    | error fault' =>
      refine .fail (fun w₁ hw => ?_) (hadmits fault (Value.ofCall_of_sumFrom hvs))
      have hlater := hsum w₁ hw
      rw [hvs, hvs'] at hlater
      cases hlater with
      | error hfault => exact hfault

end Runs

-- ============================================================================
-- Alike code has alike runs
-- ============================================================================

variable (L)

/-- Nodes that take alike steps in two frames. The parts of alike nodes are alike; names
    are looked up and bound alike; and the bodies of lambdas are alike in the frames that
    calls with alike arguments make. -/
inductive Steps (w : W) (f g : Nat) : Node → Node → Prop where
  | literal {e : Expr} (h : L.Data e) : Steps w f g (.literal e) (.literal e)
  | lookup {name name' : String} (h : L.Runs w L.Values (.lookup f name) (.lookup g name')) :
    Steps w f g (.lookup name) (.lookup name')
  | branch {c c' t t' e e' : Node} (hc : L.Codes w c f c' g) (ht : L.Codes w t f t' g)
    (he : L.Codes w e f e' g) : Steps w f g (.branch c t e) (.branch c' t' e')
  | assign {name name' : String} {n n' : Node} (h : L.Codes w n f n' g)
    (hbind : ∀ w₁, w ≤ w₁ → ∀ v v', L.Values w₁ v v' →
      L.Runs w₁ (fun _ _ _ => True) (.update fun s => s.define f name v)
        (.update fun t => t.define g name' v')) :
    Steps w f g (.assign name n) (.assign name' n')
  | lambda {params params' : List String} {body body' : List Node}
    (hcall : ∀ w₁, w ≤ w₁ → ∀ vs vs', List.Forall₂ (L.Values w₁) vs vs' →
      L.Runs w₁ (fun w₂ h h' => List.Forall₂ (fun n n' => L.Codes w₂ n h n' h') body body')
        (.bindArguments params f vs) (.bindArguments params' g vs')) :
    Steps w f g (.lambda params body) (.lambda params' body')
  | apply {n n' : Node} {args args' : List Node} (hf : L.Codes w n f n' g)
    (hargs : List.Forall₂ (fun a a' => L.Codes w a f a' g) args args') :
    Steps w f g (.apply n args) (.apply n' args')
  | hole (h : L.Admits .unknownNode) : Steps w f g .hole .hole

/-- Applications with some room are alike. -/
def Applies [Host η] (limit : Nat) : Prop :=
  ∀ w v v' vs vs', L.Values w v v' → List.Forall₂ (L.Values w) vs vs' →
    L.Runs w L.Values (v.apply limit vs) (v'.apply limit vs')

/-- Alike code takes alike steps, and so do the functions of the host. -/
structure Closed [Host η] : Prop where
  steps : ∀ {w n f m g}, L.Codes w n f m g → L.Steps w f g n m
  nil : L.Data .nil
  int : ∀ n, L.Data (.int n)
  admits : ∀ fault, fault.OfCall → L.Admits fault
  host : ∀ limit, L.Applies limit → ∀ (w : W) (function : η) (vs vs' : List (Value η)),
    List.Forall₂ (L.Values w) vs vs' →
      L.Runs w L.Values ((Host.act function vs).run (Value.apply limit))
        ((Host.act function vs').run (Value.apply limit))

variable {L}

namespace Closed

variable [Host η]

theorem tooDeep (h : L.Closed) {x y : Run (Value η) (Value η)} (hx : x = .fail .tooDeep)
    (hy : y = .fail .tooDeep) : L.Runs w L.Values x y := by
  rw [hx, hy]
  exact .fail (fun _ _ => .tooDeep) (h.admits _ .tooDeep)

/-- Where nodes have alike runs with some room, applications are alike with one more. -/
theorem applies_succ (h : L.Closed) {limit : Nat} (happlies : L.Applies limit)
    (hnodes : ∀ w n f m g, L.Codes w n f m g →
      L.Runs w L.Values (n.evaluate limit f) (m.evaluate limit g)) :
    L.Applies (limit + 1) := by
  intro w v v' vs vs' hv hvs
  cases hv with
  | @datum e hdata =>
    rw [Value.apply, Value.apply]
    exact .fail (fun _ _ => .notApplicable (.datum hdata)) (h.admits _ (.notApplicable _))
  | primitive name operation =>
    cases operation with
    | add =>
      rw [Value.apply, Value.apply]
      exact .sum h.int h.admits hvs
    | host function =>
      rw [Value.apply, Value.apply]
      exact h.host limit happlies w function vs vs' hvs
  | closure hcode =>
    rw [Value.apply, Value.apply]
    cases h.steps hcode with
    | lambda hcall =>
      refine (hcall w le_rfl vs vs' hvs).bind fun w₁ _ frame frame' hbody => ?_
      refine .foldlM (fun _ _ hw _ _ hval => hval.mono hw) ?_ hbody (.datum h.nil)
      intro n n' hn w₂ hw₂ _ _ _
      exact (hnodes w₁ n frame n' frame' hn).mono hw₂

/-- Where nodes have alike runs and applications are alike with some room, nodes have
    alike runs with one more. -/
theorem nodes_succ (h : L.Closed) {limit : Nat} (happlies : L.Applies limit)
    (hnodes : ∀ w n f m g, L.Codes w n f m g →
      L.Runs w L.Values (n.evaluate limit f) (m.evaluate limit g))
    {n m : Node} {f g : Nat} (hcode : L.Codes w n f m g) :
    L.Runs w L.Values (n.evaluate (limit + 1) f) (m.evaluate (limit + 1) g) := by
  cases h.steps hcode with
  | literal hdata =>
    rw [Node.evaluate, Node.evaluate]
    exact .pure fun _ _ => .datum hdata
  | lookup hlookup =>
    rw [Node.evaluate, Node.evaluate]
    exact hlookup
  | branch hc ht he =>
    rw [Node.evaluate, Node.evaluate]
    refine (hnodes w _ f _ g hc).bind fun w₁ hw₁ v v' hv => ?_
    rw [Value.Alike.isNil_eq hv]
    split
    · exact (hnodes w _ f _ g he).mono hw₁
    · exact (hnodes w _ f _ g ht).mono hw₁
  | assign hvalue hbind =>
    rw [Node.evaluate, Node.evaluate]
    refine (hnodes w _ f _ g hvalue).bind fun w₁ hw₁ v v' hv => ?_
    exact (hbind w₁ hw₁ v v' hv).bind fun w₂ hw₂ _ _ _ =>
      .pure fun w₃ hw₃ => hv.mono (le_trans hw₂ hw₃)
  | lambda _ =>
    rw [Node.evaluate, Node.evaluate]
    exact .pure fun w₁ hw => .closure (L.codes_mono hw hcode)
  | apply hf hargs =>
    rw [Node.evaluate, Node.evaluate]
    refine (hnodes w _ f _ g hf).bind fun w₁ hw₁ v v' hv => ?_
    have hargs₁ : L.Runs w₁ (fun w₂ => List.Forall₂ (L.Values w₂)) _ _ :=
      .mapM (fun _ _ hw _ _ hval => hval.mono hw)
        (fun a a' ha => (hnodes w a f a' g ha).mono hw₁) hargs
    refine hargs₁.bind fun w₂ hw₂ vs vs' hvs => ?_
    exact happlies w₂ v v' vs vs' (hv.mono hw₂) hvs
  | hole hadmits =>
    rw [Node.evaluate, Node.evaluate]
    exact .fail (fun _ _ => .unknownNode) hadmits

/-- Alike code has alike runs, and applications of alike values are alike, with any
    room. The induction is on the room. -/
theorem alike (h : L.Closed) (limit : Nat) :
    (∀ w n f m g, L.Codes w n f m g →
      L.Runs w L.Values (n.evaluate limit f) (m.evaluate limit g)) ∧ L.Applies limit := by
  induction limit with
  | zero =>
    constructor
    · intro w n f m g _
      exact h.tooDeep (by rw [Node.evaluate]) (by rw [Node.evaluate])
    · intro w v v' vs vs' _ _
      exact h.tooDeep (by rw [Value.apply]) (by rw [Value.apply])
  | succ limit ih =>
    obtain ⟨hnodes, happlies⟩ := ih
    exact ⟨fun w n f m g hcode => h.nodes_succ happlies hnodes hcode,
      h.applies_succ happlies hnodes⟩

end Closed

/-- The host without functions takes no steps. -/
theorem host_of_empty {L : Likeness Empty W} (limit : Nat) (_ : L.Applies limit) (w : W)
    (function : Empty) (vs vs' : List (Value Empty)) (_ : List.Forall₂ (L.Values w) vs vs') :
    L.Runs w L.Values ((Host.act function vs).run (Value.apply limit))
      ((Host.act function vs').run (Value.apply limit)) :=
  nomatch function

end Likeness

end LineLisp
