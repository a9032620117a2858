/-
  LineLisp.Proofs.UnreadName

  Names that nobody reads. What a frame binds a name to can be told only by a lookup of
  that name. Where neither the code that is run nor the body of a closure that is bound
  looks a name up, the bindings of that name in one frame have no influence: stores that
  are the same but for these lead to the same results, and stay the same but for these.
  A run binds values that are made of its own code or that are bound already, so no value
  that looks the name up gets into it.
-/
import LineLisp.Proofs.SessionSimulation
import LineLisp.Proofs.SessionStore
import Mathlib.Order.Basic

namespace LineLisp

variable {η ν α W : Type}

-- ============================================================================
-- Names that code looks up
-- ============================================================================

namespace Node

mutual

/-- The names that a node looks up, also in calls of the lambdas in it. -/
def lookups : Node → List String
  | .literal _ => []
  | .lookup name => [name]
  | .branch condition consequent alternative =>
    condition.lookups ++ consequent.lookups ++ alternative.lookups
  | .assign _ value => value.lookups
  | .lambda _ body => lookupsAll body
  | .apply function args => function.lookups ++ lookupsAll args
  | .hole => []

/-- The names that some of these nodes look up. -/
def lookupsAll : List Node → List String
  | [] => []
  | n :: ns => n.lookups ++ lookupsAll ns

end

theorem not_mem_lookupsAll {name : String} {ns : List Node} :
    name ∉ lookupsAll ns ↔ ∀ n ∈ ns, name ∉ n.lookups := by
  induction ns with
  | nil => simp [lookupsAll]
  | cons n ns ih => simp [lookupsAll, ih]

end Node

/-- The names that the code of a line looks up. -/
def lookupsOfLine (line : String) : List String :=
  match tokenize line with
  | .error _ => []
  | .ok tokens =>
    match (Expr.readAll Expr.maxNesting tokens).1 with
    | .error _ => []
    | .ok exprs => exprs.flatMap fun e =>
      match e.compile with
      | .error _ => []
      | .ok node => node.lookups

theorem CodeOf.lookups_subset {line : String} {node : Node} (h : CodeOf line node) :
    node.lookups ⊆ lookupsOfLine line := by
  obtain ⟨tokens, exprs, htokens, hread, e, he, hcompile⟩ := h
  intro name hname
  simp only [lookupsOfLine, htokens, hread, List.mem_flatMap]
  refine ⟨e, he, ?_⟩
  rwa [hcompile]

/-- A value whose body, if it has one, does not look a name up. -/
def Value.Avoids (name : String) : Value η → Prop
  | .closure _ body _ => name ∉ Node.lookupsAll body
  | _ => True

instance (name : String) (v : Value η) : Decidable (v.Avoids name) := by
  unfold Value.Avoids
  split <;> infer_instance

/-- The functions of the host bring no closures that look a name up: those that they use
    are arguments of theirs, or were handed back by calls. -/
def HostAvoids (η : Type) [Host η] (name : String) : Prop :=
  ∀ (function : η) (args : List (Value η)),
    (Host.act function args).Uses fun v => v.Avoids name ∨ v ∈ args

theorem Action.Uses.imp {known known' : ν → Prop} {a : Action ν} (h : ∀ v, known v → known' v)
    (huses : a.Uses known) : a.Uses known' := by
  induction a generalizing known known' with
  | yield v => exact h v huses
  | refuse fault => exact fun v hv => h v (huses v hv)
  | tell line next ih => exact ih h huses
  | ask next ih => exact fun lines => ih lines h (huses lines)
  | call f args next ih =>
    obtain ⟨hf, hargs, hnext⟩ := huses
    exact ⟨h f hf, fun arg harg => h arg (hargs arg harg),
      fun v => ih v (fun w hw => hw.imp_left (h w)) (hnext v)⟩
  | attempt f args next ih =>
    obtain ⟨hf, hargs, hnext⟩ := huses
    exact ⟨h f hf, fun arg harg => h arg (hargs arg harg),
      fun r => ih r (fun w hw => hw.imp_left (h w)) (hnext r)⟩

/-- Functions that make no closures bring none that look a name up. -/
theorem HostConfined.avoids [Host η] (h : HostConfined η Node) (name : String) :
    HostAvoids η name := by
  refine fun function args => (h function args).imp fun v hv => hv.imp_left fun hplain => ?_
  cases v with
  | closure params body scope => cases hplain
  | datum e => trivial
  | primitive name operation => trivial

-- ============================================================================
-- Stores that are the same but for one name
-- ============================================================================

/-- Bindings without that of a name. -/
def Bindings.without (name : String) : Bindings ν → Bindings ν
  | [] => []
  | (bound, value) :: rest =>
    if bound = name then without name rest else (bound, value) :: without name rest

namespace Bindings

variable {name other : String}

theorem without_define_self (name : String) (value : ν) (bs : Bindings ν) :
    (bs.define name value).without name = bs.without name := by
  induction bs with
  | nil => simp [define, without]
  | cons b bs ih =>
    obtain ⟨bound, old⟩ := b
    by_cases hb : bound = name <;> simp [define, without, hb, ih]

theorem without_define_of_ne (h : other ≠ name) (value : ν) (bs : Bindings ν) :
    (bs.define other value).without name = (bs.without name).define other value := by
  induction bs with
  | nil => simp [define, without, h]
  | cons b bs ih =>
    obtain ⟨bound, old⟩ := b
    by_cases hname : bound = name
    · simp [define, without, hname, h.symm, ih]
    · by_cases hb : bound = other
      · simp [define, without, hb, h]
      · simp [define, without, hb, hname, ih]

theorem get?_without_of_ne (h : other ≠ name) (bs : Bindings ν) :
    (bs.without name).get? other = bs.get? other := by
  induction bs with
  | nil => rfl
  | cons b bs ih =>
    obtain ⟨bound, old⟩ := b
    by_cases hname : bound = name
    · simp [get?, without, hname, h.symm, ih]
    · by_cases hb : bound = other
      · simp [get?, without, hb, h]
      · simp [get?, without, hb, hname, ih]

end Bindings

namespace Store

theorem bindings_define (s : Store ν) (f g : Nat) (name : String) (value : ν) :
    (s.define f name value).bindings g =
      if g = f ∧ g < s.next then (s.bindings g).define name value else s.bindings g := by
  by_cases hg : g = f
  · subst hg
    by_cases hlt : g < s.next
    · rw [if_pos ⟨rfl, hlt⟩, bindings_define_self hlt]
    · rw [if_neg fun h => hlt h.2, bindings_eq_nil (by simpa using hlt),
        bindings_eq_nil (by simpa using hlt)]
  · rw [if_neg fun h => hg h.1, bindings_define_of_ne hg]

theorem ancestry_congr {s t : Store ν} (h : ∀ f, t.parent? f = s.parent? f) (n f : Nat) :
    t.ancestry n f = s.ancestry n f := by
  induction n generalizing f with
  | zero => rfl
  | succ n ih =>
    simp only [ancestry, h f]
    cases s.parent? f with
    | none => rfl
    | some outer => simp only [ih outer]

/-- Stores that are the same but for a name in a frame: whether it is bound there, and to
    what. All other names of that frame are bound to the same values in the same order. -/
structure SameBut (frame : Nat) (name : String) (s t : Store ν) : Prop where
  next : t.next = s.next
  parent : ∀ f, t.parent? f = s.parent? f
  journal : t.journal = s.journal
  elsewhere : ∀ f ≠ frame, t.bindings f = s.bindings f
  others : (t.bindings frame).without name = (s.bindings frame).without name

/-- Binding a name in a frame changes nothing else. -/
theorem sameBut_define (s : Store ν) (frame : Nat) (name : String) (value : ν) :
    s.SameBut frame name (s.define frame name value) where
  next := s.next_define frame name value
  parent f := s.parent?_define frame f name value
  journal := rfl
  elsewhere f hf := bindings_define_of_ne hf name value
  others := by
    rw [bindings_define]
    split
    · exact Bindings.without_define_self name value _
    · rfl

namespace SameBut

variable {s t : Store ν} {frame f : Nat} {name other : String}

theorem get?_eq (h : s.SameBut frame name t) (f : Nat) (hother : other ≠ name) :
    t.get? f other = s.get? f other := by
  by_cases hf : f = frame
  · rw [hf, get?, ← Bindings.get?_without_of_ne hother, h.others,
      Bindings.get?_without_of_ne hother, get?]
  · rw [get?, h.elsewhere f hf, get?]

/-- All lookups but those of the name are the same. -/
theorem lookup?_eq (h : s.SameBut frame name t) (f : Nat) (hother : other ≠ name) :
    t.lookup? f other = s.lookup? f other := by
  have hchain : t.chain f = s.chain f := ancestry_congr h.parent (f + 1) f
  simp only [lookup?, find?, hchain, h.get?_eq _ hother]

theorem define (h : s.SameBut frame name t) (f : Nat) (other : String) (value : ν) :
    (s.define f other value).SameBut frame name (t.define f other value) where
  next := by rw [next_define, next_define, h.next]
  parent g := by rw [parent?_define, parent?_define, h.parent]
  journal := h.journal
  elsewhere g hg := by rw [bindings_define, bindings_define, h.next, h.elsewhere g hg]
  others := by
    rw [bindings_define, bindings_define, h.next]
    split
    · by_cases hother : other = name
      · rw [hother, Bindings.without_define_self, Bindings.without_define_self, h.others]
      · rw [Bindings.without_define_of_ne hother, Bindings.without_define_of_ne hother, h.others]
    · exact h.others

theorem defineAll (h : s.SameBut frame name t) (f : Nat) (bs : Bindings ν) :
    (s.defineAll f bs).SameBut frame name (t.defineAll f bs) := by
  induction bs generalizing s t with
  | nil => exact h
  | cons b bs ih => exact ih (h.define f b.1 b.2)

theorem add (h : s.SameBut frame name t) (parent : Option Nat) :
    (s.add parent).SameBut frame name (t.add parent) where
  next := by rw [next_add, next_add, h.next]
  parent g := by
    by_cases hg : g = s.next
    · rw [hg, parent?_add_self, ← h.next, parent?_add_self]
    · rw [parent?_add_of_ne hg, parent?_add_of_ne (h.next ▸ hg), h.parent]
  journal := h.journal
  elsewhere g hg := by rw [bindings_add, bindings_add, h.elsewhere g hg]
  others := by rw [bindings_add, bindings_add, h.others]

theorem tell (h : s.SameBut frame name t) (line : String) :
    (s.tell line).SameBut frame name (t.tell line) where
  next := h.next
  parent := h.parent
  journal := by
    show t.journal.push line = s.journal.push line
    rw [h.journal]
  elsewhere := h.elsewhere
  others := h.others

end SameBut

end Store

-- ============================================================================
-- Runs
-- ============================================================================

/-- Code in one frame that does not look a name up. -/
def AvoidingCode (name : String) (n : Node) (f : Nat) (m : Node) (g : Nat) : Prop :=
  m = n ∧ g = f ∧ name ∉ n.lookups

theorem Value.alike_avoids_iff {name : String} {v w : Value η} :
    Value.Alike (fun _ => True) (AvoidingCode name) v w ↔ w = v ∧ v.Avoids name := by
  constructor
  · intro h
    cases h with
    | datum _ => exact ⟨rfl, trivial⟩
    | primitive _ _ => exact ⟨rfl, trivial⟩
    | closure hcode =>
      obtain ⟨hsame, rfl, havoids⟩ := hcode
      cases hsame
      rw [Node.lookups] at havoids
      exact ⟨rfl, havoids⟩
  · rintro ⟨rfl, h⟩
    cases w with
    | datum e => exact .datum trivial
    | primitive other operation => exact .primitive other operation
    | closure params body scope =>
      refine .closure ⟨rfl, rfl, ?_⟩
      rw [Node.lookups]
      exact h

/-- Runs from stores that are the same but for a name in a frame, of which the first binds
    only values that do not look the name up. This is said of the stores as they are, so that
    all stages are alike. -/
def unreadLikeness (frame : Nat) (name : String) : Likeness η Nat where
  Data _ := True
  Codes _ := AvoidingCode name
  Stores _ s t := s.SameBut frame name t ∧ s.All (Value.Avoids name)
  Admits _ := True
  codes_mono _ _ _ _ _ h := h

theorem Fault.Rel.eq {R : ν → ν → Prop} (hR : ∀ v w, R v w → w = v) {f g : Fault ν}
    (h : f.Rel R g) : g = f := by
  cases h with
  | notApplicable hvw => rw [hR _ _ hvw]
  | notInteger function position hvw => rw [hR _ _ hvw]
  | _ => rfl

theorem Result.Rel.eq {R : ν → ν → Prop} (hR : ∀ v w, R v w → w = v) {Q : α → α → Prop}
    (hQ : ∀ a b, Q a b → b = a) {r r' : Except (Fault ν) α} (h : Result.Rel R Q r r') :
    r' = r := by
  cases h with
  | ok hab => rw [hQ _ _ hab]
  | error hfault => rw [hfault.eq hR]

/-- The values that corresponding calls hand back correspond to themselves. -/
theorem Result.Rel.handedBack {R : ν → ν → Prop} (hR : ∀ v w, R v w → w = v)
    {r r' : Except (Fault ν) ν} (h : Result.Rel R R r r') :
    ∀ v ∈ Fault.handedBack r, R v v := by
  intro v hv
  cases h with
  | ok hvw =>
    obtain rfl := List.mem_singleton.1 hv
    exact hR _ _ hvw ▸ hvw
  | error hfault =>
    cases hfault with
    | notApplicable hvw =>
      obtain rfl := List.mem_singleton.1 hv
      exact hR _ _ hvw ▸ hvw
    | notInteger function position hvw =>
      obtain rfl := List.mem_singleton.1 hv
      exact hR _ _ hvw ▸ hvw
    | _ => cases hv

/-- An action is alike to itself, if all values that it uses are. -/
theorem Action.Uses.alike [Preorder W] {R : W → ν → ν → Prop}
    (hsame : ∀ w v v', R w v v' → v' = v) (hmono : ∀ w w' v, w ≤ w' → R w v v → R w' v v)
    {a : Action ν} {known : ν → Prop} {w : W} (h : a.Uses known) (hknown : ∀ v, known v → R w v v) :
    Action.Alike R w a a := by
  induction a generalizing known w with
  | yield v => exact .yield (hknown v h)
  | refuse fault => exact .refuse (Fault.rel_self fun v hv => hknown v (h v hv))
  | tell line next ih => exact .tell line (ih h hknown)
  | ask next ih => exact .ask fun lines => ih lines (h lines) hknown
  | call f args next ih =>
    obtain ⟨hf, hargs, hnext⟩ := h
    refine .call (hknown f hf) (List.forall₂_same.2 fun arg harg => hknown arg (hargs arg harg)) ?_
    intro w₁ hw v v' hvv'
    obtain rfl := hsame w₁ v v' hvv'
    refine ih v' (hnext v') fun u hu => ?_
    rcases hu with hu | rfl
    · exact hmono w w₁ u hw (hknown u hu)
    · exact hvv'
  | attempt f args next ih =>
    obtain ⟨hf, hargs, hnext⟩ := h
    refine .attempt (hknown f hf)
      (List.forall₂_same.2 fun arg harg => hknown arg (hargs arg harg)) ?_
    intro w₁ hw r r' hrr'
    obtain rfl := hrr'.eq (hsame w₁) (hsame w₁)
    refine ih r' (hnext r') fun u hu => ?_
    rcases hu with hu | hu
    · exact hmono w w₁ u hw (hknown u hu)
    · exact hrr'.handedBack (hsame w₁) u hu

theorem unreadLikeness_closed [Host η] {name : String} (hhost : HostAvoids η name) (frame : Nat) :
    (unreadLikeness frame name : Likeness η Nat).Closed where
  steps := by
    rintro _ n f m g ⟨rfl, rfl, h⟩
    cases m with
    | literal datum => exact .literal trivial
    | hole => exact .hole trivial
    | lookup other =>
      simp only [Node.lookups, List.mem_singleton] at h
      refine .lookup (.lookup (fun _ _ s t hst => ?_) trivial)
      rw [hst.1.lookup?_eq g (Ne.symm h)]
      cases hv : s.lookup? g other with
      | none => exact .none
      | some v => exact .some (Value.alike_avoids_iff.2 ⟨rfl, hst.2.lookup? hv⟩)
    | branch c t e =>
      simp only [Node.lookups, List.mem_append, not_or] at h
      obtain ⟨⟨hc, ht⟩, he⟩ := h
      exact .branch ⟨rfl, rfl, hc⟩ ⟨rfl, rfl, ht⟩ ⟨rfl, rfl, he⟩
    | assign other n =>
      rw [Node.lookups] at h
      refine .assign ⟨rfl, rfl, h⟩ fun _ _ v v' hv => .update fun _ _ s t hst => ?_
      obtain ⟨rfl, hv⟩ := Value.alike_avoids_iff.1 hv
      exact ⟨hst.1.define g other v', hst.2.define g other hv⟩
    | apply n args =>
      simp only [Node.lookups, List.mem_append, not_or] at h
      exact .apply ⟨rfl, rfl, h.1⟩ (List.forall₂_same.2 fun a ha =>
        ⟨rfl, rfl, Node.not_mem_lookupsAll.1 h.2 a ha⟩)
    | lambda params body =>
      rw [Node.lookups] at h
      refine .lambda fun _ _ vs vs' hvs => .bindArguments rfl hvs ?_ trivial
      intro hlength w _ s t hst
      obtain ⟨rfl, hargs⟩ := forall₂_beside_self (hvs.imp fun _ _ => Value.alike_avoids_iff.1)
      refine ⟨w, le_rfl, ⟨?_, ?_⟩, ?_⟩
      · rw [hst.1.next]
        exact (hst.1.add (some g)).defineAll s.next (params.zip vs')
      · exact (hst.2.add (some g)).defineAll s.next fun b hb => hargs b.2 (List.of_mem_zip hb).2
      · rw [hst.1.next]
        exact List.forall₂_same.2 fun n hn => ⟨rfl, rfl, Node.not_mem_lookupsAll.1 h n hn⟩
  nil := trivial
  int _ := trivial
  admits _ _ := trivial
  host limit happlies w function vs vs' hvs := by
    obtain ⟨rfl, hargs⟩ := forall₂_beside_self (hvs.imp fun _ _ => Value.alike_avoids_iff.1)
    have hknown : ∀ v, v.Avoids name ∨ v ∈ vs' → (unreadLikeness frame name).Values w v v :=
      fun v hv => Value.alike_avoids_iff.2 ⟨rfl, hv.elim id (hargs v)⟩
    have hactions : Action.Alike (unreadLikeness frame name).Values w (Host.act function vs')
        (Host.act function vs') :=
      (hhost function vs').alike (fun _ _ _ h => (Value.alike_avoids_iff.1 h).1)
        (fun _ _ _ _ h => h) hknown
    exact .action (L := unreadLikeness frame name) (fun _ => trivial) (fun _ _ _ h => h.1.journal)
      (fun _ _ _ line h => ⟨h.1.tell line, h.2⟩) happlies hactions

-- ============================================================================
-- The theorem
-- ============================================================================

/-- The second of two outcomes is the first one but for what one frame binds a name to, and
    again no closure that is bound looks that name up. -/
structure Unaffected (frame : Nat) (name : String)
    (x y : Except (Fault (Value η)) α × Store (Value η)) : Prop where
  result : y.1 = x.1
  store : x.2.SameBut frame name y.2
  avoids : x.2.All (Value.Avoids name)

theorem Likeness.Runs.unaffected {frame : Nat} {name : String} {Q : Nat → α → α → Prop}
    {x y : Run (Value η) α} (h : (unreadLikeness frame name : Likeness η Nat).Runs 0 Q x y)
    (hQ : ∀ w a b, Q w a b → b = a) {s : Store (Value η)} (hs : s.All (Value.Avoids name))
    (value : Value η) :
    Unaffected frame name (x.outcome s) (y.outcome (s.define frame name value)) := by
  obtain ⟨_, -, ⟨hstore, havoids⟩, hends⟩ :=
    h 0 le_rfl s (s.define frame name value) ⟨s.sameBut_define frame name value, hs⟩
  exact ⟨hends.result.eq (fun _ _ hv => (Value.alike_avoids_iff.1 hv).1) (hQ _), hstore, havoids⟩

theorem eq_of_forall₂ {R : α → α → Prop} (hR : ∀ a b, R a b → b = a) {as bs : List α}
    (h : List.Forall₂ R as bs) : bs = as :=
  (forall₂_beside_self (P := fun _ => True) (h.imp fun a b hab => ⟨hR a b hab, trivial⟩)).1

/-- A name that nobody reads has no influence. In a store where no closure that is bound
    looks the name up, a value is bound to it in some frame, whether or not the name was bound
    there before; the value may look the name up itself. Then code that does not look the name
    up has the same result or fault, with the same data, in every frame and with any room, and
    leaves a store that is the same but for that name in that frame. So has every session that
    is given lines with such code, of which some may fail; in particular when what was bound is
    another function of the host that was offered under the name. -/
theorem unread_name_has_no_influence [Host η] {name : String} (hhost : HostAvoids η name)
    {s : Store (Value η)} (hs : s.All (Value.Avoids name)) :
    (∀ (frame : Nat) (value : Value η) (node : Node), name ∉ node.lookups → ∀ limit inside,
      Unaffected frame name ((node.evaluate limit inside).outcome s)
        ((node.evaluate limit inside).outcome (s.define frame name value))) ∧
    ∀ (session : Session) (lines : List (Nat × String)),
      (∀ line ∈ lines, name ∉ lookupsOfLine line.2) →
      (∀ (frame : Nat) (value : Value η),
        Unaffected frame name ((session.evalLines lines).outcome s)
          ((session.evalLines lines).outcome (s.define frame name value))) ∧
      ∀ (offered : Session) (function : η),
        Unaffected offered.root name ((session.evalLines lines).outcome s)
          ((do
            let _ ← offered.offer name function
            session.evalLines lines).outcome s) := by
  have hsame : ∀ v v' : Value η, Value.Alike (fun _ => True) (AvoidingCode name) v v' → v' = v :=
    fun _ _ hv => (Value.alike_avoids_iff.1 hv).1
  refine ⟨fun frame value node hnode limit inside => ?_, fun session lines hlines => ?_⟩
  · have hruns := ((unreadLikeness_closed hhost frame).alike limit).1 0 node inside node inside
      ⟨rfl, rfl, hnode⟩
    exact hruns.unaffected (fun _ => hsame) hs value
  · have hbound : ∀ (frame : Nat) (value : Value η),
        Unaffected frame name ((session.evalLines lines).outcome s)
          ((session.evalLines lines).outcome (s.define frame name value)) := by
      intro frame value
      have hcode : ∀ line ∈ lines, ∀ node, CodeOf line.2 node →
          (unreadLikeness frame name : Likeness η Nat).Codes 0 node session.root node
            session.root :=
        fun line hline node hnode =>
          ⟨rfl, rfl, fun hname => hlines line hline (hnode.lookups_subset hname)⟩
      have hruns := (unreadLikeness_closed hhost frame).evalLines (fun _ => trivial) hcode
      exact hruns.unaffected
        (fun _ _ _ => eq_of_forall₂ fun _ _ hr => hr.eq hsame fun _ _ => eq_of_forall₂ hsame)
        hs value
    refine ⟨hbound, fun offered function => ?_⟩
    simp only [Session.offer, Run.outcome_bind, Run.outcome_update, Run.outcome_pure]
    exact hbound offered.root (.primitive name (.host function))

/-- A closure binds a name that nobody reads, in the frames of its calls, and a function of
    the host calls it. The root may bind the name to a closure that reads it, or to one more
    function: the closure counts as before, and the line that fails does so with the same
    closure in its fault. -/
theorem spare_name_has_no_influence :
    let next : Node := .apply (.lookup "add") [.lookup "n", .literal (.int 1)]
    let step : Value Relay := .closure ["n"] [.assign "spare" next] 0
    let reader : Value Relay := .closure [] [.lookup "spare"] 0
    let s : Store (Value Relay) := Store.empty.withRoot [("add", .primitive "add" .add),
      ("relay", .primitive "relay" (.host .relay)), ("step", step)]
    let node : Node := .apply (.lookup "relay") [.lookup "step", .literal (.int 4)]
    let run := (node.evaluate 9 0).outcome s
    let run' := (node.evaluate 9 0).outcome (s.define 0 "spare" reader)
    let session : Session := ⟨0⟩
    let lines : List (Nat × String) :=
      [(9, "(set spare (relay step 1)) (add 2 2)"), (9, "(relay step step)")]
    let offered : Run (Value Relay) (Value Relay) := session.offer "spare" .relay
    HostAvoids Relay "spare" ∧ s.All (Value.Avoids "spare") ∧ ¬ reader.Avoids "spare" ∧
      "spare" ∉ node.lookups ∧ (∀ line ∈ lines, "spare" ∉ lookupsOfLine line.2) ∧
      run'.1.toOption = some (.int 5) ∧ run'.2.get? 1 "spare" = some (.int 5) ∧
      run.2.get? 0 "spare" = none ∧ run'.2.get? 0 "spare" = some reader ∧
      Unaffected 0 "spare" run run' ∧
      ((offered >>= fun _ => session.evalLines lines).outcome s).1.toOption =
        some [.ok [.int 2, .int 4], .error (.notInteger "add" 0 step)] ∧
      Unaffected 0 "spare" ((session.evalLines lines).outcome s)
        ((offered >>= fun _ => session.evalLines lines).outcome s) := by
  intro next step reader s node run run' session lines offered
  have hs : s.All (Value.Avoids "spare") := by
    have hempty : (Store.empty : Store (Value Relay)).All (Value.Avoids "spare") :=
      fun _ _ _ hv => absurd (Store.lt_next_of_get? hv) (Nat.not_lt_zero _)
    refine (hempty.add none).defineAll 0 fun b hb => ?_
    simp only [List.mem_cons, List.not_mem_nil, or_false] at hb
    rcases hb with rfl | rfl | rfl <;> decide
  have hhost : HostAvoids Relay "spare" := hostConfined_relay.avoids "spare"
  have hnode : "spare" ∉ node.lookups := by decide
  have hlines : ∀ line ∈ lines, "spare" ∉ lookupsOfLine line.2 := by decide +kernel
  obtain ⟨hevaluate, hsession⟩ := unread_name_has_no_influence hhost hs
  exact ⟨hhost, hs, by decide, hnode, hlines, by decide +kernel, by decide +kernel,
    by decide +kernel, by decide +kernel, hevaluate 0 reader node hnode 9 0, by decide +kernel,
    (hsession session lines hlines).2 session .relay⟩

end LineLisp
