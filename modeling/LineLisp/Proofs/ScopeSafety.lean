/-
  LineLisp.Proofs.ScopeSafety

  Lookups that cannot fail. Code is scoped under some names if it looks up no others, but
  for the parameters of the lambdas around the lookup. Where all closures of a store are
  scoped under what can be seen from the frames that they captured, code that is scoped
  under what can be seen from its frame never meets an unbound name. Names can be bound at
  any time and anywhere, but none goes away, so what can be seen from a frame only grows:
  this carries the property through every run, whatever its end.
-/
import LineLisp.Proofs.Ancestry
import LineLisp.Proofs.Simulation
import Mathlib.Data.Set.BooleanAlgebra
import Mathlib.Order.CompletePartialOrder

namespace LineLisp

variable {ν : Type}

-- ============================================================================
-- Names that can be seen from a frame
-- ============================================================================

namespace Store

variable {s t : Store ν} {frame : Nat} {name : String}

/-- The names that are bound in some frame of a chain. -/
def visible (s : Store ν) (frame : Nat) : Set String :=
  {name | ∃ f ∈ s.chain frame, (s.get? f name).isSome = true}

theorem mem_visible : name ∈ s.visible frame ↔ ∃ value, s.lookup? frame name = some value := by
  constructor
  · rintro ⟨f, hf, hbound⟩
    obtain ⟨g, hg⟩ : ∃ g, s.find? frame name = some g :=
      Option.isSome_iff_exists.1 (List.find?_isSome.2 ⟨f, hf, hbound⟩)
    rw [Store.find?] at hg
    have hbinds := List.find?_some hg
    obtain ⟨value, hvalue⟩ := Option.isSome_iff_exists.1 hbinds
    exact ⟨value, Option.bind_eq_some_iff.2 ⟨g, hg, hvalue⟩⟩
  · rintro ⟨value, hvalue⟩
    obtain ⟨f, hf, hget⟩ := Option.bind_eq_some_iff.1 hvalue
    exact ⟨f, List.mem_of_find?_eq_some hf, Option.isSome_iff_exists.2 ⟨value, hget⟩⟩

theorem ancestry_subset_of_le (s : Store ν) {m n : Nat} (hmn : m ≤ n) (f : Nat) :
    s.ancestry m f ⊆ s.ancestry n f := by
  induction m generalizing n f with
  | zero => exact List.nil_subset _
  | succ m ih =>
    obtain ⟨n, rfl⟩ : ∃ k, n = k + 1 := ⟨n - 1, by omega⟩
    simp only [ancestry]
    cases s.parent? f with
    | none => exact List.Subset.refl _
    | some outer => exact List.cons_subset_cons f (ih (Nat.le_of_succ_le_succ hmn) outer)

/-- The frames around a frame stay around it. -/
theorem Grows.ancestry_subset (h : s.Grows t) (n f : Nat) : s.ancestry n f ⊆ t.ancestry n f := by
  induction n generalizing f with
  | zero => exact List.nil_subset _
  | succ n ih =>
    simp only [ancestry]
    cases hparent : s.parent? f with
    | none => exact List.cons_subset_cons f (List.nil_subset _)
    | some outer =>
      rw [h.parent f (lt_next_of_parent? hparent), hparent]
      exact List.cons_subset_cons f (ih outer)

/-- What can be seen from a frame only grows. -/
theorem Grows.visible_le (h : s.Grows t) : s.visible ≤ t.visible := by
  rintro frame name ⟨f, hf, hbound⟩
  exact ⟨f, h.ancestry_subset _ _ hf, h.bound f name hbound⟩

/-- From a new frame one sees what can be seen from the frame around it. -/
theorem visible_subset_newChild (s : Store ν) (frame : Nat) :
    s.visible frame ⊆ (s.newChild frame).2.visible s.next := by
  rintro name ⟨f, hf, hbound⟩
  have hgrows : s.Grows (s.newChild frame).2 := .add s (some frame)
  refine ⟨f, ?_, hgrows.bound f name hbound⟩
  have hframe : frame < s.next := Nat.lt_of_not_le fun hle => by
    -- Nothing can be seen from a frame that was not made yet.
    simp only [chain, ancestry, parent?_eq_none hle, List.mem_singleton] at hf
    subst hf
    obtain ⟨value, hvalue⟩ := Option.isSome_iff_exists.1 hbound
    exact absurd (lt_next_of_get? hvalue) (Nat.not_lt.2 hle)
  have hchain : (s.newChild frame).2.chain s.next =
      s.next :: (s.newChild frame).2.ancestry s.next frame := by
    rw [chain, ancestry, newChild, parent?_add_self]
  rw [hchain]
  exact List.mem_cons_of_mem _
    (ancestry_subset_of_le _ hframe frame (hgrows.ancestry_subset _ _ hf))

/-- In the frame of a call one sees the parameters, and all that can be seen from the
    frame of the closure. -/
theorem visible_union_params_subset (s : Store ν) (frame : Nat) {params : List String}
    {args : List ν} (hlength : args.length = params.length) :
    s.visible frame ∪ {name | name ∈ params} ⊆
      ((s.newChild frame).2.defineAll s.next (params.zip args)).visible s.next := by
  rintro name (hname | hname)
  · exact (Grows.defineAll _ _ _).visible_le _ (visible_subset_newChild s frame hname)
  · exact ⟨s.next, List.mem_cons_self, isSome_get?_call s frame hlength hname⟩

end Store

-- ============================================================================
-- Scoped code
-- ============================================================================

/-- Code that looks up the given names only, but for parameters of the lambdas around the
    lookup. -/
inductive Node.Scoped : Set String → Node → Prop where
  | literal {names : Set String} (datum : Expr) : Scoped names (.literal datum)
  | lookup {names : Set String} {name : String} (h : name ∈ names) : Scoped names (.lookup name)
  | branch {names : Set String} {c t e : Node} (hc : Scoped names c) (ht : Scoped names t)
    (he : Scoped names e) : Scoped names (.branch c t e)
  | assign {names : Set String} (name : String) {n : Node} (h : Scoped names n) :
    Scoped names (.assign name n)
  | lambda {names : Set String} {params : List String} {body : List Node}
    (h : ∀ n ∈ body, Scoped (names ∪ {name | name ∈ params}) n) :
    Scoped names (.lambda params body)
  | apply {names : Set String} {f : Node} {args : List Node} (hf : Scoped names f)
    (hargs : ∀ n ∈ args, Scoped names n) : Scoped names (.apply f args)
  | hole {names : Set String} : Scoped names .hole

theorem Node.Scoped.mono {names names' : Set String} (hsub : names ⊆ names') {node : Node}
    (h : node.Scoped names) : node.Scoped names' := by
  induction h generalizing names' with
  | literal datum => exact .literal datum
  | lookup hname => exact .lookup (hsub hname)
  | branch _ _ _ hc ht he => exact .branch (hc hsub) (ht hsub) (he hsub)
  | assign name _ hn => exact .assign name (hn hsub)
  | lambda _ hbody => exact .lambda fun n hn => hbody n hn (Set.union_subset_union_left _ hsub)
  | apply _ _ hf hargs => exact .apply (hf hsub) fun n hn => hargs n hn hsub
  | hole => exact .hole

/-- A value whose body, if it has one, is scoped under what can be seen from its frame and
    its parameters, given what can be seen from each frame. -/
inductive Value.Scoped (seen : Nat → Set String) : Value Empty → Prop where
  | datum (e : Expr) : Scoped seen (.datum e)
  | closure {params : List String} {body : List Node} {scope : Nat}
    (h : ∀ n ∈ body, n.Scoped (seen scope ∪ {name | name ∈ params})) :
    Scoped seen (.closure params body scope)
  | primitive (name : String) (operation : Primitive Empty) :
    Scoped seen (.primitive name operation)

theorem Value.Scoped.mono {seen seen' : Nat → Set String} (hseen : seen ≤ seen')
    {v : Value Empty} (h : v.Scoped seen) : v.Scoped seen' := by
  cases h with
  | datum e => exact .datum e
  | closure hbody =>
    exact .closure fun n hn => (hbody n hn).mono (Set.union_subset_union_left _ (hseen _))
  | primitive name operation => exact .primitive name operation

/-- A store in which every closure is scoped under what can be seen from the frame that it
    captured. -/
def Store.Scoped (s : Store (Value Empty)) : Prop :=
  s.All (Value.Scoped s.visible)

namespace Store.Scoped

variable {s t : Store (Value Empty)}

theorem of_grows (hs : s.Grows t) (ht : t.All (Value.Scoped s.visible)) : t.Scoped :=
  ht.imp fun _ hv => hv.mono hs.visible_le

theorem define (hs : s.Scoped) (f : Nat) (name : String) {v : Value Empty}
    (hv : v.Scoped s.visible) : (s.define f name v).Scoped :=
  of_grows (.define s f name v) (All.define hs f name hv)

/-- What every session starts with is scoped. -/
theorem newGlobal (hs : s.Scoped) : s.newGlobal.2.Scoped := by
  refine of_grows ((Grows.add s none).trans (.defineAll _ _ _)) ?_
  refine (All.add hs none).defineAll s.next fun b hb => ?_
  simp only [builtins, List.mem_cons, List.not_mem_nil, or_false] at hb
  rcases hb with rfl | rfl
  · exact .datum .nil
  · exact .primitive "add" .add

theorem empty : (Store.empty : Store (Value Empty)).Scoped :=
  fun _ _ _ hv => absurd (lt_next_of_get? hv) (Nat.not_lt_zero _)

end Store.Scoped

-- ============================================================================
-- Runs
-- ============================================================================

/-- Scoped code in one frame. -/
def ScopedCode (seen : Nat → Set String) (n : Node) (f : Nat) (m : Node) (g : Nat) : Prop :=
  m = n ∧ g = f ∧ n.Scoped (seen f)

theorem Value.alike_scoped_iff {seen : Nat → Set String} {v w : Value Empty} :
    Value.Alike (fun _ => True) (ScopedCode seen) v w ↔ w = v ∧ v.Scoped seen := by
  constructor
  · intro h
    cases h with
    | datum _ => exact ⟨rfl, .datum _⟩
    | primitive name operation => exact ⟨rfl, .primitive name operation⟩
    | closure hcode =>
      obtain ⟨hsame, rfl, hscoped⟩ := hcode
      cases hsame
      cases hscoped with
      | lambda hbody => exact ⟨rfl, .closure hbody⟩
  · rintro ⟨rfl, h⟩
    cases h with
    | datum e => exact .datum trivial
    | closure hbody => exact .closure ⟨rfl, rfl, .lambda hbody⟩
    | primitive name operation => exact .primitive name operation

/-- Every run beside itself, with scoped code. The stage is what can be seen from each
    frame: all values are scoped under that, and a store can only show more. -/
def scopeLikeness : Likeness Empty (Nat → Set String) where
  Data _ := True
  Codes := ScopedCode
  Stores seen s t := t = s ∧ seen ≤ s.visible ∧ s.All (Value.Scoped seen)
  Admits fault := ∀ name, fault ≠ .unbound name
  codes_mono hseen _ _ _ _ h := ⟨h.1, h.2.1, h.2.2.mono (hseen _)⟩

theorem scopeLikeness_closed : scopeLikeness.Closed where
  steps := by
    rintro seen n f m g ⟨rfl, rfl, h⟩
    cases h with
    | literal datum => exact .literal trivial
    | hole => exact .hole nofun
    | lookup hname =>
      refine .lookup (.lookup_bound ?_)
      rintro seen₁ hseen₁ s t ⟨rfl, hvisible, hs⟩
      obtain ⟨v, hv⟩ := Store.mem_visible.1 (hvisible g (hseen₁ g hname))
      exact ⟨v, v, hv, hv, Value.alike_scoped_iff.2 ⟨rfl, hs.lookup? hv⟩⟩
    | branch hc ht he => exact .branch ⟨rfl, rfl, hc⟩ ⟨rfl, rfl, ht⟩ ⟨rfl, rfl, he⟩
    | assign name hn =>
      refine .assign ⟨rfl, rfl, hn⟩ fun seen₁ _ v v' hv => .update ?_
      rintro seen₂ hseen₂ s t ⟨rfl, hvisible, hs⟩
      obtain ⟨rfl, hv⟩ := Value.alike_scoped_iff.1 hv
      have hgrows : t.Grows (t.define g name v') := .define t g name v'
      exact ⟨rfl, hvisible.trans hgrows.visible_le, hs.define g name (hv.mono hseen₂)⟩
    | apply hf hargs =>
      exact .apply ⟨rfl, rfl, hf⟩ (List.forall₂_same.2 fun a ha => ⟨rfl, rfl, hargs a ha⟩)
    | @lambda _ params body hbody =>
      refine .lambda fun seen₁ hseen₁ vs vs' hvs => .bindArguments rfl hvs ?_ nofun
      rintro hlength seen₂ hseen₂ s t ⟨rfl, hvisible, hs⟩
      obtain ⟨rfl, hargs⟩ := forall₂_beside_self (hvs.imp fun _ _ => Value.alike_scoped_iff.1)
      have hgrows := Store.Grows.call t g (params.zip vs')
      refine ⟨_, hvisible.trans hgrows.visible_le, ⟨rfl, le_rfl, ?_⟩, ?_⟩
      · refine (Store.All.add (hs.imp fun v hv => ?_) (some g)).defineAll t.next fun b hb => ?_
        · exact hv.mono (hvisible.trans hgrows.visible_le)
        · have hb' : b.2.Scoped seen₁ := hargs b.2 (List.of_mem_zip hb).2
          exact hb'.mono (hseen₂.trans (hvisible.trans hgrows.visible_le))
      · have hseen : seen g ⊆ t.visible g := (hseen₁.trans (hseen₂.trans hvisible)) g
        refine List.forall₂_same.2 fun n hn => ⟨rfl, rfl, (hbody n hn).mono ?_⟩
        exact (Set.union_subset_union_left _ hseen).trans (t.visible_union_params_subset g hlength)
  nil := trivial
  int _ := trivial
  admits := by
    rintro _ (_ | _ | _) <;> nofun
  host := Likeness.host_of_empty

-- ============================================================================
-- The theorem
-- ============================================================================

/-- Code that is scoped under what can be seen from its frame never meets an unbound name
    in a store where all closures are scoped, whatever the room: its run may fail in other
    ways, but not with that fault, in no call that it makes. The store that the run leaves,
    also where it fails, is scoped again; all that could be seen from a frame can still be
    seen; and a value that the run yields is scoped there. -/
theorem scoped_code_meets_no_unbound_name {s : Store (Value Empty)} (hs : s.Scoped) {node : Node}
    {frame : Nat} (hnode : node.Scoped (s.visible frame)) (limit : Nat) :
    let result := ((node.evaluate limit frame).outcome s).1
    let t := ((node.evaluate limit frame).outcome s).2
    (∀ name, result ≠ .error (.unbound name)) ∧ t.Scoped ∧ s.visible ≤ t.visible ∧
      ∀ v, result = .ok v → v.Scoped t.visible := by
  intro result t
  obtain ⟨seen, hseen, ⟨-, hvisible, hvalues⟩, hends⟩ := (scopeLikeness_closed.alike limit).1
    s.visible node frame node frame ⟨rfl, rfl, hnode⟩ s.visible le_rfl s s ⟨rfl, le_rfl, hs⟩
  have ht : t.Scoped := hvalues.imp fun v hv => hv.mono hvisible
  have hends' : scopeLikeness.Ends seen scopeLikeness.Values result result := hends
  clear_value result
  cases hends' with
  | ok hvalue =>
    refine ⟨nofun, ht, hseen.trans hvisible, ?_⟩
    rintro _ ⟨⟩
    exact (Value.alike_scoped_iff.1 hvalue).2.mono hvisible
  | error _ hadmits =>
    refine ⟨fun name hunbound => hadmits name ?_, ht, hseen.trans hvisible, nofun⟩
    cases hunbound
    rfl

/-- The closure of a session makes another one, which fails when it is called: its name for
    the number is bound by the first call, but not to a number. The fault is another one,
    and the store with both frames of the calls is scoped. -/
theorem call_of_made_closure_meets_no_unbound_name :
    let increment : Node := .apply (.lookup "add") [.lookup "x", .literal (.int 1)]
    let make : Value Empty := .closure ["x"] [.lambda [] [increment]] 0
    let fresh : Store (Value Empty) := Store.empty.newGlobal.2
    let s := fresh.define 0 "make" make
    let node : Node := .apply (.apply (.lookup "make") [.lookup "nil"]) []
    let t := ((node.evaluate 9 0).outcome s).2
    s.Scoped ∧ node.Scoped (s.visible 0) ∧
      ((node.evaluate 9 0).outcome s).1 = .error (.notInteger "add" 0 .nil) ∧
      t.next = 3 ∧ t.Scoped := by
  intro increment make fresh s node t
  have hadd : "add" ∈ fresh.visible 0 :=
    ⟨0, by decide +kernel, by decide +kernel⟩
  have hmake : make.Scoped fresh.visible := by
    refine .closure (List.forall_mem_singleton.2 (.lambda (List.forall_mem_singleton.2 ?_)))
    have hx : "x" ∈ {name | name ∈ ["x"]} := List.mem_singleton.2 rfl
    refine .apply (.lookup (.inl (.inl hadd))) fun n hn => ?_
    simp only [List.mem_cons, List.not_mem_nil, or_false] at hn
    rcases hn with rfl | rfl
    · exact .lookup (.inl (.inr hx))
    · exact .literal _
  have hs : s.Scoped := Store.Scoped.empty.newGlobal.define 0 "make" hmake
  have hnode : node.Scoped (s.visible 0) := by
    refine .apply (.apply (.lookup ?_) (List.forall_mem_singleton.2 (.lookup ?_))) nofun
    · exact ⟨0, by decide +kernel, by decide +kernel⟩
    · exact ⟨0, by decide +kernel, by decide +kernel⟩
  obtain ⟨-, ht, -⟩ := scoped_code_meets_no_unbound_name hs hnode 9
  exact ⟨hs, hnode, by decide +kernel, by decide +kernel, ht⟩

end LineLisp
