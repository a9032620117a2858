/-
  LineLisp.Proofs.Ancestry

  The frames around a frame. Going outward from a frame ends at one that lies in no
  other, and a chain is all of that way. A store grows by new frames and new
  bindings: the frames that it has stay inside the same frames, and the names that
  are bound stay bound. So the way outward from a frame never changes.
-/
import LineLisp.Store.Lemmas

namespace LineLisp.Store

variable {ν : Type} {s t u : Store ν} {roots : Nat → Prop} {f g : Nat} {way : List Nat}

-- ============================================================================
-- Single bindings
-- ============================================================================

theorem lt_next_of_get? {name : String} {value : ν} (h : s.get? f name = some value) :
    f < s.next := by
  refine Nat.lt_of_not_le fun hle => ?_
  rw [get?, bindings_eq_nil hle, Bindings.get?_nil] at h
  cases h

theorem lt_next_of_parent? (h : s.parent? f = some g) : f < s.next := by
  refine Nat.lt_of_not_le fun hle => ?_
  rw [parent?_eq_none hle] at h
  cases h

theorem get?_add (s : Store ν) (parent : Option Nat) (f : Nat) (name : String) :
    (s.add parent).get? f name = s.get? f name := by
  rw [get?, bindings_add, get?]

theorem get?_define_self (h : f < s.next) (name : String) (value : ν) :
    (s.define f name value).get? f name = some value := by
  rw [get?, bindings_define_self h, Bindings.get?_define_self]

/-- Binding a name in a frame leaves the other names and the other frames alone. -/
theorem get?_define_of_ne {name other : String} (h : g ≠ f ∨ other ≠ name) (value : ν) :
    (s.define f name value).get? g other = s.get? g other := by
  by_cases hg : g = f
  · subst hg
    have hne : other ≠ name := h.resolve_left (absurd rfl)
    by_cases hlt : g < s.next
    · rw [get?, bindings_define_self hlt, Bindings.get?_define_of_ne hne, get?]
    · rw [get?, get?, bindings_eq_nil (by simpa using hlt), bindings_eq_nil (by simpa using hlt)]
  · rw [get?, bindings_define_of_ne hg, get?]

/-- All values that are bound have a property. -/
def All (P : ν → Prop) (s : Store ν) : Prop :=
  ∀ f name value, s.get? f name = some value → P value

namespace All

variable {P Q : ν → Prop}

theorem imp (hPQ : ∀ value, P value → Q value) (h : s.All P) : s.All Q :=
  fun f name value hvalue => hPQ value (h f name value hvalue)

theorem add (h : s.All P) (parent : Option Nat) : (s.add parent).All P := by
  intro f name value hvalue
  rw [get?_add] at hvalue
  exact h f name value hvalue

theorem define (h : s.All P) (f : Nat) (name : String) {value : ν} (hvalue : P value) :
    (s.define f name value).All P := by
  intro g other found hfound
  by_cases heq : g = f ∧ other = name
  · obtain ⟨rfl, rfl⟩ := heq
    have hlt : g < s.next := by simpa using lt_next_of_get? hfound
    rw [get?_define_self hlt] at hfound
    obtain rfl := Option.some.inj hfound
    exact hvalue
  · rw [get?_define_of_ne (Decidable.not_and_iff_or_not.1 heq)] at hfound
    exact h g other found hfound

theorem defineAll (h : s.All P) (f : Nat) {bs : Bindings ν} (hbs : ∀ b ∈ bs, P b.2) :
    (s.defineAll f bs).All P := by
  induction bs generalizing s with
  | nil => exact h
  | cons b bs ih =>
    obtain ⟨hb, hbs⟩ := List.forall_mem_cons.1 hbs
    exact ih (h.define f b.1 hb) hbs

theorem lookup? (h : s.All P) {name : String} {value : ν}
    (hvalue : s.lookup? f name = some value) : P value := by
  obtain ⟨g, -, hg⟩ := Option.bind_eq_some_iff.1 hvalue
  exact h g name value hg

end All

-- ============================================================================
-- Stores that grow
-- ============================================================================

/-- A store that came about from another: its frames are still there, inside the same
    frames, and the names bound in them are still bound. -/
structure Grows (s t : Store ν) : Prop where
  next : s.next ≤ t.next
  parent : ∀ f < s.next, t.parent? f = s.parent? f
  bound : ∀ f name, (s.get? f name).isSome = true → (t.get? f name).isSome = true

namespace Grows

theorem refl (s : Store ν) : s.Grows s :=
  ⟨Nat.le_refl _, fun _ _ => rfl, fun _ _ h => h⟩

theorem trans (hst : s.Grows t) (htu : t.Grows u) : s.Grows u where
  next := Nat.le_trans hst.next htu.next
  parent f hf := (htu.parent f (Nat.lt_of_lt_of_le hf hst.next)).trans (hst.parent f hf)
  bound f name h := htu.bound f name (hst.bound f name h)

theorem add (s : Store ν) (parent : Option Nat) : s.Grows (s.add parent) where
  next := by simp
  parent f hf := parent?_add_of_ne (by omega)
  bound f name h := by rwa [get?_add]

theorem define (s : Store ν) (f : Nat) (name : String) (value : ν) :
    s.Grows (s.define f name value) where
  next := by simp
  parent g _ := by simp
  bound g other h := by
    by_cases heq : g = f ∧ other = name
    · obtain ⟨rfl, rfl⟩ := heq
      obtain ⟨old, hold⟩ := Option.isSome_iff_exists.1 h
      rw [get?_define_self (lt_next_of_get? hold)]
      rfl
    · rwa [get?_define_of_ne (Decidable.not_and_iff_or_not.1 heq)]

theorem defineAll (s : Store ν) (f : Nat) (bs : Bindings ν) : s.Grows (s.defineAll f bs) := by
  induction bs generalizing s with
  | nil => exact refl s
  | cons b bs ih => exact (define s f b.1 b.2).trans (ih _)

/-- The frame of a call is new. -/
theorem call (s : Store ν) (f : Nat) (bs : Bindings ν) :
    s.Grows ((s.newChild f).2.defineAll s.next bs) :=
  (add s (some f)).trans (defineAll _ _ _)

theorem tell (s : Store ν) (line : String) : s.Grows (s.tell line) :=
  ⟨Nat.le_refl _, fun _ _ => rfl, fun _ _ h => h⟩

end Grows

/-- Names that are bound one after the other are bound in the end. -/
theorem isSome_get?_defineAll (hf : f < s.next) {bs : Bindings ν} {name : String}
    (hname : name ∈ bs.names) : ((s.defineAll f bs).get? f name).isSome = true := by
  induction bs generalizing s with
  | nil => cases hname
  | cons b bs ih =>
    rcases List.mem_cons.1 hname with rfl | hrest
    · refine (Grows.defineAll (s.define f b.1 b.2) f bs).bound f b.1 ?_
      rw [get?_define_self hf]
      rfl
    · exact ih (s := s.define f b.1 b.2) (by simpa using hf) hrest

/-- The frame of a call binds all parameters. -/
theorem isSome_get?_call (s : Store ν) (f : Nat) {params : List String} {args : List ν}
    (hlength : args.length = params.length) {name : String} (hname : name ∈ params) :
    (((s.newChild f).2.defineAll s.next (params.zip args)).get? s.next name).isSome = true := by
  have hlt : s.next < (s.newChild f).2.next := by simp [newChild]
  refine isSome_get?_defineAll hlt ?_
  rwa [Bindings.names, List.map_fst_zip (Nat.le_of_eq hlength.symm)]

-- ============================================================================
-- The way outward
-- ============================================================================

/-- A name is looked up in a frame first, and then from the frame around it. -/
theorem lookup?_eq (hwf : s.WellFormed) (f : Nat) (name : String) :
    s.lookup? f name = (s.get? f name).or ((s.parent? f).bind fun g => s.lookup? g name) := by
  simp only [lookup?, find?, Store.chain_eq hwf f, List.find?_cons]
  cases hget : s.get? f name with
  | some value => simpa using hget
  | none => cases s.parent? f <;> rfl

/-- The frames from a frame outward, each inside the next one, up to one that lies in
    no other. -/
inductive Outward (s : Store ν) : Nat → List Nat → Prop where
  | outermost {f : Nat} (h : s.parent? f = none) : Outward s f [f]
  | inside {f g : Nat} {way : List Nat} (h : s.parent? f = some g) (hg : Outward s g way) :
    Outward s f (f :: way)

namespace Outward

/-- A chain is the way outward from its frame. -/
theorem chain_eq (h : s.Outward f way) (hwf : s.WellFormed) : s.chain f = way := by
  induction h with
  | @outermost f hparent => rw [Store.chain_eq hwf f, hparent]
  | @inside f g way hparent _ ih =>
    rw [Store.chain_eq hwf f, hparent]
    show f :: s.chain g = f :: way
    rw [ih]

theorem ne_nil (h : s.Outward f way) : way ≠ [] := by
  cases h <;> exact List.cons_ne_nil _ _

theorem grows (h : s.Outward f way) (hwf : s.WellFormed) (hf : f < s.next) (hst : s.Grows t) :
    t.Outward f way := by
  induction h with
  | @outermost f hparent => exact .outermost ((hst.parent f hf).trans hparent)
  | @inside f g way hparent _ ih =>
    have hg : g < s.next := Nat.lt_trans (hwf f g hparent) hf
    exact .inside ((hst.parent f hf).trans hparent) (ih hg)

/-- The way outward depends on nothing but which frames lie in which. -/
theorem congr {ν' : Type} {t : Store ν'} (h : s.Outward f way)
    (hparent : ∀ g, t.parent? g = s.parent? g) : t.Outward f way := by
  induction h with
  | @outermost f hf => exact .outermost ((hparent f).trans hf)
  | @inside f g way hf _ ih => exact .inside ((hparent f).trans hf) ih

end Outward

-- ============================================================================
-- Frames that stand on given roots
-- ============================================================================

/-- The frames from which the way outward ends at one of the given roots. -/
inductive Rooted (s : Store ν) (roots : Nat → Prop) : Nat → Prop where
  | root {f : Nat} (hlt : f < s.next) (hparent : s.parent? f = none) (hroot : roots f) :
    Rooted s roots f
  | inside {f g : Nat} (hlt : f < s.next) (hparent : s.parent? f = some g)
    (hg : Rooted s roots g) : Rooted s roots f

namespace Rooted

theorem lt_next (h : s.Rooted roots f) : f < s.next := by
  cases h with
  | root hlt _ _ => exact hlt
  | inside hlt _ _ => exact hlt

theorem grows (h : s.Rooted roots f) (hst : s.Grows t) : t.Rooted roots f := by
  induction h with
  | @root f hlt hparent hroot =>
    exact .root (Nat.lt_of_lt_of_le hlt hst.next) ((hst.parent f hlt).trans hparent) hroot
  | @inside f g hlt hparent _ ih =>
    exact .inside (Nat.lt_of_lt_of_le hlt hst.next) ((hst.parent f hlt).trans hparent) ih

/-- A frame that was there before stood on the same roots then. -/
theorem of_grows (h : t.Rooted roots f) (hwf : s.WellFormed) (hf : f < s.next)
    (hst : s.Grows t) : s.Rooted roots f := by
  induction h with
  | @root f _ hparent hroot => exact .root hf ((hst.parent f hf).symm.trans hparent) hroot
  | @inside f g _ hparent _ ih =>
    have hparent' : s.parent? f = some g := (hst.parent f hf).symm.trans hparent
    have hg : g < s.next := Nat.lt_trans (hwf f g hparent') hf
    exact .inside hf hparent' (ih hg)

/-- In a well-formed store every frame stands on some root. -/
theorem of_lt_next (hwf : s.WellFormed) (hf : f < s.next) : s.Rooted (fun _ => True) f := by
  induction f using Nat.strongRecOn with
  | ind f ih =>
    cases hparent : s.parent? f with
    | none => exact .root hf hparent trivial
    | some g =>
      have hg : g < f := hwf f g hparent
      exact .inside hf hparent (ih g hg (Nat.lt_trans hg hf))

/-- The frames around a frame stand on the same roots. -/
theorem of_mem_chain (h : s.Rooted roots f) (hwf : s.WellFormed) (hg : g ∈ s.chain f) :
    s.Rooted roots g := by
  induction h with
  | @root f hlt hparent hroot =>
    rw [Store.chain_eq hwf, hparent] at hg
    obtain rfl := List.mem_singleton.1 hg
    exact .root hlt hparent hroot
  | @inside f outer hlt hparent houter ih =>
    simp only [Store.chain_eq hwf f, hparent] at hg
    rcases List.mem_cons.1 hg with rfl | hg
    · exact .inside hlt hparent houter
    · exact ih hg

/-- A name that can be looked up from a frame is bound in a frame on the same roots. -/
theorem of_lookup? (h : s.Rooted roots f) (hwf : s.WellFormed) {name : String} {value : ν}
    (hlookup : s.lookup? f name = some value) :
    ∃ g, s.Rooted roots g ∧ s.get? g name = some value := by
  obtain ⟨g, hfind, hget⟩ := Option.bind_eq_some_iff.1 hlookup
  exact ⟨g, h.of_mem_chain hwf (List.mem_of_find?_eq_some hfind), hget⟩

theorem exists_outward (h : s.Rooted roots f) :
    ∃ inner last, s.Outward f (inner ++ [last]) ∧ roots last := by
  induction h with
  | @root f _ hparent hroot => exact ⟨[], f, .outermost hparent, hroot⟩
  | @inside f g _ hparent _ ih =>
    obtain ⟨inner, last, hway, hroot⟩ := ih
    exact ⟨f :: inner, last, .inside hparent hway, hroot⟩

end Rooted

/-- A frame stands on the roots if the way outward from it ends at one of them. -/
theorem Outward.rooted {inner : List Nat} {last : Nat} (h : s.Outward f (inner ++ [last]))
    (hwf : s.WellFormed) (hf : f < s.next) (hlast : roots last) : s.Rooted roots f := by
  induction inner generalizing f with
  | nil =>
    cases h with
    | outermost hparent => exact .root hf hparent hlast
    | inside _ hg => exact absurd rfl hg.ne_nil
  | cons g inner ih =>
    obtain ⟨outer, hparent, houter⟩ : ∃ outer, s.parent? f = some outer ∧
        s.Outward outer (inner ++ [last]) := by
      generalize hway : g :: inner ++ [last] = way at h
      cases h with
      | outermost _ => simp at hway
      | @inside _ outer _ hparent hg =>
        obtain rfl := List.tail_eq_of_cons_eq hway
        exact ⟨outer, hparent, hg⟩
    exact .inside hf hparent (ih houter (Nat.lt_trans (hwf f outer hparent) hf))

/-- What is looked up along the chain of a frame is found on a way that ends: the chain
    is all of the way outward, its last frame is one of the given roots, and a name has
    the value of the first frame on the way that binds it. -/
structure Resolves (s : Store ν) (roots : Nat → Prop) (f : Nat) (way : List Nat) : Prop where
  outward : s.Outward f way
  chain : s.chain f = way
  root : roots (s.root f) ∧ way.getLast? = some (s.root f)
  find? : ∀ name, s.find? f name = way.find? fun g => (s.get? g name).isSome
  lookup? : ∀ name, s.lookup? f name = way.findSome? fun g => s.get? g name

theorem Rooted.resolves (h : s.Rooted roots f) (hwf : s.WellFormed) :
    ∃ way, s.Resolves roots f way := by
  obtain ⟨inner, last, hway, hroot⟩ := h.exists_outward
  have hchain : s.chain f = inner ++ [last] := hway.chain_eq hwf
  have hlast : s.root f = last := by rw [Store.root, hchain, List.getLastD_concat]
  have hfind : ∀ name, s.find? f name =
      (inner ++ [last]).find? fun g => (s.get? g name).isSome := by
    intro name
    rw [Store.find?, hchain]
  refine ⟨inner ++ [last], hway, hchain, ⟨hlast ▸ hroot, ?_⟩, hfind, fun name => ?_⟩
  · rw [hlast, List.getLast?_concat]
  · rw [Store.lookup?, hfind]
    generalize inner ++ [last] = frames
    induction frames with
    | nil => rfl
    | cons g frames ih =>
      rw [List.find?_cons, List.findSome?_cons]
      cases hg : s.get? g name with
      | none => exact ih
      | some value => exact hg

/-- The frames on one root are those whose outermost frame it is. -/
theorem rooted_eq_iff (hwf : s.WellFormed) {root : Nat} :
    s.Rooted (· = root) f ↔ f < s.next ∧ s.root f = root := by
  constructor
  · intro h
    obtain ⟨way, hway⟩ := h.resolves hwf
    exact ⟨h.lt_next, hway.root.1⟩
  · rintro ⟨hf, hroot⟩
    obtain ⟨inner, last, hway, -⟩ := (Rooted.of_lt_next hwf hf).exists_outward
    refine hway.rooted hwf hf ?_
    rw [← hroot, Store.root, hway.chain_eq hwf, List.getLastD_concat]

end LineLisp.Store
