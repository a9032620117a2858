/-
  LineLisp.Proofs.Embedding

  One store inside another. The frames of a store have places among those of a larger
  one: there they lie in the places of the same frames and bind the same names to the same
  values, but for the places of the frames that closures capture. Code runs alike in a
  frame and in its place, and what it makes anew has a place at the end. The rest of the
  larger store may change, and nothing of it can be seen from the places.
-/
import LineLisp.Proofs.Repetition
import LineLisp.Proofs.SessionSimulation

namespace LineLisp

variable {η ν : Type}

-- ============================================================================
-- Places
-- ============================================================================

/-- The places of the frames of a store among those of a larger one, which has so many
    frames. -/
structure Placing where
  frames : List Nat
  next : Nat

/-- Frames that come about later have their places behind what was there. -/
instance : Preorder Placing where
  le w w' := w.frames <+: w'.frames ∧ w.next ≤ w'.next ∧ ∀ g ∈ w'.frames, g ∈ w.frames ∨ w.next ≤ g
  le_refl w := ⟨List.prefix_rfl, Nat.le_refl _, fun _ hg => .inl hg⟩
  le_trans w w' w'' h h' := by
    refine ⟨h.1.trans h'.1, Nat.le_trans h.2.1 h'.2.1, fun g hg => ?_⟩
    rcases h'.2.2 g hg with hmem | hle
    · exact h.2.2 g hmem
    · exact .inr (Nat.le_trans h.2.1 hle)

namespace Placing

variable {w w' : Placing} {f f' g : Nat}

/-- A frame has a place. -/
def At (w : Placing) (f g : Nat) : Prop :=
  w.frames[f]? = some g

/-- The place of a frame. -/
def move (w : Placing) (f : Nat) : Nat :=
  w.frames.getD f 0

/-- One frame more in both stores. -/
def push (w : Placing) : Placing :=
  ⟨w.frames ++ [w.next], w.next + 1⟩

/-- The same places in a store with so many frames. -/
def within (w : Placing) (next : Nat) : Placing :=
  ⟨w.frames, next⟩

theorem At.mono (hw : w ≤ w') (h : w.At f g) : w'.At f g := by
  obtain ⟨rest, hrest⟩ := hw.1
  have hf : f < w.frames.length := (List.getElem?_eq_some_iff.1 h).1
  rw [At, ← hrest, List.getElem?_append_left hf]
  exact h

theorem rel_at_mono (hw : w ≤ w') {p q : Option Nat} (h : Option.Rel w.At p q) :
    Option.Rel w'.At p q := by
  cases h with
  | none => exact .none
  | some hplace => exact .some (hplace.mono hw)

theorem At.lt (h : w.At f g) : f < w.frames.length :=
  (List.getElem?_eq_some_iff.1 h).1

theorem At.mem (h : w.At f g) : g ∈ w.frames :=
  List.mem_of_getElem? h

theorem At.inj (hnodup : w.frames.Nodup) (h : w.At f g) (h' : w.At f' g) : f = f' :=
  (List.getElem?_inj h.lt hnodup).1 (Eq.trans h h'.symm)

theorem At.move_eq (h : w.At f g) : w.move f = g := by
  rw [move, List.getD_eq_getElem?_getD, h, Option.getD_some]

theorem at_move (h : f < w.frames.length) : w.At f (w.move f) := by
  rw [move, List.getD_eq_getElem?_getD, List.getElem?_eq_getElem h, Option.getD_some]
  exact List.getElem?_eq_getElem h

theorem at_push_iff : w.push.At f g ↔ w.At f g ∨ f = w.frames.length ∧ g = w.next := by
  unfold At push
  rcases Nat.lt_trichotomy f w.frames.length with hlt | rfl | hgt
  · rw [List.getElem?_append_left hlt]
    have hne : f ≠ w.frames.length := Nat.ne_of_lt hlt
    simp [hne]
  · simp [eq_comm]
  · have hne : f ≠ w.frames.length := Nat.ne_of_gt hgt
    have hbehind : (w.frames ++ [w.next])[f]? = none :=
      List.getElem?_eq_none (by rw [List.length_append]; exact hgt)
    rw [hbehind, List.getElem?_eq_none (Nat.le_of_lt hgt)]
    simp [hne]

theorem le_push : w ≤ w.push := by
  refine ⟨List.prefix_append _ _, Nat.le_succ _, fun g hg => ?_⟩
  rcases List.mem_append.1 hg with hmem | hmem
  · exact .inl hmem
  · exact .inr (Nat.le_of_eq (List.mem_singleton.1 hmem).symm)

end Placing

-- ============================================================================
-- Stores inside one another
-- ============================================================================

/-- Code is the same in a frame and in its place. -/
def PlacedCode (w : Placing) (n : Node) (f : Nat) (m : Node) (g : Nat) : Prop :=
  m = n ∧ w.At f g

/-- Values that are the same but for the places of frames. -/
abbrev Value.Placed (w : Placing) : Value η → Value η → Prop :=
  Value.Alike (fun _ => True) (PlacedCode w)

theorem Value.Placed.mono {w w' : Placing} (hw : w ≤ w') {u v : Value η} (h : u.Placed w v) :
    u.Placed w' v :=
  h.imp fun _ _ _ _ hcode => ⟨hcode.1, hcode.2.mono hw⟩

theorem Value.Placed.movesTo {w : Placing} {u v : Value η} (h : u.Placed w v) :
    u.MovesTo w.move v := by
  cases h with
  | datum _ => rfl
  | primitive _ _ => rfl
  | closure hcode =>
    obtain ⟨hsame, hplace⟩ := hcode
    cases hsame
    rw [Value.MovesTo, Value.moved, hplace.move_eq]

/-- All frames of a store have places of their own in a larger one, which lie in the places
    of the same frames and bind the same names to corresponding values. -/
structure Store.Embedded (w : Placing) (s t : Store (Value η)) : Prop where
  next : s.next = w.frames.length
  next' : t.next = w.next
  nodup : w.frames.Nodup
  lt : ∀ g ∈ w.frames, g < w.next
  wellFormed : s.WellFormed
  wellFormed' : t.WellFormed
  parent : ∀ f g, w.At f g → Option.Rel w.At (s.parent? f) (t.parent? g)
  bindings : ∀ f g, w.At f g → (s.bindings f).Agrees (Value.Placed w) (t.bindings g)

namespace Store.Embedded

variable {w : Placing} {s t u : Store (Value η)} {f g : Nat}

theorem lookup? (h : s.Embedded w t) (hplace : w.At f g) (name : String) :
    Option.Rel (Value.Placed w) (s.lookup? f name) (t.lookup? g name) := by
  induction f using Nat.strongRecOn generalizing g with
  | ind f ih =>
    have hget : Option.Rel (Value.Placed w) (s.get? f name) (t.get? g name) :=
      (h.bindings f g hplace).get? name
    have hparent := h.parent f g hplace
    have houter := h.wellFormed f
    rw [lookup?_eq h.wellFormed, lookup?_eq h.wellFormed']
    generalize s.get? f name = a at hget
    generalize t.get? g name = b at hget
    cases hget with
    | some hvalues => exact .some hvalues
    | none =>
      generalize s.parent? f = p at hparent houter
      generalize t.parent? g = q at hparent
      cases hparent with
      | none => exact .none
      | some hplace' => exact ih _ (houter _ rfl) hplace'

theorem define (h : s.Embedded w t) (hplace : w.At f g) (name : String) {v v' : Value η}
    (hv : v.Placed w v') : (s.define f name v).Embedded w (t.define g name v') where
  next := by rw [next_define, h.next]
  next' := by rw [next_define, h.next']
  nodup := h.nodup
  lt := h.lt
  wellFormed := h.wellFormed.define f name v
  wellFormed' := h.wellFormed'.define g name v'
  parent f' g' hplace' := by
    rw [parent?_define, parent?_define]
    exact h.parent f' g' hplace'
  bindings f' g' hplace' := by
    by_cases hf : f' = f
    · subst hf
      obtain rfl : g = g' := Option.some.inj (hplace.symm.trans hplace')
      have hlt : f' < s.next := h.next ▸ hplace.lt
      have hlt' : g < t.next := h.next' ▸ h.lt g hplace.mem
      rw [bindings_define_self hlt, bindings_define_self hlt']
      exact (h.bindings f' g hplace).define name hv
    · have hg : g' ≠ g := by
        rintro rfl
        exact hf (hplace'.inj h.nodup hplace)
      rw [bindings_define_of_ne hf, bindings_define_of_ne hg]
      exact h.bindings f' g' hplace'

theorem defineAll (h : s.Embedded w t) (hplace : w.At f g) {bs cs : Bindings (Value η)}
    (hbs : bs.Rel (Value.Placed w) cs) : (s.defineAll f bs).Embedded w (t.defineAll g cs) := by
  induction hbs generalizing s t with
  | nil => exact h
  | @cons b c bs cs hbc _ ih =>
    obtain ⟨name, v⟩ := b
    obtain ⟨name', v'⟩ := c
    obtain ⟨rfl, hv⟩ : name = name' ∧ v.Placed w v' := hbc
    exact ih (h.define hplace name hv)

theorem at_next (h : s.Embedded w t) : w.push.At s.next t.next :=
  Placing.at_push_iff.2 (.inr ⟨h.next, h.next'⟩)

/-- New frames that lie in corresponding ones, or in none, correspond. -/
theorem add (h : s.Embedded w t) {p q : Option Nat} (hparent : Option.Rel w.At p q) :
    (s.add p).Embedded w.push (t.add q) where
  next := by rw [next_add, h.next, Placing.push, List.length_append, List.length_singleton]
  next' := by rw [next_add, h.next', Placing.push]
  nodup := by
    refine List.nodup_append.2 ⟨h.nodup, List.pairwise_singleton _ _, fun g hg g' hg' => ?_⟩
    rw [List.mem_singleton.1 hg']
    exact Nat.ne_of_lt (h.lt g hg)
  lt g hg := by
    rcases List.mem_append.1 hg with hmem | hmem
    · exact Nat.lt_succ_of_lt (h.lt g hmem)
    · rw [List.mem_singleton.1 hmem]
      exact Nat.lt_succ_self _
  wellFormed := h.wellFormed.add fun f hf => by
    subst hf
    cases hparent with
    | some hplace => exact h.next ▸ hplace.lt
  wellFormed' := h.wellFormed'.add fun g hg => by
    subst hg
    cases hparent with
    | some hplace => exact h.next' ▸ h.lt g hplace.mem
  parent f g hplace := by
    rcases Placing.at_push_iff.1 hplace with hold | ⟨hf, hg⟩
    · have hf : f ≠ s.next := Nat.ne_of_lt (h.next ▸ hold.lt)
      have hg : g ≠ t.next := Nat.ne_of_lt (h.next' ▸ h.lt g hold.mem)
      rw [parent?_add_of_ne hf, parent?_add_of_ne hg]
      exact Placing.rel_at_mono Placing.le_push (h.parent f g hold)
    · rw [hf, ← h.next, parent?_add_self, hg, ← h.next', parent?_add_self]
      exact Placing.rel_at_mono Placing.le_push hparent
  bindings f g hplace := by
    rw [bindings_add, bindings_add]
    rcases Placing.at_push_iff.1 hplace with hold | ⟨hf, hg⟩
    · exact (h.bindings f g hold).imp fun _ _ hv => hv.mono Placing.le_push
    · rw [hf, ← h.next, bindings_eq_nil (Nat.le_refl _), hg, ← h.next',
        bindings_eq_nil (Nat.le_refl _)]
      exact .nil

/-- What is changed outside of the places does not matter. -/
theorem elsewhere (h : s.Embedded w t) {touched : List Nat} (htu : t.AgreesOutside touched u)
    (hu : u.WellFormed) (hapart : ∀ g ∈ touched, g ∉ w.frames) :
    s.Embedded (w.within u.next) u where
  next := h.next
  next' := rfl
  nodup := h.nodup
  lt g hg := Nat.lt_of_lt_of_le (h.next' ▸ h.lt g hg) htu.1
  wellFormed := h.wellFormed
  wellFormed' := hu
  parent f g hplace := by
    rw [(htu.2 g (h.next' ▸ h.lt g hplace.mem)).1]
    exact h.parent f g hplace
  bindings f g hplace := by
    rw [(htu.2 g (h.next' ▸ h.lt g hplace.mem)).2 fun hin => hapart g hin hplace.mem]
    exact h.bindings f g hplace

/-- A store without frames is in every store. -/
theorem empty (ht : t.WellFormed) : (Store.empty : Store (Value η)).Embedded ⟨[], t.next⟩ t where
  next := rfl
  next' := rfl
  nodup := List.nodup_nil
  lt := nofun
  wellFormed := wellFormed_empty
  wellFormed' := ht
  parent _ _ hplace := absurd hplace.lt (Nat.not_lt_zero _)
  bindings _ _ hplace := absurd hplace.lt (Nat.not_lt_zero _)

end Store.Embedded

-- ============================================================================
-- Runs
-- ============================================================================

/-- Runs in a store and in a larger one. The stage is where the frames have their places. -/
def placingLikeness : Likeness Empty Placing where
  Data _ := True
  Codes := PlacedCode
  Stores := Store.Embedded
  Admits _ := True
  codes_mono hw _ _ _ _ h := ⟨h.1, h.2.mono hw⟩

theorem placingLikeness_closed : placingLikeness.Closed where
  steps := by
    rintro w n f m g ⟨rfl, hplace⟩
    cases m with
    | literal datum => exact .literal trivial
    | hole => exact .hole trivial
    | lookup name =>
      exact .lookup (.lookup (fun _ hw _ _ hst => hst.lookup? (hplace.mono hw) name) trivial)
    | branch c t e => exact .branch ⟨rfl, hplace⟩ ⟨rfl, hplace⟩ ⟨rfl, hplace⟩
    | assign name n =>
      refine .assign ⟨rfl, hplace⟩ fun w₁ hw₁ v v' hv => .update fun w₂ hw₂ s t hst => ?_
      exact hst.define (hplace.mono (le_trans hw₁ hw₂)) name (hv.mono hw₂)
    | apply n args => exact .apply ⟨rfl, hplace⟩ (List.forall₂_same.2 fun _ _ => ⟨rfl, hplace⟩)
    | lambda params body =>
      refine .lambda fun w₁ hw₁ vs vs' hvs => .bindArguments rfl hvs ?_ trivial
      intro _ w₂ hw₂ s t hst
      have hcall := hst.add (.some (hplace.mono (le_trans hw₁ hw₂)))
      have hargs := Likeness.forall₂_values_mono (le_trans hw₂ Placing.le_push) hvs
      exact ⟨w₂.push, Placing.le_push, hcall.defineAll hst.at_next (.zip params hargs),
        List.forall₂_same.2 fun _ _ => ⟨rfl, hst.at_next⟩⟩
  nil := trivial
  int _ := trivial
  admits _ _ := trivial
  host := Likeness.host_of_empty

end LineLisp
