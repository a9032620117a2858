/-
  LineLisp.Proofs.Repetition

  Calls that are made again. A call can tell a store from another only by the frames that
  it can reach, and the calls made in between leave all frames alone that were there
  before. So a call that is made again has the same outcome, but for the numbers of the
  frames that it makes: these come behind the frames of the calls in between. The two
  calls run alike in stores of which the second has a gap where those frames are.
-/
import LineLisp.Proofs.FrameEffect
import LineLisp.Proofs.SessionStore
import LineLisp.Proofs.Simulation
import Mathlib.Data.Nat.Basic

namespace LineLisp

variable {η ν α β : Type}

-- ============================================================================
-- Moving frames
-- ============================================================================

/-- The number of a frame in a store that has a gap of some frames at a base. -/
def shift (base gap f : Nat) : Nat :=
  if f < base then f else f + gap

section

variable {base gap f g : Nat}

theorem shift_of_lt (h : f < base) : shift base gap f = f := if_pos h

theorem shift_of_le (h : base ≤ f) : shift base gap f = f + gap := if_neg (Nat.not_lt.2 h)

theorem le_shift : f ≤ shift base gap f := by
  unfold shift
  split <;> omega

theorem shift_inj : shift base gap f = shift base gap g ↔ f = g := by
  unfold shift
  split <;> split <;> omega

end

/-- A value with its frame moved. -/
def Value.moved (move : Nat → Nat) : Value η → Value η
  | .datum e => .datum e
  | .closure params body scope => .closure params body (move scope)
  | .primitive name operation => .primitive name operation

@[simp] theorem Value.text_moved (move : Nat → Nat) (v : Value η) :
    Written.text (v.moved move) = Written.text v := by
  cases v <;> rfl

@[simp] theorem Value.fits_moved (move : Nat → Nat) (v : Value η) :
    Written.fits (v.moved move) = Written.fits v := by
  cases v <;> rfl

/-- The second value is the first one with its frame moved. -/
def Value.MovesTo (move : Nat → Nat) (v w : Value η) : Prop :=
  w = v.moved move

theorem biUnique_eq : Relator.BiUnique (Eq : α → α → Prop) :=
  ⟨fun _ _ _ h h' => h.trans h'.symm, fun _ _ _ h h' => h.symm.trans h'⟩

/-- Corresponding names in the same order, with corresponding values. -/
structure Bindings.AgreesBy (N : String → String → Prop) (R : ν → ν → Prop) (bs cs : Bindings ν) :
    Prop where
  names : List.Forall₂ N bs.names cs.names
  get? : ∀ name name', N name name' → Option.Rel R (bs.get? name) (cs.get? name')

/-- The same names in the same order, with corresponding values. -/
structure Bindings.Agrees (R : ν → ν → Prop) (bs cs : Bindings ν) : Prop where
  names : bs.names = cs.names
  get? : ∀ name, Option.Rel R (bs.get? name) (cs.get? name)

namespace Bindings.AgreesBy

variable {N : String → String → Prop} {R R' : ν → ν → Prop} {bs cs : Bindings ν}

theorem nil : Bindings.AgreesBy N R [] [] := ⟨.nil, fun _ _ _ => .none⟩

theorem imp (hR : ∀ v w, R v w → R' v w) (h : bs.AgreesBy N R cs) : bs.AgreesBy N R' cs := by
  refine ⟨h.names, fun name name' hname => ?_⟩
  have hget := h.get? name name' hname
  generalize bs.get? name = a at hget
  generalize cs.get? name' = b at hget
  cases hget with
  | none => exact .none
  | some hvw => exact .some (hR _ _ hvw)

/-- Binding corresponding names keeps the order of names, if each name corresponds to one
    other at most. -/
theorem define (hN : Relator.BiUnique N) (h : bs.AgreesBy N R cs) {name name' : String}
    (hname : N name name') {v w : ν} (hvw : R v w) :
    (bs.define name v).AgreesBy N R (cs.define name' w) where
  names := by
    have hmem : name ∈ bs.names ↔ name' ∈ cs.names := List.rel_mem hN hname h.names
    rw [names_define, names_define]
    simp only [hmem]
    split
    · exact h.names
    · exact List.rel_append h.names (.cons hname .nil)
  get? other other' hother := by
    have hsame : other = name ↔ other' = name' := Relator.rel_eq hN hother hname
    by_cases heq : other = name
    · obtain rfl := hsame.1 heq
      rw [heq, get?_define_self, get?_define_self]
      exact .some hvw
    · rw [get?_define_of_ne heq, get?_define_of_ne fun heq' => heq (hsame.2 heq')]
      exact h.get? other other' hother

end Bindings.AgreesBy

theorem Bindings.agreesBy_eq_iff {R : ν → ν → Prop} {bs cs : Bindings ν} :
    bs.AgreesBy Eq R cs ↔ bs.Agrees R cs := by
  constructor
  · intro h
    have hnames := h.names
    rw [List.forall₂_eq_eq_eq] at hnames
    exact ⟨hnames, fun name => h.get? name name rfl⟩
  · rintro ⟨hnames, hget⟩
    refine ⟨hnames ▸ List.forall₂_refl _, ?_⟩
    rintro name _ rfl
    exact hget name

namespace Bindings.Agrees

variable {R R' : ν → ν → Prop} {bs cs : Bindings ν}

theorem nil : Bindings.Agrees R [] [] := ⟨rfl, fun _ => .none⟩

theorem imp (hR : ∀ v w, R v w → R' v w) (h : bs.Agrees R cs) : bs.Agrees R' cs :=
  agreesBy_eq_iff.1 ((agreesBy_eq_iff.2 h).imp hR)

theorem define (h : bs.Agrees R cs) (name : String) {v w : ν} (hvw : R v w) :
    (bs.define name v).Agrees R (cs.define name w) :=
  agreesBy_eq_iff.1 ((agreesBy_eq_iff.2 h).define biUnique_eq rfl hvw)

end Bindings.Agrees

/-- Closures capture frames below a bound. -/
def Value.CapturesBelow (bound : Nat) (v : Value η) : Prop :=
  ∀ params body scope, v = .closure params body scope → scope < bound

-- ============================================================================
-- Stores with a gap
-- ============================================================================

/-- Code is the same in frames that correspond across the gap and exist. -/
def SameCode (base gap bound : Nat) (n : Node) (f : Nat) (m : Node) (g : Nat) : Prop :=
  m = n ∧ g = shift base gap f ∧ f < bound

theorem SameCode.mono {base gap bound bound' : Nat} (hle : bound ≤ bound') {n m : Node}
    {f g : Nat} (h : SameCode base gap bound n f m g) : SameCode base gap bound' n f m g :=
  ⟨h.1, h.2.1, Nat.lt_of_lt_of_le h.2.2 hle⟩

/-- Values that are the same but for the gap. -/
abbrev Value.Across (base gap bound : Nat) : Value η → Value η → Prop :=
  Value.Alike (fun _ => True) (SameCode base gap bound)

theorem Value.across_iff {base gap bound : Nat} {v w : Value η} :
    v.Across base gap bound w ↔
      v.MovesTo (shift base gap) w ∧ v.CapturesBelow bound := by
  constructor
  · intro h
    cases h with
    | datum _ => exact ⟨rfl, nofun⟩
    | primitive name operation => exact ⟨rfl, nofun⟩
    | closure hcode =>
      obtain ⟨hsame, rfl, hscope⟩ := hcode
      cases hsame
      refine ⟨rfl, fun params body scope heq => ?_⟩
      cases heq
      exact hscope
  · rintro ⟨rfl, hbelow⟩
    cases v with
    | datum e => exact .datum trivial
    | primitive name operation => exact .primitive name operation
    | closure params body scope => exact .closure ⟨rfl, rfl, hbelow _ _ _ rfl⟩

/-- Values that capture frames before the gap are the same in both stores. -/
theorem Value.across_self {base gap : Nat} {v : Value η} (h : v.CapturesBelow base) :
    v.Across base gap base v := by
  refine Value.across_iff.2 ⟨?_, h⟩
  cases v with
  | datum e => rfl
  | primitive name operation => rfl
  | closure params body scope =>
    rw [Value.MovesTo, Value.moved, shift_of_lt (h params body scope rfl)]

/-- Stores of which the second has a gap: its frames correspond to those of the first,
    lie in corresponding frames and bind the same names to corresponding values. What is
    bound in the gap is left open. -/
structure Store.Across (base gap bound : Nat) (s t : Store (Value η)) : Prop where
  base_le : base ≤ bound
  next : s.next = bound
  next' : t.next = bound + gap
  wellFormed : s.WellFormed
  parent : ∀ f, t.parent? (shift base gap f) = (s.parent? f).map (shift base gap)
  bindings : ∀ f,
    (s.bindings f).Agrees (Value.Across base gap bound) (t.bindings (shift base gap f))

namespace Store.Across

variable {base gap bound : Nat} {s t : Store (Value η)} {f : Nat}

theorem shift_next (h : s.Across base gap bound t) : shift base gap s.next = t.next := by
  rw [h.next, h.next', shift_of_le h.base_le]

theorem ancestry (h : s.Across base gap bound t) (n f : Nat) :
    t.ancestry n (shift base gap f) = (s.ancestry n f).map (shift base gap) := by
  induction n generalizing f with
  | zero => rfl
  | succ n ih =>
    simp only [Store.ancestry, h.parent f, List.map_cons]
    cases s.parent? f with
    | none => rfl
    | some outer => simp only [Option.map_some, ih outer]

/-- The chains of corresponding frames correspond. A frame comes later in the second
    store, so the chain is given room enough there. -/
theorem chain (h : s.Across base gap bound t) (f : Nat) :
    t.chain (shift base gap f) = (s.chain f).map (shift base gap) := by
  have hroom : f < shift base gap f + 1 := Nat.lt_succ_of_le le_shift
  rw [Store.chain, h.ancestry, ancestry_eq_chain h.wellFormed hroom]

theorem get? (h : s.Across base gap bound t) (f : Nat) (name : String) :
    Option.Rel (Value.Across base gap bound) (s.get? f name) (t.get? (shift base gap f) name) :=
  (h.bindings f).get? name

theorem lookup? (h : s.Across base gap bound t) (f : Nat) (name : String) :
    Option.Rel (Value.Across base gap bound) (s.lookup? f name)
      (t.lookup? (shift base gap f) name) := by
  have hbound : ∀ g, (t.get? (shift base gap g) name).isSome = (s.get? g name).isSome := fun g =>
    (isSome_eq_of_rel (h.get? g name)).symm
  have hfind : t.find? (shift base gap f) name = (s.find? f name).map (shift base gap) := by
    rw [Store.find?, Store.find?, h.chain, List.find?_map]
    simp only [Function.comp_def, hbound]
  rw [Store.lookup?, Store.lookup?, hfind]
  cases s.find? f name with
  | none => exact .none
  | some g => exact h.get? g name

theorem shift_lt (h : s.Across base gap bound t) : shift base gap f < t.next ↔ f < s.next := by
  have hbase := h.base_le
  rw [h.next, h.next', shift]
  split <;> omega

theorem define (h : s.Across base gap bound t) (f : Nat) (name : String) {v w : Value η}
    (hvw : v.Across base gap bound w) :
    (s.define f name v).Across base gap bound (t.define (shift base gap f) name w) where
  base_le := h.base_le
  next := by rw [next_define, h.next]
  next' := by rw [next_define, h.next']
  wellFormed := h.wellFormed.define f name v
  parent g := by rw [parent?_define, parent?_define, h.parent]
  bindings g := by
    by_cases hg : g = f
    · subst hg
      by_cases hlt : g < s.next
      · rw [bindings_define_self hlt, bindings_define_self (h.shift_lt.2 hlt)]
        exact (h.bindings g).define name hvw
      · -- Beyond the last frame nothing is bound, before and after.
        have hlt' : ¬ shift base gap g < t.next := fun hin => hlt (h.shift_lt.1 hin)
        rw [bindings_eq_nil (by simpa using hlt), bindings_eq_nil (by simpa using hlt')]
        exact .nil
    · have hg' : shift base gap g ≠ shift base gap f := fun heq => hg (shift_inj.1 heq)
      rw [bindings_define_of_ne hg, bindings_define_of_ne hg']
      exact h.bindings g

theorem defineAll (h : s.Across base gap bound t) (f : Nat) {bs cs : Bindings (Value η)}
    (hbs : bs.Rel (Value.Across base gap bound) cs) :
    (s.defineAll f bs).Across base gap bound (t.defineAll (shift base gap f) cs) := by
  induction hbs generalizing s t with
  | nil => exact h
  | @cons b c bs cs hbc _ ih =>
    obtain ⟨name, v⟩ := b
    obtain ⟨name', w⟩ := c
    obtain ⟨rfl, hvw⟩ : name = name' ∧ v.Across base gap bound w := hbc
    exact ih (h.define f name hvw)

/-- The next frames of both stores correspond. -/
theorem newChild (h : s.Across base gap bound t) {scope : Nat} (hscope : scope < bound) :
    (s.newChild scope).2.Across base gap (bound + 1) (t.newChild (shift base gap scope)).2 where
  base_le := Nat.le_succ_of_le h.base_le
  next := by rw [Store.newChild, next_add, h.next]
  next' := by rw [Store.newChild, next_add, h.next', Nat.add_right_comm]
  wellFormed := h.wellFormed.add fun g hg => by
    cases hg
    exact h.next ▸ hscope
  parent f := by
    show (t.add _).parent? _ = ((s.add _).parent? f).map _
    by_cases hf : f = s.next
    · subst hf
      rw [h.shift_next, parent?_add_self, parent?_add_self, Option.map_some]
    · have hf' : shift base gap f ≠ t.next := by
        rw [← h.shift_next]
        exact fun heq => hf (shift_inj.1 heq)
      rw [parent?_add_of_ne hf, parent?_add_of_ne hf', h.parent]
  bindings f := by
    rw [Store.newChild, Store.newChild, bindings_add, bindings_add]
    exact (h.bindings f).imp fun v w hvw => hvw.imp fun n f m g => SameCode.mono (Nat.le_succ _)

end Store.Across

/-- A store and what becomes of it without a change to its frames: the gap is where the
    new frames are. -/
theorem Store.AgreesOutside.across {s t : Store (Value η)} (h : s.AgreesOutside [] t)
    (hwf : s.WellFormed) (hcaptured : s.Captured) :
    s.Across s.next (t.next - s.next) s.next t where
  base_le := Nat.le_refl _
  next := rfl
  next' := (Nat.add_sub_cancel' h.1).symm
  wellFormed := hwf
  parent f := by
    by_cases hf : f < s.next
    · rw [shift_of_lt hf, (h.2 f hf).1]
      cases hparent : s.parent? f with
      | none => rfl
      | some g =>
        have hg : g < s.next := Nat.lt_trans (hwf f g hparent) hf
        rw [Option.map_some, shift_of_lt hg]
    · have hle : s.next ≤ f := Nat.le_of_not_lt hf
      have hbehind : t.next ≤ f + (t.next - s.next) := by omega
      rw [shift_of_le hle, parent?_eq_none hle, parent?_eq_none hbehind, Option.map_none]
  bindings f := by
    by_cases hf : f < s.next
    · rw [shift_of_lt hf, (h.2 f hf).2 List.not_mem_nil]
      refine ⟨rfl, fun name => ?_⟩
      cases hget : (s.bindings f).get? name with
      | none => exact .none
      | some v =>
        have hbelow : v.CapturesBelow s.next := fun params body scope hv =>
          hcaptured f name params body scope (hv ▸ hget)
        exact .some (Value.across_self hbelow)
    · have hle : s.next ≤ f := Nat.le_of_not_lt hf
      have hbehind : t.next ≤ f + (t.next - s.next) := by omega
      rw [shift_of_le hle, bindings_eq_nil hle, bindings_eq_nil hbehind]
      exact .nil

-- ============================================================================
-- Runs across a gap
-- ============================================================================

/-- Likeness across a gap. The stage is the number of frames of the first store. -/
def gapLikeness (base gap : Nat) : Likeness Empty Nat where
  Data _ := True
  Codes := SameCode base gap
  Stores bound := Store.Across base gap bound
  Admits _ := True
  codes_mono hle := SameCode.mono hle

theorem gapLikeness_closed (base gap : Nat) : (gapLikeness base gap).Closed where
  steps := by
    rintro bound n f m g ⟨rfl, rfl, hf⟩
    cases m with
    | literal e => exact .literal trivial
    | lookup name => exact .lookup (.lookup (fun _ _ s t hst => hst.lookup? f name) trivial)
    | branch c t e => exact .branch ⟨rfl, rfl, hf⟩ ⟨rfl, rfl, hf⟩ ⟨rfl, rfl, hf⟩
    | assign name n =>
      refine .assign ⟨rfl, rfl, hf⟩ fun bound' _ v v' hv => .update fun _ hle s t hst => ?_
      exact hst.define f name (hv.mono hle)
    | apply n args =>
      exact .apply ⟨rfl, rfl, hf⟩ (List.forall₂_same.2 fun _ _ => ⟨rfl, rfl, hf⟩)
    | hole => exact .hole trivial
    | lambda params body =>
      refine .lambda fun bound' hle vs vs' hvs => .bindArguments rfl hvs ?_ trivial
      intro _ bound'' hle' s t hst
      have hscope : f < bound'' := Nat.lt_of_lt_of_le hf (Nat.le_trans hle hle')
      have hargs := Likeness.forall₂_values_mono (Nat.le_succ_of_le hle') hvs
      have hchild := (hst.newChild hscope).defineAll s.next (Bindings.Rel.zip params hargs)
      rw [hst.shift_next] at hchild
      refine ⟨bound'' + 1, Nat.le_succ _, hchild, List.forall₂_same.2 fun n _ => ?_⟩
      exact ⟨rfl, hst.shift_next.symm, hst.next ▸ Nat.lt_succ_self _⟩
  nil := trivial
  int _ := trivial
  admits _ _ := trivial
  host := Likeness.host_of_empty

-- ============================================================================
-- Calls that are made again
-- ============================================================================

/-- Applies values to arguments, each with its own room, one after the other. A call that
    fails does not keep the next ones from being made. -/
def applyAll [Host η] (calls : List (Nat × Value η × List (Value η))) :
    Run (Value η) (List (Except (Fault (Value η)) (Value η))) :=
  calls.mapM fun (limit, function, args) => Run.settle (function.apply limit args)

/-- What is written of a result: the text of a value if all its integers can be written,
    or the message of a fault as it is seen from outside. -/
def shownResult : Except (Fault (Value η)) (Value η) → Except String (Option String)
  | .ok v => .ok (Written.text? v)
  | .error fault => .error fault.settled.message

/-- The second of two outcomes is the first one with its frames moved: equal data, or
    closures with equal code in corresponding frames, or the same fault with the same
    data. As many frames have come about; corresponding frames lie in corresponding ones
    and bind the same names to corresponding values. -/
structure OutcomeMovesTo (move : Nat → Nat)
    (x y : Except (Fault (Value η)) (Value η) × Store (Value η)) : Prop where
  result : Result.Rel (Value.MovesTo move) (Value.MovesTo move) x.1 y.1
  shown : shownResult y.1 = shownResult x.1
  next : y.2.next = move x.2.next
  parent : ∀ f, y.2.parent? (move f) = (x.2.parent? f).map move
  bindings : ∀ f, (x.2.bindings f).Agrees (Value.MovesTo move) (y.2.bindings (move f))

/-- Values of which the same is written. -/
def Value.SameText (v w : Value η) : Prop :=
  Written.text w = Written.text v ∧ Written.fits w = Written.fits v

theorem Value.sameText_moved (move : Nat → Nat) (v : Value η) : v.SameText (v.moved move) :=
  ⟨v.text_moved move, v.fits_moved move⟩

/-- What is written of a closure shows nothing of it. -/
theorem Value.Alike.sameText {Data : Expr → Prop} {Codes : Node → Nat → Node → Nat → Prop}
    {v w : Value η} (h : v.Alike Data Codes w) : v.SameText w := by
  cases h with
  | datum _ => exact ⟨rfl, rfl⟩
  | closure _ => exact ⟨rfl, rfl⟩
  | primitive _ _ => exact ⟨rfl, rfl⟩

section

variable {R : Value η → Value η → Prop} {f g : Fault (Value η)}
  {r r' : Except (Fault (Value η)) (Value η)}

theorem Fault.Rel.fits_eq (hR : ∀ v w, R v w → v.SameText w) (h : f.Rel R g) :
    g.fits = f.fits := by
  cases h with
  | notApplicable hvw => exact (hR _ _ hvw).2
  | notInteger function position hvw => exact (hR _ _ hvw).2
  | _ => rfl

theorem Fault.Rel.message_eq (hR : ∀ v w, R v w → v.SameText w) (h : f.Rel R g) :
    g.message = f.message := by
  cases h with
  | notApplicable hvw => exact congrArg ("cannot apply non-function " ++ ·) (hR _ _ hvw).1
  | notInteger function position hvw =>
    exact congrArg (function ++ " argument[" ++ position.repr ++ "] is not int: " ++ ·)
      (hR _ _ hvw).1
  | _ => rfl

/-- Of results that correspond the same is shown, if of corresponding values the same is
    written. -/
theorem Result.Rel.shown_eq (hR : ∀ v w, R v w → v.SameText w) (h : Result.Rel R R r r') :
    shownResult r' = shownResult r := by
  cases h with
  | ok hvw => simp only [shownResult, Written.text?, (hR _ _ hvw).1, (hR _ _ hvw).2]
  | error hfault =>
    simp only [shownResult, Fault.settled, hfault.fits_eq hR]
    split
    · rw [hfault.message_eq hR]
    · rfl

/-- Moving frames does not show. -/
theorem Result.Rel.shown_moved {move : Nat → Nat}
    (h : Result.Rel (Value.MovesTo move) (Value.MovesTo move) r r') :
    shownResult r' = shownResult r := by
  refine h.shown_eq fun v w hvw => ?_
  rw [hvw]
  exact v.sameText_moved move

end

theorem Run.Touches.settle {touched : List Nat} {x : Run ν α} (h : x.Touches touched) :
    x.settle.Touches touched := fun s => h s

theorem applyAll_touches [Host η] (calls : List (Nat × Value η × List (Value η))) :
    Run.Touches [] (applyAll calls) :=
  .mapM (fun (limit, function, args) => (Value.apply_touches limit function args).settle) calls

/-- Repeated calls. A value is applied to arguments in a store in which, as among them,
    closures capture frames that exist; then any other calls are made, which may fail; then
    it is applied to the same arguments again, with the same room. The outcome is the same
    but for the frames made by the calls, which come later by as many as there were in
    between. -/
theorem repeated_call_has_same_outcome {s : Store (Value Empty)} (hwf : s.WellFormed)
    (hcaptured : s.Captured) {function : Value Empty} {args : List (Value Empty)}
    (hbelow : ∀ v ∈ function :: args, v.CapturesBelow s.next) (limit : Nat)
    (calls : List (Nat × Value Empty × List (Value Empty))) :
    let first := (function.apply limit args).outcome s
    let between := ((applyAll calls).outcome first.2).2
    let again := (function.apply limit args).outcome between
    ∃ move : Nat → Nat,
      ((∀ f < s.next, move f = f) ∧ ∀ k, move (s.next + k) = between.next + k) ∧
      OutcomeMovesTo move first again := by
  intro first between again
  let gap := between.next - s.next
  have hagrees : s.AgreesOutside [] between :=
    (Value.apply_touches limit function args s).trans (applyAll_touches calls first.2)
  have hvalues : ∀ v ∈ function :: args, (gapLikeness s.next gap).Values s.next v v :=
    fun v hv => Value.across_self (hbelow v hv)
  obtain ⟨hfunction, hargs⟩ := List.forall_mem_cons.1 hvalues
  obtain ⟨bound, -, hstores, hends⟩ := ((gapLikeness_closed s.next gap).alike limit).2 s.next
    function function args args hfunction (List.forall₂_same.2 hargs) s.next le_rfl s between
    (hagrees.across hwf hcaptured)
  have hmoves : ∀ v w : Value Empty, v.Across s.next gap bound w → v.MovesTo (shift s.next gap) w :=
    fun v w h => (Value.across_iff.1 h).1
  refine ⟨shift s.next gap, ⟨fun f => shift_of_lt, fun k => ?_⟩, ?_⟩
  · rw [shift_of_le (Nat.le_add_right s.next k)]
    have hle : s.next ≤ between.next := hagrees.1
    omega
  · have hresult := hends.result.imp hmoves
    exact ⟨hresult, hresult.shown_moved, hstores.shift_next.symm, hstores.parent,
      fun f => (hstores.bindings f).imp hmoves⟩

theorem Store.captured_empty : (Store.empty : Store (Value η)).Captured :=
  fun f _ _ _ _ hv => absurd (Store.lt_next_of_get? hv) (Nat.not_lt_zero f)

theorem hostConfined_empty {κ : Type} : HostConfined Empty κ := nofun

/-- A closure that adds one to the number of the frame around it, and yields a closure of
    the new number. Calls of it do not count: after calls of which some fail, it yields a
    closure of the same number, in a frame made later. -/
theorem counter_starts_over :
    let start := Session.start (Store.empty : Store (Value Empty))
    let line :=
      "(set make (lambda (n) (lambda () (set n (add n 1)) (lambda () n)))) (set count (make 5))"
    let s := (Run.outcome (start.1.evalLines [(9, line)]) start.2).2
    let next : Node := .apply (.lookup "add") [.lookup "n", .literal (.int 1)]
    let count : Value Empty := .closure [] [.assign "n" next, .lambda [] [.lookup "n"]] 1
    let calls : List (Nat × Value Empty × List (Value Empty)) :=
      [(9, count, []), (9, count, [.int 1]), (2, count, []), (9, .nil, []),
        (9, .closure [] [.assign "n" (.literal (.int 0))] 1, [])]
    let first := (count.apply 9 []).outcome s
    let between := ((applyAll calls).outcome first.2).2
    let again := (count.apply 9 []).outcome between
    s.get? 0 "count" = some count ∧ s.WellFormed ∧ s.Captured ∧ count.CapturesBelow s.next ∧
      (s.next = 2 ∧ between.next = 6) ∧
      first.1.toOption = some (.closure [] [.lookup "n"] 2) ∧
      again.1.toOption = some (.closure [] [.lookup "n"] 6) ∧
      again.2.get? 6 "n" = some (.int 6) ∧ shownResult again.1 = shownResult first.1 := by
  intro start line s next count calls first between again
  have hstart : SessionStore start.1.root start.2 :=
    (SessionStore.newRoot Store.wellFormed_empty Store.captured_empty
      fun b => isClosure_of_mem_builtins).1
  have hs : SessionStore start.1.root s := hstart.last hostConfined_empty _
  obtain ⟨hcount, hnext, hnext', hfirst, hagain, hnumber⟩ :
      s.get? 0 "count" = some count ∧ s.next = 2 ∧ between.next = 6 ∧
        first.1.toOption = some (.closure [] [.lookup "n"] 2) ∧
        again.1.toOption = some (.closure [] [.lookup "n"] 6) ∧
        again.2.get? 6 "n" = some (.int 6) := by
    decide +kernel
  have hbelow : count.CapturesBelow s.next := by
    intro params body scope heq
    obtain rfl : 1 = scope := (Value.closure.inj heq).2.2
    rw [hnext]
    exact Nat.one_lt_two
  obtain ⟨move, -, hmoves⟩ := repeated_call_has_same_outcome hs.wellFormed hs.captured
    (List.forall_mem_singleton.2 hbelow) 9 calls
  exact ⟨hcount, hs.wellFormed, hs.captured, hbelow, ⟨hnext, hnext'⟩, hfirst, hagain, hnumber,
    hmoves.shown⟩

end LineLisp
