/-
  LineLisp.Proofs.Limit

  The limit on nesting. More room does not change a run that had enough: whatever
  a run comes to under one limit, other than a lack of room, it comes to under
  every larger limit, with the same store. The ways of making runs carry this
  over from the parts to the whole; the runs of nodes and the applications then
  follow by one induction on the limit. Reading tokens keeps to its own limit in
  the same way, by induction on the tokens. So a limit decides no more than
  whether there is room.
-/
import LineLisp.Evaluation
import Mathlib.Data.Nat.Find

namespace LineLisp

variable {η ν α β : Type}

/-- Whether an outcome is a lack of room. -/
def Outcome.Overflows (out : Except (Fault ν) α × Store ν) : Prop :=
  out.1 = .error .tooDeep

instance [DecidableEq ν] [DecidableEq α] (out : Except (Fault ν) α × Store ν) :
    Decidable (Outcome.Overflows out) :=
  inferInstanceAs (Decidable (_ = _))

/-- The second run does the same as the first wherever the first has enough room. -/
def Run.Extends (x y : Run ν α) : Prop :=
  ∀ s, ¬ Outcome.Overflows (x.outcome s) → y.outcome s = x.outcome s

namespace Run.Extends

theorem refl (x : Run ν α) : x.Extends x := fun _ _ => rfl

theorem trans {x y z : Run ν α} (hxy : x.Extends y) (hyz : y.Extends z) : x.Extends z := by
  intro s hx
  have hy : y.outcome s = x.outcome s := hxy s hx
  rw [hyz s (hy ▸ hx), hy]

/-- A lack of room is extended by everything. -/
theorem tooDeep (y : Run ν α) : Run.Extends (.fail .tooDeep) y :=
  fun _ h => absurd rfl h

theorem bind {x y : Run ν α} {f g : α → Run ν β} (hxy : x.Extends y)
    (hfg : ∀ a, (f a).Extends (g a)) : (x >>= f).Extends (y >>= g) := by
  intro s h
  rw [outcome_bind] at h ⊢
  rw [outcome_bind]
  have hfirst := hxy s
  rcases hx : x.outcome s with ⟨r, s'⟩
  rw [hx] at h hfirst
  cases r with
  | error fault =>
    -- The first part has not overflowed, since the whole has its outcome.
    have hroom : ¬ Outcome.Overflows ((.error fault : Except (Fault ν) α), s') := by
      intro hover
      cases hover
      exact h rfl
    rw [hfirst hroom]
  | ok a =>
    have hroom : ¬ Outcome.Overflows ((.ok a : Except (Fault ν) α), s') := nofun
    rw [hfirst hroom]
    exact hfg a s' h

theorem attempt {x y : Run ν α} (hxy : x.Extends y) : x.attempt.Extends y.attempt := by
  intro s h
  have hroom : ¬ Outcome.Overflows (x.outcome s) := by
    intro hover
    refine h ?_
    rw [Outcome.Overflows, outcome_attempt, hover]
    rfl
  rw [outcome_attempt, outcome_attempt, hxy s hroom]

theorem mapM {f g : β → Run ν α} (h : ∀ b, (f b).Extends (g b)) (bs : List β) :
    (bs.mapM f).Extends (bs.mapM g) := by
  induction bs with
  | nil =>
    rw [List.mapM_nil, List.mapM_nil]
    exact refl _
  | cons b bs ih =>
    rw [List.mapM_cons, List.mapM_cons]
    exact (h b).bind fun a => ih.bind fun as => refl _

theorem foldlM {f g : α → β → Run ν α} (h : ∀ a b, (f a b).Extends (g a b)) (bs : List β)
    (a : α) : (bs.foldlM f a).Extends (bs.foldlM g a) := by
  induction bs generalizing a with
  | nil =>
    rw [List.foldlM_nil, List.foldlM_nil]
    exact refl _
  | cons b bs ih =>
    rw [List.foldlM_cons, List.foldlM_cons]
    exact (h a b).bind fun a' => ih a'

theorem action {call call' : ν → List ν → Run ν ν}
    (h : ∀ f args, (call f args).Extends (call' f args)) (a : Action ν) :
    (a.run call).Extends (a.run call') := by
  induction a with
  | yield v => exact refl _
  | refuse fault => exact refl _
  | tell line next ih => exact (refl _).bind fun _ => ih
  | ask next ih => exact fun s hroom => ih s.journal s hroom
  | call f args next ih => exact (h f args).bind fun v => ih v
  | attempt f args next ih => exact (h f args).attempt.bind fun r => ih r

end Run.Extends

-- ============================================================================
-- Nodes and applications
-- ============================================================================

/-- One level of room more extends the runs of all nodes and all applications. -/
theorem extends_succ [Host η] (limit : Nat) :
    (∀ (node : Node) (frame : Nat),
      Run.Extends (node.evaluate limit frame : Run (Value η) (Value η))
        (node.evaluate (limit + 1) frame)) ∧
    (∀ (function : Value η) (args : List (Value η)),
      (function.apply limit args).Extends (function.apply (limit + 1) args)) := by
  induction limit with
  | zero =>
    constructor
    · intro node frame
      rw [Node.evaluate]
      exact .tooDeep _
    · intro function args
      rw [Value.apply]
      exact .tooDeep _
  | succ limit ih =>
    obtain ⟨ihnode, ihapply⟩ := ih
    constructor
    · intro node frame
      cases node with
      | literal datum => exact .refl _
      | lookup name => exact .refl _
      | lambda params body => exact .refl _
      | hole => exact .refl _
      | branch condition consequent alternative =>
        rw [Node.evaluate, Node.evaluate]
        refine (ihnode condition frame).bind fun chosen => ?_
        split
        · exact ihnode alternative frame
        · exact ihnode consequent frame
      | assign name value =>
        rw [Node.evaluate, Node.evaluate]
        exact (ihnode value frame).bind fun v => .refl _
      | apply function args =>
        rw [Node.evaluate, Node.evaluate]
        refine (ihnode function frame).bind fun f => ?_
        exact (Run.Extends.mapM (fun arg => ihnode arg frame) args).bind fun vs => ihapply f vs
    · intro function args
      cases function with
      | datum e => exact .refl _
      | closure params body scope =>
        rw [Value.apply, Value.apply]
        refine (Run.Extends.refl _).bind fun frame => ?_
        exact .foldlM (fun _ node => ihnode node frame) body .nil
      | primitive name operation =>
        cases operation with
        | add => exact .refl _
        | host function =>
          rw [Value.apply, Value.apply]
          exact .action ihapply (Host.act function args)

theorem Node.evaluate_extends [Host η] {m n : Nat} (h : m ≤ n) (node : Node) (frame : Nat) :
    Run.Extends (node.evaluate m frame : Run (Value η) (Value η)) (node.evaluate n frame) := by
  induction h with
  | refl => exact .refl _
  | step _ ih => exact ih.trans ((extends_succ _).1 node frame)

theorem Value.apply_extends [Host η] {m n : Nat} (h : m ≤ n) (function : Value η)
    (args : List (Value η)) : (function.apply m args).Extends (function.apply n args) := by
  induction h with
  | refl => exact .refl _
  | step _ ih => exact ih.trans ((extends_succ _).2 function args)

-- ============================================================================
-- Reading
-- ============================================================================

/-- Whether reading ended for lack of room. -/
def Expr.ReadOverflows (out : Expr.ReadResult α) : Prop :=
  out.1 = .error .tooDeep

instance [DecidableEq α] (out : Expr.ReadResult α) : Decidable (Expr.ReadOverflows out) :=
  inferInstanceAs (Decidable (_ = _))

/-- More room for open lists does not change what is read with enough of it. The limit is
    looked at only where a list opens. -/
theorem Expr.readLevels_extends {m n : Nat} (h : m ≤ n) (single : Bool) (level : Level)
    (outer : List Level) (tokens : List Token)
    (hroom : ¬ ReadOverflows (readLevels m single level outer tokens)) :
    readLevels n single level outer tokens = readLevels m single level outer tokens := by
  induction tokens generalizing level outer with
  | nil => rfl
  | cons token rest ih =>
    cases hkind : token.kind with
    | space =>
      simp only [readLevels, hkind] at hroom ⊢
      split
      · rfl
      · next hspaced =>
        rw [if_neg hspaced] at hroom
        exact ih _ _ hroom
    | closeParen =>
      simp only [readLevels, hkind] at hroom ⊢
      cases outer with
      | nil => rfl
      | cons parent others =>
        simp only at hroom ⊢
        split
        · rfl
        · next hopen =>
          rw [if_neg hopen] at hroom
          exact ih _ _ hroom
    | openParen =>
      simp only [readLevels, hkind] at hroom ⊢
      split
      · next hready =>
        rw [if_pos hready] at hroom
        by_cases hlimit : outer.length < m
        · rw [if_pos hlimit] at hroom ⊢
          rw [if_pos (Nat.lt_of_lt_of_le hlimit h)]
          exact ih _ _ hroom
        · rw [if_neg hlimit] at hroom
          exact absurd rfl hroom
      · rfl
    | symbol | string | number =>
      simp only [readLevels, hkind] at hroom ⊢
      split
      · next hready =>
        rw [if_pos hready] at hroom
        split
        · next e hatom =>
          rw [hatom] at hroom
          simp only at hroom
          split
          · rfl
          · next hopen =>
            rw [if_neg hopen] at hroom
            exact ih _ _ hroom
        · rfl
        · rfl
      · rfl

-- ============================================================================
-- The theorem
-- ============================================================================

/-- Answers under all limits, of which a limit decides only whether they are an overflow: one
    that is none stays under every larger limit, so that two answers are the same or one of
    them is an overflow; and below some limit all answers are overflows, from it on they are
    all the same, unless no limit is large enough. -/
structure DecidesOverflowOnly {ω : Type} (overflows : ω → Prop) (answer : Nat → ω) : Prop where
  stays : ∀ m n, m ≤ n → ¬ overflows (answer m) → answer n = answer m
  agree : ∀ m n, answer m = answer n ∨ overflows (answer m) ∨ overflows (answer n)
  threshold : (∀ limit, overflows (answer limit)) ∨
    ∃ need, ∀ limit, (limit < need → overflows (answer limit)) ∧
      (need ≤ limit → ¬ overflows (answer limit) ∧ answer limit = answer need)

/-- It is enough that answers stay. -/
theorem DecidesOverflowOnly.of_stays {ω : Type} {overflows : ω → Prop} {answer : Nat → ω}
    (h : ∀ m n, m ≤ n → ¬ overflows (answer m) → answer n = answer m) :
    DecidesOverflowOnly overflows answer where
  stays := h
  agree m n := by
    by_cases hm : overflows (answer m)
    · exact .inr (.inl hm)
    by_cases hn : overflows (answer n)
    · exact .inr (.inr hn)
    rcases Nat.le_total m n with hle | hle
    · exact .inl (h m n hle hm).symm
    · exact .inl (h n m hle hn)
  threshold := by
    classical
    by_cases henough : ∃ limit, ¬ overflows (answer limit)
    · have hfind : ¬ overflows (answer (Nat.find henough)) := Nat.find_spec henough
      refine .inr ⟨Nat.find henough, fun limit => ⟨fun hlt => ?_, fun hle => ?_⟩⟩
      · exact Classical.not_not.1 (Nat.find_min henough hlt)
      · have hsame := h _ limit hle hfind
        exact ⟨hsame ▸ hfind, hsame⟩
    · exact .inl fun limit => Classical.not_not.1 fun hroom => henough ⟨limit, hroom⟩

/-- A limit on nesting decides only whether there is room: for the runs of nodes and for the
    calls of functions, with all that they leave in the store, and for the reading of tokens. -/
theorem limit_decides_overflow_only [Host η] :
    (∀ (node : Node) (frame : Nat) (s : Store (Value η)),
      DecidesOverflowOnly Outcome.Overflows fun limit => (node.evaluate limit frame).outcome s) ∧
    (∀ (function : Value η) (args : List (Value η)) (s : Store (Value η)),
      DecidesOverflowOnly Outcome.Overflows fun limit => (function.apply limit args).outcome s) ∧
    ∀ tokens : List Token,
      DecidesOverflowOnly Expr.ReadOverflows fun limit => Expr.readAll limit tokens := by
  refine ⟨fun node frame s => .of_stays fun m n h hroom => ?_,
    fun function args s => .of_stays fun m n h hroom => ?_,
    fun tokens => .of_stays fun m n h hroom => ?_⟩
  · exact Node.evaluate_extends h node frame s hroom
  · exact Value.apply_extends h function args s hroom
  · exact Expr.readLevels_extends h false (.fresh tokens) [] tokens hroom

/-- A call whose body binds a name and adds: room for four nested runs is needed, and with any
    more of it the value and the bindings are the same. Two lists one inside the other are
    read with every limit from two on. -/
theorem nested_call_needs_room_for_four :
    let node : Node := .apply (.lambda ["x"] [.assign "y" (.lookup "x"),
      .apply (.lookup "add") [.lookup "y", .literal (.int 1)]]) [.literal (.int 2)]
    let s : Store (Value Empty) := Store.empty.newGlobal.2
    let tokens : List Token :=
      [⟨.openParen, "("⟩, ⟨.openParen, "("⟩, ⟨.closeParen, ")"⟩, ⟨.closeParen, ")"⟩]
    Outcome.Overflows ((node.evaluate 3 0).outcome s) ∧
      (∀ limit, 4 ≤ limit → ((node.evaluate limit 0).outcome s).1 = .ok (.int 3) ∧
        ((node.evaluate limit 0).outcome s).2.get? 1 "y" = some (.int 2)) ∧
      Expr.ReadOverflows (Expr.readAll 1 tokens) ∧
      ∀ limit, 2 ≤ limit → (Expr.readAll limit tokens).1 = .ok [.list [.nil]] := by
  intro node s tokens
  obtain ⟨hnodes, -, hreads⟩ := limit_decides_overflow_only (η := Empty)
  have hvalue : ((node.evaluate 4 0).outcome s).1 = .ok (.int 3) := by decide
  have hbound : ((node.evaluate 4 0).outcome s).2.get? 1 "y" = some (.int 2) := by decide
  have hread : (Expr.readAll 2 tokens).1 = .ok [.list [.nil]] := by decide
  refine ⟨by decide, fun limit hlimit => ?_, by decide, fun limit hlimit => ?_⟩
  · have hroom : ¬ Outcome.Overflows ((node.evaluate 4 0).outcome s) := by decide
    rw [(hnodes node 0 s).stays 4 limit hlimit hroom]
    exact ⟨hvalue, hbound⟩
  · have hroom : ¬ Expr.ReadOverflows (Expr.readAll 2 tokens) := by decide
    rw [(hreads tokens).stays 2 limit hlimit hroom]
    exact hread

end LineLisp
