/-
  LineLisp.Proofs.ExactSums

  Adding integers. An expression of integers and additions, one inside the other to any
  depth, yields the sum of all the integers in it, however they are grouped and ordered,
  and running it binds nothing. An addition fails only on an argument that is no integer,
  and then it points at the first one.
-/
import LineLisp.Proofs.CompiledForm
import LineLisp.Proofs.Grammar
import LineLisp.Proofs.StoreHistory
import Mathlib.Algebra.BigOperators.Group.List.Basic
import Mathlib.Algebra.Ring.Int.Defs

namespace LineLisp

variable {η κ : Type}

-- ============================================================================
-- Sums
-- ============================================================================

namespace Expr

/-- The addition of some expressions. -/
def addition (args : List Expr) : Expr := .list (.sym "add" :: args)

/-- Expressions of integers and additions. -/
inductive IsSum : Expr → Prop where
  | int (n : Int) : IsSum (.int n)
  | addition {args : List Expr} (h : ∀ e ∈ args, IsSum e) : IsSum (.addition args)

mutual

/-- The integers in an expression, from left to right. -/
def literals : Expr → List Int
  | .int n => [n]
  | .list items => literalsAll items
  | .sym _ | .str _ | .hole => []

/-- The integers in some expressions, from left to right. -/
def literalsAll : List Expr → List Int
  | [] => []
  | e :: es => e.literals ++ literalsAll es

end

/-- Expressions that differ in how their additions are grouped and ordered. -/
inductive Rearranges : Expr → Expr → Prop where
  | order {args args' : List Expr} (h : args.Perm args') :
    Rearranges (.addition args) (.addition args')
  | group (before inner after : List Expr) :
    Rearranges (.addition (before ++ .addition inner :: after))
      (.addition (before ++ inner ++ after))
  | inside (before after : List Expr) {e e' : Expr} (h : Rearranges e e') :
    Rearranges (.addition (before ++ e :: after)) (.addition (before ++ e' :: after))
  | symm {e e' : Expr} (h : Rearranges e e') : Rearranges e' e
  | trans {e e' e'' : Expr} (h : Rearranges e e') (h' : Rearranges e' e'') : Rearranges e e''

variable {args : List Expr} {e e' : Expr}

theorem literalsAll_eq_flatMap (es : List Expr) : literalsAll es = es.flatMap literals := by
  induction es with
  | nil => rfl
  | cons e es ih => rw [literalsAll, ih, List.flatMap_cons]

theorem literals_addition (args : List Expr) :
    (addition args).literals = args.flatMap literals := by
  rw [addition, literals, literalsAll_eq_flatMap, List.flatMap_cons, literals, List.nil_append]

theorem sum_literals_addition (args : List Expr) :
    (addition args).literals.sum = (args.map fun e => e.literals.sum).sum := by
  rw [literals_addition]
  induction args with
  | nil => rfl
  | cons e args ih => rw [List.flatMap_cons, List.sum_append, ih, List.map_cons, List.sum_cons]

theorem isSum_addition_iff : (addition args).IsSum ↔ ∀ e ∈ args, e.IsSum := by
  constructor
  · intro h
    generalize heq : addition args = e at h
    cases h with
    | int n => cases heq
    | addition hargs =>
      cases heq
      exact hargs
  · exact .addition

theorem depth_addition_lt_iff {limit : Nat} :
    (addition args).depth < limit + 2 ↔ ∀ e ∈ args, e.depth < limit + 1 := by
  have hdepth : (addition args).depth = depthAll args + 1 := by
    rw [addition, depth, depthAll, depth, Nat.zero_max]
  rw [hdepth, Nat.succ_lt_succ_iff, Nat.lt_succ_iff, depthAll_le_iff]
  simp only [Nat.lt_succ_iff]

/-- However a sum is grouped and ordered, it is a sum of the same integers. -/
theorem Rearranges.literals_perm (h : e.Rearranges e') :
    (e.IsSum ↔ e'.IsSum) ∧ e.literals.Perm e'.literals := by
  induction h with
  | @order args args' hperm =>
    rw [isSum_addition_iff, isSum_addition_iff, literals_addition, literals_addition]
    exact ⟨forall_congr' fun e => by rw [hperm.mem_iff], hperm.flatMap_right literals⟩
  | group before inner after =>
    rw [isSum_addition_iff, isSum_addition_iff, literals_addition, literals_addition]
    constructor
    · simp only [List.forall_mem_append, List.forall_mem_cons, isSum_addition_iff, and_assoc]
    · simp only [List.flatMap_append, List.flatMap_cons, literals_addition, List.append_assoc]
      exact .refl _
  | inside before after _ ih =>
    obtain ⟨hsum, hperm⟩ := ih
    rw [isSum_addition_iff, isSum_addition_iff, literals_addition, literals_addition]
    constructor
    · simp only [List.forall_mem_append, List.forall_mem_cons, hsum]
    · simp only [List.flatMap_append, List.flatMap_cons]
      exact (hperm.append_right _).append_left _
  | symm _ ih => exact ⟨ih.1.symm, ih.2.symm⟩
  | trans _ _ ih ih' => exact ⟨ih.1.trans ih'.1, ih.2.trans ih'.2⟩

-- ============================================================================
-- The nodes of sums
-- ============================================================================

theorem compilesTo_addition_iff {node : Node} :
    (addition args).CompilesTo node ↔
      ∃ nodes, List.Forall₂ CompilesTo args nodes ∧ node = .apply (.lookup "add") nodes := by
  have hhead : (Expr.sym "add").special? = none := by decide
  constructor
  · intro h
    generalize heq : addition args = e at h
    cases h.form with
    | apply _ hf hargs =>
      cases heq
      cases hf
      exact ⟨_, hargs, rfl⟩
    | int _ | str _ | sym _ | nil => cases heq
    | choice hspecial _ _ | branch hspecial _ _ _ | assign hspecial _ _ | quote hspecial _
    | lambda hspecial _ _ =>
      cases heq
      rw [hhead] at hspecial
      cases hspecial
  · rintro ⟨nodes, hargs, rfl⟩
    exact (CompiledForm.apply hhead (CompiledForm.sym "add").compilesTo hargs).compilesTo

/-- Sums compile. -/
theorem IsSum.compiles (h : e.IsSum) : ∃ node, e.CompilesTo node := by
  induction h with
  | int n => exact ⟨_, (CompiledForm.int n).compilesTo⟩
  | @addition args _ ih =>
    obtain ⟨nodes, hnodes⟩ := exists_forall₂_iff.2 ih
    exact ⟨_, compilesTo_addition_iff.2 ⟨nodes, hnodes, rfl⟩⟩

end Expr

-- ============================================================================
-- Adding arguments
-- ============================================================================

namespace Value

variable {args : List (Value η κ)} {position : Nat} {v : Value η κ}

/-- Integers in front are added up, and the position moves behind them. -/
theorem sumFrom_ints (total : Int) (position : Nat) (ns : List Int) (others : List (Value η κ)) :
    sumFrom total position (ns.map .int ++ others) =
      sumFrom (total + ns.sum) (position + ns.length) others := by
  induction ns generalizing total position with
  | nil => simp
  | cons n ns ih =>
    have hint : (Value.int n : Value η κ).asInt "add" position = .ok n := rfl
    rw [List.map_cons, List.cons_append, sumFrom, hint]
    simp only
    rw [ih, List.sum_cons, List.length_cons, Int.add_assoc, Nat.add_assoc, Nat.add_comm 1]

/-- Integers have their sum. -/
theorem sum_ints (ns : List Int) : sum (ns.map .int : List (Value η κ)) = .ok (.int ns.sum) := by
  have hsum := sumFrom_ints (η := η) (κ := κ) 0 0 ns []
  rw [List.append_nil, sumFrom, Int.zero_add] at hsum
  rw [sum, hsum]
  rfl

/-- The first of some values that is no integer, with its position. -/
structure FirstOther (args : List (Value η κ)) (position : Nat) (v : Value η κ) : Prop where
  here : args[position]? = some v
  other : ∀ n, v ≠ .int n
  before : ∀ i < position, ∃ n, args[i]? = some (.int n)

/-- There is only one first value that is no integer. -/
theorem FirstOther.unique (h : FirstOther args position v) {position' : Nat} {v' : Value η κ}
    (h' : FirstOther args position' v') : position = position' ∧ v = v' := by
  have hposition : position = position' := by
    rcases Nat.lt_trichotomy position position' with hlt | heq | hlt
    · obtain ⟨n, hn⟩ := h'.before position hlt
      exact absurd (Option.some.inj (h.here.symm.trans hn)) (h.other n)
    · exact heq
    · obtain ⟨n, hn⟩ := h.before position' hlt
      exact absurd (Option.some.inj (h'.here.symm.trans hn)) (h'.other n)
  subst hposition
  exact ⟨rfl, Option.some.inj (h.here.symm.trans h'.here)⟩

/-- Values are integers only, or integers up to the first one that is none. -/
theorem ints_or_firstOther (args : List (Value η κ)) :
    (∃ ns : List Int, args = ns.map .int) ∨
      ∃ (ns : List Int) (v : Value η κ) (others : List (Value η κ)),
        args = ns.map .int ++ v :: others ∧ ∀ n, v ≠ .int n := by
  induction args with
  | nil => exact .inl ⟨[], rfl⟩
  | cons v args ih =>
    cases hint : v.int? with
    | none =>
      refine .inr ⟨[], v, args, rfl, fun n hv => ?_⟩
      rw [int?_eq_some_iff.2 hv] at hint
      cases hint
    | some n =>
      obtain rfl := int?_eq_some_iff.1 hint
      rcases ih with ⟨ns, rfl⟩ | ⟨ns, w, others, rfl, hw⟩
      · exact .inl ⟨n :: ns, rfl⟩
      · exact .inr ⟨n :: ns, w, others, rfl, hw⟩

/-- An addition fails on the first argument that is no integer. -/
theorem sum_eq_error (ns : List Int) (others : List (Value η κ)) (hv : ∀ n, v ≠ .int n) :
    sum (ns.map .int ++ v :: others) = .error (.notInteger "add" ns.length v) := by
  have hint : v.asInt "add" ns.length = .error (.notInteger "add" ns.length v) := by
    have hnone : v.int? = none := by
      cases hsome : v.int? with
      | none => rfl
      | some n => exact absurd (int?_eq_some_iff.1 hsome) (hv n)
    rw [asInt, hnone]
  rw [sum, sumFrom_ints, Nat.zero_add, sumFrom, hint]
  rfl

theorem firstOther_append (ns : List Int) (others : List (Value η κ)) (hv : ∀ n, v ≠ .int n) :
    FirstOther (ns.map .int ++ v :: others) ns.length v where
  here := by
    rw [List.getElem?_append_right (by simp)]
    simp
  other := hv
  before i hi := by
    refine ⟨ns[i], ?_⟩
    rw [List.getElem?_append_left (by simpa using hi)]
    simp [hi]

/-- An addition ends with the sum of its arguments, or with a fault that names the first of
    them that is no integer. -/
theorem sum_cases (args : List (Value η κ)) :
    (∃ ns : List Int, args = ns.map .int ∧ sum args = .ok (.int ns.sum)) ∨
      ∃ position v, FirstOther args position v ∧
        sum args = .error (.notInteger "add" position v) := by
  rcases ints_or_firstOther args with ⟨ns, rfl⟩ | ⟨ns, v, others, rfl, hv⟩
  · exact .inl ⟨ns, rfl, sum_ints ns⟩
  · exact .inr ⟨ns.length, v, firstOther_append ns others hv, sum_eq_error ns others hv⟩

end Value

-- ============================================================================
-- Running sums
-- ============================================================================

section

variable [Host η] {e : Expr} {es : List Expr} {node : Node} {nodes : List Node} {frame : Nat}
  {name : String} {s : Store (Value η)}

/-- The outcome of an expression of integers and additions with this sum: its sum, if there is
    room for its lists. The store stays as it is. -/
def Expr.sumOutcome (e : Expr) (total : Int) (limit : Nat) (s : Store (Value η)) :
    Except (Fault (Value η)) (Value η) × Store (Value η) :=
  (if e.depth < limit then .ok (.int total) else .error .tooDeep, s)

/-- Expressions that run to their sums are run one after the other, up to the first one that
    lacks room. -/
theorem outcome_mapM_sums {limit : Nat} (hnodes : List.Forall₂ Expr.CompilesTo es nodes)
    (h : ∀ e ∈ es, ∀ node, e.CompilesTo node →
      (node.evaluate limit frame).outcome s = e.sumOutcome e.literals.sum limit s) :
    (nodes.mapM fun node => Node.evaluate limit node frame).outcome s =
      (if ∀ e ∈ es, e.depth < limit then .ok (es.map fun e => .int e.literals.sum)
        else .error .tooDeep, s) := by
  induction hnodes with
  | nil => simp
  | @cons e node es nodes hnode _ ih =>
    obtain ⟨hfirst, hothers⟩ := List.forall_mem_cons.1 h
    have hrest := ih hothers
    rw [List.mapM_cons, Run.outcome_bind, hfirst node hnode, Expr.sumOutcome]
    by_cases hdepth : e.depth < limit
    · rw [if_pos hdepth]
      by_cases hall : ∀ e ∈ es, e.depth < limit
      · rw [if_pos hall] at hrest
        have hboth : ∀ f ∈ e :: es, f.depth < limit := List.forall_mem_cons.2 ⟨hdepth, hall⟩
        rw [if_pos hboth]
        simp only [Run.outcome_bind, hrest]
        rfl
      · rw [if_neg hall] at hrest
        rw [if_neg fun h => hall (List.forall_mem_cons.1 h).2]
        simp only [Run.outcome_bind, hrest]
    · rw [if_neg hdepth, if_neg fun hall => hdepth (hall e List.mem_cons_self)]

theorem outcome_apply_add (limit : Nat) (name : String) (args : List (Value η))
    (s : Store (Value η)) :
    (Value.apply (limit + 1) (.primitive name .add) args).outcome s = (Value.sum args, s) := by
  rw [Value.apply, Run.outcome_ofExcept]

/-- The induction is on the sum. An addition looks up its head and runs its arguments with one
    level of room less, and so needs one level more than the deepest of them. -/
theorem Expr.IsSum.outcome_evaluate (h : e.IsSum)
    (hadd : s.lookup? frame "add" = some (.primitive name .add)) (hnode : e.CompilesTo node)
    (limit : Nat) :
    (node.evaluate limit frame).outcome s = e.sumOutcome e.literals.sum limit s := by
  induction h generalizing node limit with
  | int n =>
    cases hnode
    rw [sumOutcome, depth, literals, List.sum_singleton]
    cases limit with
    | zero => rfl
    | succ limit =>
      rw [Node.evaluate, if_pos (Nat.succ_pos _)]
      rfl
  | @addition args _ ih =>
    obtain ⟨nodes, hnodes, rfl⟩ := compilesTo_addition_iff.1 hnode
    rw [sumOutcome]
    -- Without room the addition is not begun, and with one level its head is not.
    rcases limit with _ | _ | limit
    · rfl
    · have hdepth : ¬ (Expr.addition args).depth < 1 := by
        rw [Expr.addition, depth]
        omega
      rw [if_neg hdepth]
      rfl
    · have hhead : (Node.evaluate (limit + 1) (.lookup "add") frame).outcome s =
          (.ok (.primitive name .add), s) := by
        rw [Node.evaluate]
        exact Store.outcome_lookup_of_some hadd
      have hargs :
          (nodes.mapM fun node => Node.evaluate (limit + 1) node frame).outcome s = _ :=
        outcome_mapM_sums hnodes fun e he node hnode => ih e he hnode (limit + 1)
      rw [Node.evaluate, Run.outcome_bind, hhead]
      simp only [Run.outcome_bind, hargs]
      by_cases hall : ∀ e ∈ args, e.depth < limit + 1
      · have hints : (args.map fun e => Value.int e.literals.sum : List (Value η)) =
            (args.map fun e => e.literals.sum).map .int := by
          rw [List.map_map]
          rfl
        rw [if_pos hall, if_pos (depth_addition_lt_iff.2 hall)]
        simp only [outcome_apply_add, hints, Value.sum_ints, sum_literals_addition]
      · rw [if_neg hall, if_neg (mt depth_addition_lt_iff.1 hall)]

end

-- ============================================================================
-- The theorem
-- ============================================================================

/-- An expression compiles, and wherever the name of addition stands for the primitive, its
    node yields an integer and leaves the store as it is. More lists one inside the other
    than the limit allows are a lack of room, and nothing else is. -/
def Expr.Yields (η : Type) [Host η] (e : Expr) (total : Int) : Prop :=
  ∃ node, e.compile = .ok node ∧
    ∀ (frame : Nat) (name : String) (s : Store (Value η)),
      s.lookup? frame "add" = some (.primitive name .add) →
        ∀ limit, (node.evaluate limit frame).outcome s = e.sumOutcome total limit s

/-- What a call of addition comes to: the sum, if all arguments are integers; otherwise a fault
    that names the first argument that is none, and this fault is seen from outside if no
    such argument holds an integer that is too long to be written. -/
structure Value.AddsUp (args : List (Value η)) (out : Except (Fault (Value η)) (Value η)) :
    Prop where
  ok : ∀ ns : List Int, args = ns.map .int → out = .ok (.int ns.sum)
  fails : (∀ v ∈ args, (∀ n, v ≠ .int n) → ¬ v.IsLong) →
    ((∃ function position v,
      out.mapError Fault.settled = .error (.notInteger function position v)) ↔
        ∃ v ∈ args, ∀ n, v ≠ .int n)
  names : (∀ v ∈ args, (∀ n, v ≠ .int n) → ¬ v.IsLong) → ∀ function position v,
    out.mapError Fault.settled = .error (.notInteger function position v) ↔
      function = "add" ∧ Value.FirstOther args position v

theorem Fault.settled_notInteger {v : Value η} (h : ¬ v.IsLong) (function : String)
    (position : Nat) :
    (Fault.notInteger function position v).settled = .notInteger function position v := by
  have hfits : v.fits = true := by
    rw [← Bool.not_eq_false, Value.fits_eq_false_iff]
    exact h
  exact Fault.settled_of_fits hfits

theorem Value.sum_addsUp (args : List (Value η)) : AddsUp args (sum args) := by
  rcases sum_cases args with ⟨ns, rfl, hsum⟩ | ⟨position, v, hfirst, hsum⟩
  · have hall : ∀ v ∈ ns.map (Value.int : Int → Value η), ∃ n, v = .int n := by
      intro v hv
      obtain ⟨n, -, rfl⟩ := List.mem_map.1 hv
      exact ⟨n, rfl⟩
    rw [hsum]
    refine ⟨fun ms hms => ?_, fun _ => ⟨?_, ?_⟩, fun _ function position v => ⟨nofun, ?_⟩⟩
    · rw [← hsum, hms, sum_ints]
    · rintro ⟨_, _, _, hok⟩
      cases hok
    · rintro ⟨v, hv, hother⟩
      obtain ⟨n, hn⟩ := hall v hv
      exact absurd hn (hother n)
    · rintro ⟨-, hfirst⟩
      obtain ⟨n, hn⟩ := hall v (List.mem_of_getElem? hfirst.here)
      exact absurd hn (hfirst.other n)
  · have hv : v ∈ args := List.mem_of_getElem? hfirst.here
    have hseen (hshort : ∀ v ∈ args, (∀ n, v ≠ .int n) → ¬ v.IsLong) :
        (Except.error (.notInteger "add" position v) : Except _ (Value η)).mapError
          Fault.settled = .error (.notInteger "add" position v) :=
      congrArg Except.error (Fault.settled_notInteger (hshort v hv hfirst.other) "add" position)
    rw [hsum]
    refine ⟨fun ns hns => ?_, fun hshort => ?_, fun hshort function position' v' => ?_⟩
    · rw [hns, List.mem_map] at hv
      obtain ⟨n, -, hn⟩ := hv
      exact absurd hn.symm (hfirst.other n)
    · exact ⟨fun _ => ⟨v, hv, hfirst.other⟩, fun _ => ⟨"add", position, v, hseen hshort⟩⟩
    · rw [hseen hshort]
      constructor
      · intro heq
        cases heq
        exact ⟨rfl, hfirst⟩
      · rintro ⟨rfl, hfirst'⟩
        obtain ⟨rfl, rfl⟩ := hfirst.unique hfirst'
        rfl

/-- Sums are exact. An expression of integers and additions yields the sum of all the integers
    in it, and so does every expression that differs from it in how they are grouped and
    ordered. A call of the primitive leaves the store as it is and adds up. -/
theorem sums_are_exact [Host η] :
    (∀ e : Expr, e.IsSum → e.Yields η e.literals.sum) ∧
    (∀ e e' : Expr, e.IsSum → e.Rearranges e' → e'.Yields η e.literals.sum) ∧
    ∀ (name : String) (args : List (Value η)) (limit : Nat) (s : Store (Value η)),
      let out := (Value.apply (limit + 1) (.primitive name .add) args).outcome s
      out.2 = s ∧ Value.AddsUp args out.1 := by
  have hyields : ∀ e : Expr, e.IsSum → e.Yields η e.literals.sum := by
    intro e h
    obtain ⟨node, hnode⟩ := h.compiles
    exact ⟨node, hnode, fun frame name s hadd limit => h.outcome_evaluate hadd hnode limit⟩
  refine ⟨hyields, fun e e' h hrearranges => ?_, fun name args limit s => ?_⟩
  · obtain ⟨hsum, hperm⟩ := hrearranges.literals_perm
    rw [hperm.sum_eq]
    exact hyields e' (hsum.1 h)
  · rw [outcome_apply_add]
    exact ⟨rfl, Value.sum_addsUp args⟩

/-- A sum of three integers with an addition of nothing, three lists deep, and the same
    integers in another order in one list; and a call with a string and a function among its
    arguments, which names the string. -/
theorem nested_sum_is_exact_however_grouped :
    let e : Expr := .addition [.int 5, .addition [], .addition [.int (-2), .addition [.int 10]]]
    let e' : Expr := .addition [.int 10, .int (-2), .int 5]
    let s : Store (Value Empty) := Store.empty.newGlobal.2
    let args : List (Value Empty) := [.int 3, .datum (.str "x"), .primitive "add" .add]
    e.IsSum ∧ e.Rearranges e' ∧ s.lookup? 0 "add" = some (.primitive "add" .add) ∧
      e.Yields Empty 13 ∧ e'.Yields Empty 13 ∧
      Value.AddsUp args ((Value.apply 1 (.primitive "add" .add) args).outcome s).1 ∧
      Value.FirstOther args 1 (.datum (.str "x")) := by
  intro e e' s args
  have hsum : e.IsSum := by
    refine .addition fun f hf => ?_
    simp only [List.mem_cons, List.not_mem_nil, or_false] at hf
    rcases hf with rfl | rfl | rfl
    · exact .int 5
    · exact .addition nofun
    · refine .addition fun g hg => ?_
      simp only [List.mem_cons, List.not_mem_nil, or_false] at hg
      rcases hg with rfl | rfl
      · exact .int (-2)
      · exact .addition fun f hf => by
          obtain rfl := List.mem_singleton.1 hf
          exact .int 10
  have hrearranges : e.Rearranges e' := by
    have hempty := Expr.Rearranges.group [.int 5] []
      [.addition [.int (-2), .addition [.int 10]]]
    have houter := Expr.Rearranges.group [.int 5] [.int (-2), .addition [.int 10]] []
    have hinner := Expr.Rearranges.group [.int 5, .int (-2)] [.int 10] []
    have hreverse : [Expr.int 5, .int (-2), .int 10].Perm [.int 10, .int (-2), .int 5] :=
      (List.reverse_perm [Expr.int 10, .int (-2), .int 5])
    exact hempty.trans (houter.trans (hinner.trans (.order hreverse)))
  obtain ⟨hyields, hsame, hcalls⟩ := sums_are_exact (η := Empty)
  obtain ⟨-, hadds⟩ := hcalls "add" args 0 s
  have hshort : ∀ v ∈ args, (∀ n, v ≠ .int n) → ¬ v.IsLong := by
    intro v hv hother
    simp only [args, List.mem_cons, List.not_mem_nil, or_false] at hv
    rcases hv with rfl | rfl | rfl
    · exact absurd rfl (hother 3)
    · rintro ⟨n, ⟨⟩, -⟩
    · rintro ⟨n, ⟨⟩, -⟩
  have hfault : ((Value.apply 1 (.primitive "add" .add) args).outcome s).1.mapError Fault.settled =
      .error (.notInteger "add" 1 (.datum (.str "x"))) := by decide
  refine ⟨hsum, hrearranges, by decide, hyields e hsum, hsame e e' hsum hrearranges, hadds, ?_⟩
  exact ((hadds.names hshort "add" 1 (.datum (.str "x"))).1 hfault).2

end LineLisp
