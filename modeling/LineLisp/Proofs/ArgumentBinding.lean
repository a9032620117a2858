/-
  LineLisp.Proofs.ArgumentBinding

  What a call begins with. If there are as many arguments as parameters, the call
  gets a new frame inside the one where the closure was made. The frame binds the
  parameters and no other name, a parameter that occurs more than once to the
  argument at its last place. All other names are seen through it, as they are from
  the frame around it at the time when they are looked up.
-/
import LineLisp.Proofs.StoreHistory

namespace LineLisp

variable {ν : Type}

-- ============================================================================
-- Parameters and arguments
-- ============================================================================

namespace Bindings

variable {params before after : List String} {args : List ν} {name : String}

theorem get?_ofDefinitions_append {defined later : List (String × ν)} {value : ν}
    (h : name ∉ later.map Prod.fst) :
    (ofDefinitions (defined ++ (name, value) :: later)).get? name = some value := by
  have hlater : (later.filter fun entry => entry.1 = name) = [] := by
    refine List.filter_eq_nil_iff.2 fun entry hentry heq => h ?_
    rw [← of_decide_eq_true heq]
    exact List.mem_map_of_mem hentry
  rw [get?_ofDefinitions, List.filter_append, List.filter_cons_of_pos (by simp), hlater,
    List.getLast?_concat]
  rfl

/-- The names that parameters bind are themselves, in the order of their first occurrence. -/
theorem names_ofDefinitions_zip (hlength : args.length = params.length) :
    (ofDefinitions (params.zip args)).names = params.eraseDups := by
  rw [names_ofDefinitions, List.map_fst_zip (Nat.le_of_eq hlength.symm)]

/-- A parameter gets the argument at the last place where it occurs. -/
theorem get?_ofDefinitions_zip (hlength : args.length = params.length)
    (hparams : params = before ++ name :: after) (hlast : name ∉ after) :
    ∃ value, args[before.length]? = some value ∧
      (ofDefinitions (params.zip args)).get? name = some value := by
  have hlt : before.length < args.length := by
    rw [hlength, hparams, List.length_append, List.length_cons]
    omega
  have hargs : args = args.take before.length ++
      args[before.length] :: args.drop (before.length + 1) := by
    rw [← List.drop_eq_getElem_cons hlt, List.take_append_drop]
  have hzip : params.zip args = before.zip (args.take before.length) ++
      (name, args[before.length]) :: after.zip (args.drop (before.length + 1)) := by
    conv_lhs => rw [hparams, hargs]
    rw [List.zip_append, List.zip_cons_cons]
    rw [List.length_take, Nat.min_eq_left (Nat.le_of_lt hlt)]
  refine ⟨args[before.length], List.getElem?_eq_getElem hlt, ?_⟩
  rw [hzip]
  refine get?_ofDefinitions_append fun hmem => hlast ?_
  obtain ⟨entry, hentry, rfl⟩ := List.mem_map.1 hmem
  exact (List.of_mem_zip hentry).1

end Bindings

-- ============================================================================
-- The frame of a call
-- ============================================================================

namespace Store

variable {s t : Store ν} {scope frame : Nat} {params : List String} {args : List ν}

/-- What a call makes of a store: a frame inside another one, with the parameters bound to
    the arguments in order. -/
def withCall (s : Store ν) (scope : Nat) (params : List String) (args : List ν) : Store ν :=
  (s.newChild scope).2.defineAll s.next (params.zip args)

@[simp] theorem journal_defineAll (s : Store ν) (f : Nat) (bs : Bindings ν) :
    (s.defineAll f bs).journal = s.journal := by
  induction bs generalizing s with
  | nil => rfl
  | cons b bs ih => exact ih _

theorem WellFormed.defineAll (h : s.WellFormed) (f : Nat) (bs : Bindings ν) :
    (s.defineAll f bs).WellFormed := by
  induction bs generalizing s with
  | nil => exact h
  | cons b bs ih => exact ih (h.define f b.1 b.2)

theorem bindings_withCall (s : Store ν) (scope : Nat) (params : List String) (args : List ν) :
    (s.withCall scope params args).bindings s.next = .ofDefinitions (params.zip args) := by
  have hlt : s.next < (s.newChild scope).2.next := by simp [newChild]
  rw [withCall, bindings_defineAll_self hlt, newChild, bindings_add,
    bindings_eq_nil (Nat.le_refl _)]
  rfl

/-- From a frame that does not bind a name, the name is found where it is found from the
    frame around it. -/
theorem find?_of_get?_eq_none (hwf : t.WellFormed) {name : String}
    (hparent : t.parent? frame = some scope) (hget : t.get? frame name = none) :
    t.find? frame name = t.find? scope name := by
  have hchain : t.chain frame = frame :: t.chain scope := by
    rw [chain_eq hwf frame, hparent]
  have hskip : ¬ (t.get? frame name).isSome = true := by
    rw [hget]
    exact Bool.false_ne_true
  rw [find?, hchain]
  exact List.find?_cons_of_neg hskip

theorem lookup?_of_get?_eq_some (hwf : t.WellFormed) {name : String} {value : ν}
    (hget : t.get? frame name = some value) : t.lookup? frame name = some value := by
  rw [lookup?_eq hwf, hget]
  rfl

/-- The frame that a call with these parameters and arguments makes inside a frame. It is not
    one of the frames that were there, and it binds just the parameters, each to the argument
    at the last place where it occurs. At any later time, a name that it does not bind then
    is looked up in it with the same outcome as in the frame around it. Nothing else has
    changed. -/
structure EntersCall (s : Store ν) (scope : Nat) (params : List String) (args : List ν)
    (t : Store ν) (frame : Nat) : Prop where
  fresh : ∀ f < s.next, f ≠ frame
  next : frame < t.next ∧ t.next = s.next + 1
  wellFormed : t.WellFormed
  parent : t.parent? frame = some scope
  names : (t.bindings frame).names = params.eraseDups
  binds : ∀ name, (t.get? frame name).isSome = true ↔ name ∈ params
  values : ∀ before name after, params = before ++ name :: after → name ∉ after →
    ∃ value, args[before.length]? = some value ∧ t.get? frame name = some value ∧
      (Run.lookup frame name).outcome t = (.ok value, t)
  others : ∀ later : Store ν, t.Grows later → later.WellFormed →
    ∀ name, later.get? frame name = none →
      later.find? frame name = later.find? scope name ∧
        (Run.lookup frame name).outcome later = (Run.lookup scope name).outcome later
  kept : ∀ f ≠ frame, t.parent? f = s.parent? f ∧ t.bindings f = s.bindings f
  journal : t.journal = s.journal

theorem entersCall (hwf : s.WellFormed) (hscope : scope < s.next)
    (hlength : args.length = params.length) :
    s.EntersCall scope params args (s.withCall scope params args) s.next := by
  have hbindings := bindings_withCall s scope params args
  have hparent : (s.withCall scope params args).parent? s.next = some scope := by
    rw [withCall, parent?_defineAll, newChild, parent?_add_self]
  have hnext : (s.withCall scope params args).next = s.next + 1 := by
    rw [withCall, next_defineAll, newChild, next_add]
  have hchild : (s.newChild scope).2.WellFormed := by
    refine hwf.add fun g hg => ?_
    obtain rfl := Option.some.inj hg
    exact hscope
  have hwf' : (s.withCall scope params args).WellFormed := hchild.defineAll _ _
  have hnames : ((s.withCall scope params args).bindings s.next).names = params.eraseDups := by
    rw [hbindings, Bindings.names_ofDefinitions_zip hlength]
  exact {
    fresh := fun f hf => Nat.ne_of_lt hf
    next := ⟨by omega, hnext⟩
    wellFormed := hwf'
    parent := hparent
    names := hnames
    binds := fun name => by
      rw [get?, Bindings.get?_isSome_iff, hnames, List.mem_eraseDups]
    values := fun before name after hparams hlast => by
      obtain ⟨value, hvalue, hget⟩ := Bindings.get?_ofDefinitions_zip hlength hparams hlast
      rw [← hbindings] at hget
      exact ⟨value, hvalue, hget, outcome_lookup_of_some (lookup?_of_get?_eq_some hwf' hget)⟩
    others := fun later hgrows hlater name hget => by
      have hlaterParent : later.parent? s.next = some scope :=
        (hgrows.parent s.next (by omega)).trans hparent
      have hfind := find?_of_get?_eq_none hlater hlaterParent hget
      refine ⟨hfind, ?_⟩
      simp only [Run.lookup, Run.outcome_bind, Run.outcome_get, lookup?, hfind]
    kept := fun f hf => by
      rw [withCall, parent?_defineAll, newChild, parent?_add_of_ne hf,
        bindings_defineAll_of_ne hf, bindings_add]
      exact ⟨rfl, rfl⟩
    journal := by
      rw [withCall, journal_defineAll]
      rfl }

end Store

-- ============================================================================
-- The theorem
-- ============================================================================

theorem Run.outcome_bindArguments_of_length_eq {params : List String} {args : List ν}
    (h : args.length = params.length) (scope : Nat) (s : Store ν) :
    (Run.bindArguments params scope args).outcome s =
      (.ok s.next, s.withCall scope params args) := by
  rw [Run.bindArguments, if_pos h]
  rfl

theorem Run.outcome_bindArguments_of_length_ne {params : List String} {args : List ν}
    (h : args.length ≠ params.length) (scope : Nat) (s : Store ν) :
    (Run.bindArguments params scope args).outcome s =
      (.error (.arity params.length args.length), s) := by
  rw [Run.bindArguments, if_neg h]
  rfl

/-- Calls bind arguments to parameters. With a wrong number of arguments there is a fault with
    both numbers, there is no other fault, and the store stays as it is. With the right number
    of arguments the call has a new frame. -/
theorem calls_bind_arguments {s : Store ν} {scope : Nat} (hwf : s.WellFormed)
    (hscope : scope < s.next) (params : List String) (args : List ν) :
    let out := (Run.bindArguments params scope args).outcome s
    (∀ fault, out.1 = .error fault ↔
      args.length ≠ params.length ∧ fault = .arity params.length args.length) ∧
    (args.length ≠ params.length → out.2 = s) ∧
    (args.length = params.length →
      ∃ frame, out.1 = .ok frame ∧ s.EntersCall scope params args out.2 frame) := by
  intro out
  by_cases hlength : args.length = params.length
  · have hout : out = (.ok s.next, s.withCall scope params args) :=
      Run.outcome_bindArguments_of_length_eq hlength scope s
    rw [hout]
    refine ⟨fun fault => ⟨nofun, fun h => absurd hlength h.1⟩, absurd hlength, fun _ => ?_⟩
    exact ⟨s.next, rfl, Store.entersCall hwf hscope hlength⟩
  · have hout : out = (.error (.arity params.length args.length), s) :=
      Run.outcome_bindArguments_of_length_ne hlength scope s
    rw [hout]
    refine ⟨fun fault => ⟨fun h => ⟨hlength, (Except.error.inj h).symm⟩, ?_⟩, fun _ => rfl,
      fun h => absurd h hlength⟩
    rintro ⟨-, rfl⟩
    rfl

/-- Three parameters, two of them of one name, in a call from a second root: the name has the
    last of its arguments, and another name is seen through the new frame as it is in the
    captured frame, also after it was bound there anew. -/
theorem repeated_parameter_has_its_last_argument :
    let s : Store (Value Empty) := (Store.empty.newRoot.2.define 0 "y" (.int 7)).newRoot.2
    let args : List (Value Empty) := [.int 1, .int 2, .int 3]
    let out := (Run.bindArguments ["x", "z", "x"] 0 args).outcome s
    s.WellFormed ∧ 0 < s.next ∧ s.EntersCall 0 ["x", "z", "x"] args out.2 2 ∧
      (Run.lookup 2 "x").outcome out.2 = (.ok (.int 3), out.2) ∧
      (out.2.bindings 2).names = ["x", "z"] ∧
      ((Run.lookup 2 "y").outcome (out.2.define 0 "y" .nil)).1 = .ok .nil ∧
      ((Run.bindArguments ["x", "z", "x"] 0 [Value.int (η := Empty) (κ := Node) 1]).outcome s).1 =
        .error (.arity 3 1) := by
  intro s args out
  have hroot : (Store.empty : Store (Value Empty)).newRoot.2.WellFormed :=
    Store.wellFormed_empty.add fun _ h => nomatch h
  have hwf : s.WellFormed := (hroot.define 0 "y" (.int 7)).add fun _ h => nomatch h
  have hscope : 0 < s.next := by decide
  obtain ⟨-, -, hcall⟩ := calls_bind_arguments hwf hscope ["x", "z", "x"] args
  obtain ⟨frame, hframe, henters⟩ := hcall rfl
  obtain rfl : frame = 2 := by
    have hsome : out.1 = .ok 2 := by decide
    exact Except.ok.inj (hframe.symm.trans hsome)
  obtain ⟨value, hvalue, -, hlookup⟩ := henters.values ["x", "z"] "x" [] rfl nofun
  obtain rfl : Value.int 3 = value := Option.some.inj hvalue
  obtain ⟨-, hother⟩ := henters.others (out.2.define 0 "y" .nil) (.define out.2 0 "y" .nil)
    (henters.wellFormed.define 0 "y" .nil) "y" (by decide)
  obtain ⟨hfault, -, -⟩ := calls_bind_arguments hwf hscope ["x", "z", "x"]
    [Value.int (η := Empty) (κ := Node) 1]
  refine ⟨hwf, hscope, henters, hlookup, henters.names.trans (by decide), ?_,
    (hfault _).2 ⟨by decide, rfl⟩⟩
  rw [hother]
  decide

end LineLisp
