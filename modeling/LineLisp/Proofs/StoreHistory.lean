/-
  LineLisp.Proofs.StoreHistory

  A store is no more than the record of what was done to it. Frames are made, in no other
  frame or in one that is there, and names are defined in them, in any order. From the list
  of these operations alone one can tell the frames around a frame, the names that were ever
  defined in it and the values they had last; and the store answers to this, whichever of
  its frames it is asked from.
-/
import LineLisp.Proofs.Ancestry
import LineLisp.Proofs.ShellSurvival
import Mathlib.Data.List.Nodup

namespace LineLisp

variable {η ν : Type}

-- ============================================================================
-- Operations
-- ============================================================================

/-- What can be done to frames. -/
inductive Operation (ν : Type) where
  /-- Makes a frame that lies in no other. -/
  | root
  /-- Makes a frame inside another. -/
  | child (parent : Nat)
  /-- Defines a name in a frame. -/
  | define (frame : Nat) (name : String) (value : ν)

namespace Operation

/-- What an operation does to a store. -/
def apply (s : Store ν) : Operation ν → Store ν
  | root => s.newRoot.2
  | child parent => (s.newChild parent).2
  | define frame name value => s.define frame name value

/-- The operations on frames that are there, which are numbered in the order of their
    making. -/
def Allowed (frames : Nat) : Operation ν → Prop
  | root => True
  | child parent => parent < frames
  | define frame _ _ => frame < frames

instance (frames : Nat) : (op : Operation ν) → Decidable (op.Allowed frames)
  | root => .isTrue trivial
  | child _ => Nat.decLt _ _
  | define _ _ _ => Nat.decLt _ _

/-- The place of the frame that an operation makes: the frame around it, if it has one. -/
def place? : Operation ν → Option (Option Nat)
  | root => some none
  | child parent => some (some parent)
  | define _ _ _ => none

/-- What an operation defines in a frame. -/
def definition? (frame : Nat) : Operation ν → Option (String × ν)
  | define f name value => if f = frame then some (name, value) else none
  | _ => none

end Operation

-- ============================================================================
-- What was done
-- ============================================================================

/-- What was done to frames, in order. -/
abbrev Past (ν : Type) := List (Operation ν)

/-- The store that operations lead to. -/
def Store.after (past : Past ν) : Store ν := past.foldl Operation.apply .empty

namespace Past

/-- The places of the frames, in the order of their making. -/
def places (past : Past ν) : List (Option Nat) := past.filterMap Operation.place?

/-- What was defined in a frame, in order. -/
def definitions (past : Past ν) (frame : Nat) : List (String × ν) :=
  past.filterMap (Operation.definition? frame)

/-- The names that were ever defined in a frame, in the order of their first definition. -/
def names (past : Past ν) (frame : Nat) : List String :=
  ((past.definitions frame).map Prod.fst).eraseDups

/-- The value that a name had in its last definition in a frame. -/
def last? (past : Past ν) (frame : Nat) (name : String) : Option ν :=
  ((past.definitions frame).filter fun entry => entry.1 = name).getLast?.map Prod.snd

/-- Operations of which each is on frames that were made before it. -/
def Possible (past : Past ν) : Prop :=
  ∀ (i : Nat) (h : i < past.length), past[i].Allowed (places (past.take i)).length

instance (past : Past ν) : Decidable past.Possible := Nat.decidableBallLT _ _

/-- The frames from a frame outward, each made inside the next one, up to one that was made
    in no other. -/
inductive Lineage (past : Past ν) : Nat → List Nat → Prop where
  | outermost {f : Nat} (h : past.places[f]? = some none) : Lineage past f [f]
  | inside {f g : Nat} {way : List Nat} (h : past.places[f]? = some (some g))
    (hg : Lineage past g way) : Lineage past f (f :: way)

end Past

-- ============================================================================
-- Definitions one after the other
-- ============================================================================

namespace Bindings

/-- The bindings that definitions lead to. -/
def ofDefinitions (definitions : List (String × ν)) : Bindings ν :=
  definitions.foldl (fun bs (name, value) => bs.define name value) []

theorem ofDefinitions_concat (definitions : List (String × ν)) (name : String) (value : ν) :
    ofDefinitions (definitions ++ [(name, value)]) =
      (ofDefinitions definitions).define name value := by
  rw [ofDefinitions, List.foldl_append]
  rfl

/-- Names stand in the order of their first definition. -/
theorem names_ofDefinitions (definitions : List (String × ν)) :
    (ofDefinitions definitions).names = (definitions.map Prod.fst).eraseDups := by
  induction definitions using List.reverseRecOn with
  | nil => rfl
  | append_singleton definitions entry ih =>
    obtain ⟨name, value⟩ := entry
    rw [ofDefinitions_concat, names_define, ih, List.map_append, List.eraseDups_append]
    by_cases hname : name ∈ definitions.map Prod.fst
    · rw [if_pos (List.mem_eraseDups.2 hname)]
      simp [List.removeAll, hname]
    · rw [if_neg (mt List.mem_eraseDups.1 hname)]
      simp [List.removeAll, List.eraseDups_cons, hname]

/-- The last definition of a name counts. -/
theorem get?_ofDefinitions (definitions : List (String × ν)) (name : String) :
    (ofDefinitions definitions).get? name =
      (definitions.filter fun entry => entry.1 = name).getLast?.map Prod.snd := by
  induction definitions using List.reverseRecOn with
  | nil => rfl
  | append_singleton definitions entry ih =>
    obtain ⟨other, value⟩ := entry
    rw [ofDefinitions_concat, List.filter_append]
    by_cases hname : other = name
    · subst hname
      rw [get?_define_self]
      simp
    · rw [get?_define_of_ne (Ne.symm hname), ih]
      simp [hname]

/-- Definitions never lead to two bindings of one name. -/
theorem nodup_names_ofDefinitions (definitions : List (String × ν)) :
    (ofDefinitions definitions).names.Nodup := by
  induction definitions using List.reverseRecOn with
  | nil => exact List.nodup_nil
  | append_singleton definitions entry ih =>
    rw [ofDefinitions_concat, names_define]
    split
    · exact ih
    · next hname =>
      rw [← List.concat_eq_append]
      exact ih.concat hname

theorem get?_of_mem {bindings : Bindings ν} (h : bindings.names.Nodup) {entry : String × ν}
    (hmem : entry ∈ bindings) : bindings.get? entry.1 = some entry.2 := by
  induction bindings with
  | nil => cases hmem
  | cons first rest ih =>
    obtain ⟨hfirst, hrest⟩ := List.nodup_cons.1 h
    rw [get?]
    rcases List.mem_cons.1 hmem with rfl | hmem
    · exact if_pos rfl
    · have hne : first.1 ≠ entry.1 := by
        intro heq
        exact hfirst (heq ▸ List.mem_map_of_mem hmem)
      rw [if_neg hne]
      exact ih hrest hmem

/-- Bindings can be written if no value in them has an integer of more than 4300 digits. -/
theorem fits_iff {bindings : Bindings (Value η)} :
    bindings.fits = true ↔ ∀ entry ∈ bindings, ¬ entry.2.IsLong := by
  rw [fits, List.all_eq_true]
  refine forall_congr' fun entry => forall_congr' fun _ => ?_
  rw [← Value.fits_eq_false_iff, Bool.not_eq_false]
  rfl

end Bindings

-- ============================================================================
-- One operation more
-- ============================================================================

theorem Store.after_concat (past : Past ν) (op : Operation ν) :
    Store.after (past ++ [op]) = op.apply (Store.after past) := by
  rw [Store.after, List.foldl_append]
  rfl

namespace Past

variable {past : Past ν} {op : Operation ν}

/-- The last of some operations is on frames that the others made. -/
theorem Possible.of_concat (h : (past ++ [op]).Possible) :
    past.Possible ∧ op.Allowed past.places.length := by
  constructor
  · intro i hi
    have hop := h i (by simp; omega)
    rwa [List.getElem_append_left hi, List.take_append_of_le_length (Nat.le_of_lt hi)] at hop
  · have hop := h past.length (by simp)
    rwa [List.getElem_concat_length rfl, List.take_left] at hop

theorem places_concat (past : Past ν) (op : Operation ν) :
    (past ++ [op]).places = past.places ++ op.place?.toList := by
  rw [places, List.filterMap_append, List.filterMap_cons]
  cases op.place? <;> rfl

theorem definitions_concat (past : Past ν) (op : Operation ν) (f : Nat) :
    (past ++ [op]).definitions f = past.definitions f ++ (op.definition? f).toList := by
  rw [definitions, List.filterMap_append, List.filterMap_cons]
  cases op.definition? f <;> rfl

end Past

namespace Store

/-- What a store has kept of the past: where its frames are and what was defined in them. -/
structure Keeps (s : Store ν) (past : Past ν) : Prop where
  next : s.next = past.places.length
  wellFormed : s.WellFormed
  parent : ∀ f, s.parent? f = past.places[f]?.join
  bindings : ∀ f, s.bindings f = .ofDefinitions (past.definitions f)

namespace Keeps

variable {s : Store ν} {past : Past ν} {op : Operation ν}

theorem empty : (Store.empty : Store ν).Keeps [] where
  next := rfl
  wellFormed := wellFormed_empty
  parent _ := rfl
  bindings _ := rfl

/-- A new frame has its place behind the others. -/
theorem add (h : s.Keeps past) {outer : Option Nat} (hplace : op.place? = some outer)
    (hdefinition : ∀ f, op.definition? f = none) (houter : ∀ g, outer = some g → g < s.next) :
    (s.add outer).Keeps (past ++ [op]) where
  next := by
    rw [next_add, h.next, Past.places_concat, hplace]
    simp
  wellFormed := h.wellFormed.add houter
  parent f := by
    rw [Past.places_concat, hplace]
    rcases Nat.lt_trichotomy f s.next with hlt | rfl | hgt
    · rw [parent?_add_of_ne (Nat.ne_of_lt hlt), h.parent,
        List.getElem?_append_left (by rwa [h.next] at hlt)]
    · rw [parent?_add_self, h.next]
      exact congrArg Option.join List.getElem?_concat_length.symm
    · have hlength : (past.places ++ (some outer).toList).length ≤ f := by
        rw [List.length_append, ← h.next]
        exact hgt
      rw [parent?_add_of_ne (Nat.ne_of_gt hgt), parent?_eq_none (Nat.le_of_lt hgt),
        List.getElem?_eq_none hlength]
      rfl
  bindings f := by
    rw [bindings_add, h.bindings, Past.definitions_concat, hdefinition]
    exact congrArg _ (List.append_nil _).symm

/-- A definition is added to those of its frame, and to no other. -/
theorem define (h : s.Keeps past) {frame : Nat} (hframe : frame < s.next) (name : String)
    (value : ν) : (s.define frame name value).Keeps (past ++ [.define frame name value]) where
  next := by
    rw [next_define, h.next, Past.places_concat]
    exact congrArg List.length (List.append_nil _).symm
  wellFormed := h.wellFormed.define frame name value
  parent f := by
    rw [parent?_define, h.parent, Past.places_concat]
    exact congrArg (fun places => places[f]?.join) (List.append_nil _).symm
  bindings f := by
    rw [Past.definitions_concat, Operation.definition?]
    by_cases hf : frame = f
    · subst hf
      rw [bindings_define_self hframe, h.bindings, if_pos rfl]
      exact (Bindings.ofDefinitions_concat _ name value).symm
    · rw [bindings_define_of_ne (Ne.symm hf), h.bindings, if_neg hf]
      exact congrArg _ (List.append_nil _).symm

theorem apply (h : s.Keeps past) (hop : op.Allowed past.places.length) :
    (op.apply s).Keeps (past ++ [op]) := by
  cases op with
  | root => exact h.add rfl (fun _ => rfl) nofun
  | child parent =>
    refine h.add rfl (fun _ => rfl) fun g hg => ?_
    obtain rfl := Option.some.inj hg
    rwa [h.next]
  | define frame name value => exact h.define (by rwa [h.next]) name value

end Keeps

/-- A store keeps all of its past. The induction is on the operations, the last one first. -/
theorem after_keeps {past : Past ν} (h : past.Possible) : (Store.after past).Keeps past := by
  induction past using List.reverseRecOn with
  | nil => exact .empty
  | append_singleton past op ih =>
    obtain ⟨hpast, hop⟩ := h.of_concat
    rw [after_concat]
    exact (ih hpast).apply hop

end Store

-- ============================================================================
-- What the past tells of a frame
-- ============================================================================

namespace Past

/-- The nearest frame on a way outward in which a name was ever defined. -/
def nearest? (past : Past ν) (way : List Nat) (name : String) : Option Nat :=
  way.find? fun g => name ∈ past.names g

/-- What a frame shows in the end: each name that was ever defined in it once, in the order of
    first definition, with its last value. -/
structure Shows (past : Past ν) (f : Nat) (entries : Bindings ν) : Prop where
  names : entries.names = past.names f
  values : ∀ entry ∈ entries, past.last? f entry.1 = some entry.2

end Past

namespace Store

/-- What a store answers from a frame, given the frames around it and what it shows: the chain
    is the way outward and the root is its end; a name is found in the nearest frame in which
    it was ever defined and has its last value there, and a name that was defined in none of
    the frames is in none and unbound; and the text of the frame lists what it shows, unless
    an integer in it has more than 4300 digits, for then there is no text. -/
structure Recalls (s : Store (Value η)) (past : Past (Value η)) (f : Nat) (way : List Nat)
    (entries : Bindings (Value η)) : Prop where
  lineage : past.Lineage f way
  shows : past.Shows f entries
  contents : s.bindings f = entries
  chain : s.chain f = way
  root : way.getLast? = some (s.root f)
  sees : ∀ name, (s.find? f name).isSome = true ↔ ∃ g ∈ way, name ∈ past.names g
  found : ∀ name g, past.nearest? way name = some g →
    s.find? f name = some g ∧ ∃ value, past.last? g name = some value ∧
      (Run.lookup f name).outcome s = (.ok value, s)
  missing : ∀ name, past.nearest? way name = none →
    s.find? f name = none ∧ (Run.lookup f name).outcome s = (.error (.unbound name), s)
  text : (∀ entry ∈ entries, ¬ entry.2.IsLong) →
    s.frameText? f = some ("\x7b" ++
      ", ".intercalate (entries.map fun (name, value) => name ++ ": " ++ value.text) ++ "\x7d" ++
      if past.places[f]? = some none then "" else " -> ...")
  noText : (∃ entry ∈ entries, entry.2.IsLong) → s.frameText? f = none

namespace Keeps

variable {s : Store ν} {past : Past ν} {f : Nat} {way : List Nat}

theorem get?_eq (h : s.Keeps past) (f : Nat) (name : String) :
    s.get? f name = past.last? f name := by
  rw [get?, h.bindings, Bindings.get?_ofDefinitions]
  rfl

theorem isSome_get?_iff (h : s.Keeps past) {f : Nat} {name : String} :
    (s.get? f name).isSome = true ↔ name ∈ past.names f := by
  rw [get?, Bindings.get?_isSome_iff, h.bindings, Bindings.names_ofDefinitions]
  rfl

theorem shows (h : s.Keeps past) (f : Nat) : past.Shows f (s.bindings f) where
  names := by
    rw [h.bindings, Bindings.names_ofDefinitions]
    rfl
  values entry hentry := by
    rw [h.bindings] at hentry
    have hget := Bindings.get?_of_mem (Bindings.nodup_names_ofDefinitions _) hentry
    rwa [Bindings.get?_ofDefinitions] at hget

theorem place (h : s.Keeps past) (hf : f < s.next) : past.places[f]? = some (s.parent? f) := by
  rw [h.next] at hf
  rw [h.parent, List.getElem?_eq_getElem hf]
  rfl

/-- The frames around a frame are those that it was made in. -/
theorem lineage (h : s.Keeps past) (hway : s.Outward f way) (hf : f < s.next) :
    past.Lineage f way := by
  induction hway with
  | @outermost f hparent => exact .outermost (by rw [h.place hf, hparent])
  | @inside f g way hparent _ ih =>
    have hg : g < s.next := Nat.lt_trans (h.wellFormed f g hparent) hf
    exact .inside (by rw [h.place hf, hparent]) (ih hg)

theorem find?_eq (h : s.Keeps past) (hchain : s.chain f = way) (name : String) :
    s.find? f name = past.nearest? way name := by
  have hnames : (fun g => (s.get? g name).isSome) = fun g => decide (name ∈ past.names g) := by
    funext g
    rw [Bool.eq_iff_iff, h.isSome_get?_iff, decide_eq_true_iff]
  rw [find?, hchain, hnames, Past.nearest?]

end Keeps

theorem outcome_lookup_of_some {s : Store ν} {f : Nat} {name : String} {value : ν}
    (h : s.lookup? f name = some value) : (Run.lookup f name).outcome s = (.ok value, s) := by
  simp only [Run.lookup, Run.outcome_bind, Run.outcome_get, h, Run.outcome_pure]

theorem outcome_lookup_of_none {s : Store ν} {f : Nat} {name : String}
    (h : s.lookup? f name = none) :
    (Run.lookup f name).outcome s = (.error (.unbound name), s) := by
  simp only [Run.lookup, Run.outcome_bind, Run.outcome_get, h, Run.outcome_fail]

/-- A frame of a store that keeps the past answers to it. -/
theorem Keeps.recalls {s : Store (Value η)} {past : Past (Value η)} {f : Nat} (h : s.Keeps past)
    (hf : f < s.next) : ∃ way, s.Recalls past f way (s.bindings f) := by
  obtain ⟨way, hway⟩ := (Rooted.of_lt_next h.wellFormed hf).resolves h.wellFormed
  have hfind := h.find?_eq hway.chain
  refine ⟨way, {
    lineage := h.lineage hway.outward hf
    shows := h.shows f
    contents := rfl
    chain := hway.chain
    root := hway.root.2
    sees := fun name => ?_
    found := fun name g hnearest => ?_
    missing := fun name hnearest => ?_
    text := fun hshort => ?_
    noText := fun hlong => ?_ }⟩
  · rw [hfind, Past.nearest?, List.find?_isSome]
    simp only [decide_eq_true_iff]
  · have hname : name ∈ past.names g := by
      simpa using List.find?_some hnearest
    obtain ⟨value, hvalue⟩ := Option.isSome_iff_exists.1 (h.isSome_get?_iff.2 hname)
    have hlookup : s.lookup? f name = some value := by
      rw [lookup?, hfind, hnearest]
      exact hvalue
    rw [hfind, ← h.get?_eq]
    exact ⟨hnearest, value, hvalue, outcome_lookup_of_some hlookup⟩
  · have hlookup : s.lookup? f name = none := by
      rw [lookup?, hfind, hnearest]
      rfl
    rw [hfind]
    exact ⟨hnearest, outcome_lookup_of_none hlookup⟩
  · rw [frameText?, if_pos (Bindings.fits_iff.2 hshort), frameText, h.place hf]
    cases s.parent? f <;> rfl
  · obtain ⟨entry, hentry, hlong⟩ := hlong
    exact if_neg fun hfits => Bindings.fits_iff.1 hfits entry hentry hlong

end Store

-- ============================================================================
-- The theorem
-- ============================================================================

end LineLisp
