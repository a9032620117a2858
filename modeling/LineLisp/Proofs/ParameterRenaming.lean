/-
  LineLisp.Proofs.ParameterRenaming

  The names of parameters do not matter. A lambda with one parameter renamed throughout can
  take the place of the lambda itself: a program runs as before, but for that name in the
  closures and frames that stem from the lambda. These are the frames of its calls and those
  of calls of closures that were made in such frames. They bind the renamed names at the
  same places, and the parameter is always found among them; all other frames bind the same
  names as before. A name that code binds for itself while it runs is renamed like any
  other, and a lookup that leaves the frames of the lambda looks for a name that was not
  renamed. Calls of other closures from there go on in frames that do not stem from it.
-/
import LineLisp.Proofs.OpaqueHost
import LineLisp.Proofs.Repetition

namespace LineLisp

variable {η : Type}

-- ============================================================================
-- Renaming
-- ============================================================================

/-- One name in the place of another. -/
def rename (x y name : String) : String :=
  if name = x then y else name

section

variable {x y a b : String}

theorem rename_self : rename x y x = y := if_pos rfl

theorem rename_of_ne (h : a ≠ x) : rename x y a = a := if_neg h

/-- Names other than the new one stay apart. -/
theorem rename_inj (ha : a ≠ y) (hb : b ≠ y) (h : rename x y a = rename x y b) : a = b := by
  unfold rename at h
  split at h <;> split at h
  · next hax hbx => rw [hax, hbx]
  · exact absurd h.symm hb
  · exact absurd h ha
  · exact h

end

namespace Node

mutual

/-- The names in code: those that it looks up or binds, and all parameters. -/
def names : Node → List String
  | .literal _ => []
  | .lookup name => [name]
  | .branch c t e => c.names ++ (t.names ++ e.names)
  | .assign name n => name :: n.names
  | .lambda params body => params ++ namesAll body
  | .apply f args => f.names ++ namesAll args
  | .hole => []

/-- The names in a list of code. -/
def namesAll : List Node → List String
  | [] => []
  | n :: ns => n.names ++ namesAll ns

end

mutual

/-- Code with one name in the place of another, wherever it looks up or binds names and in
    all lists of parameters. Data are left alone. -/
def renamed (x y : String) : Node → Node
  | .literal e => .literal e
  | .lookup name => .lookup (rename x y name)
  | .branch c t e => .branch (c.renamed x y) (t.renamed x y) (e.renamed x y)
  | .assign name n => .assign (rename x y name) (n.renamed x y)
  | .lambda params body => .lambda (params.map (rename x y)) (renamedAll x y body)
  | .apply f args => .apply (f.renamed x y) (renamedAll x y args)
  | .hole => .hole

/-- A list of code with one name in the place of another. -/
def renamedAll (x y : String) : List Node → List Node
  | [] => []
  | n :: ns => n.renamed x y :: renamedAll x y ns

end

theorem not_mem_namesAll {name : String} {ns : List Node} :
    name ∉ namesAll ns ↔ ∀ n ∈ ns, name ∉ n.names := by
  induction ns with
  | nil => simp [namesAll]
  | cons n ns ih => simp [namesAll, ih]

theorem renamedAll_eq_map (x y : String) (ns : List Node) :
    renamedAll x y ns = ns.map (renamed x y) := by
  induction ns with
  | nil => rfl
  | cons n ns ih => rw [renamedAll, ih, List.map_cons]

/-- The second code is the first one with another node in the place of a given one, at some
    places where that stands, or at none. -/
inductive Swap (node other : Node) : Node → Node → Prop where
  | here : Swap node other node other
  | literal (e : Expr) : Swap node other (.literal e) (.literal e)
  | lookup (name : String) : Swap node other (.lookup name) (.lookup name)
  | branch {c c' t t' e e' : Node} (hc : Swap node other c c') (ht : Swap node other t t')
    (he : Swap node other e e') : Swap node other (.branch c t e) (.branch c' t' e')
  | assign (name : String) {n n' : Node} (h : Swap node other n n') :
    Swap node other (.assign name n) (.assign name n')
  | lambda (params : List String) {body body' : List Node}
    (h : List.Forall₂ (Swap node other) body body') :
    Swap node other (.lambda params body) (.lambda params body')
  | apply {f f' : Node} {args args' : List Node} (hf : Swap node other f f')
    (hargs : List.Forall₂ (Swap node other) args args') :
    Swap node other (.apply f args) (.apply f' args')
  | hole : Swap node other .hole .hole

theorem Swap.refl (node other n : Node) : node.Swap other n n := by
  induction n with
  | literal e => exact .literal e
  | lookup name => exact .lookup name
  | branch c t e hc ht he => exact .branch hc ht he
  | assign name n hn => exact .assign name hn
  | lambda params body hbody => exact .lambda params (List.forall₂_same.2 hbody)
  | apply f args hf hargs => exact .apply hf (List.forall₂_same.2 hargs)
  | hole => exact .hole

end Node

-- ============================================================================
-- Frames that stem from the lambda
-- ============================================================================

/-- The number of frames that were made, and those of them that stem from the lambda. -/
structure Stems where
  next : Nat
  inside : Nat → Prop

namespace Stems

instance : Preorder Stems where
  le w w' := w.next ≤ w'.next ∧ ∀ f < w.next, w'.inside f ↔ w.inside f
  le_refl w := ⟨Nat.le_refl _, fun _ _ => Iff.rfl⟩
  le_trans w₁ w₂ w₃ h h' := ⟨Nat.le_trans h.1 h'.1, fun f hf =>
    (h'.2 f (Nat.lt_of_lt_of_le hf h.1)).trans (h.2 f hf)⟩

/-- One more frame. -/
def push (w : Stems) (stems : Prop) : Stems where
  next := w.next + 1
  inside f := f = w.next ∧ stems ∨ f ≠ w.next ∧ w.inside f

variable {w w' : Stems} {stems : Prop} {f : Nat} {x y a b : String}

theorem lt_next_of_le (hw : w ≤ w') (hf : f < w.next) : f < w'.next := Nat.lt_of_lt_of_le hf hw.1

theorem inside_push_self : (w.push stems).inside w.next ↔ stems := by simp [push]

theorem inside_push_of_ne (hf : f ≠ w.next) : (w.push stems).inside f ↔ w.inside f := by
  simp [push, hf]

theorem le_push (w : Stems) (stems : Prop) : w ≤ w.push stems :=
  ⟨Nat.le_succ _, fun _ hf => inside_push_of_ne (Nat.ne_of_lt hf)⟩

/-- Names that correspond in a frame: the renamed ones in a frame that stems from the lambda,
    where the new name was not used before, and the same ones in all others. -/
def Names (x y : String) (w : Stems) (f : Nat) (a b : String) : Prop :=
  (w.inside f → a ≠ y ∧ b = rename x y a) ∧ (¬ w.inside f → b = a)

theorem Names.congr (h : w'.inside f ↔ w.inside f) : w'.Names x y f = w.Names x y f := by
  unfold Names
  rw [h]

theorem names_of_not_inside (h : ¬ w.inside f) : w.Names x y f = Eq := by
  funext a b
  exact propext ⟨fun hab => (hab.2 h).symm, fun hab => ⟨fun hin => absurd hin h, fun _ => hab.symm⟩⟩

theorem biUnique_names (x y : String) (w : Stems) (f : Nat) :
    Relator.BiUnique (w.Names x y f) := by
  constructor
  · intro a b c ha hb
    by_cases hin : w.inside f
    · obtain ⟨hay, rfl⟩ := ha.1 hin
      obtain ⟨hby, hsame⟩ := hb.1 hin
      exact rename_inj hay hby hsame
    · exact (ha.2 hin).symm.trans (hb.2 hin)
  · intro a b c hb hc
    by_cases hin : w.inside f
    · rw [(hb.1 hin).2, (hc.1 hin).2]
    · rw [hb.2 hin, hc.2 hin]

end Stems

/-- Code in a frame, and the code in its place. In frames that stem from the lambda this is
    the renamed code, and in all others code with the renamed lambda at some places where the
    lambda stands. -/
inductive RenamedCode (x y : String) (node : Node) (w : Stems) :
    Node → Nat → Node → Nat → Prop where
  | outside {n m : Node} {f : Nat} (hf : f < w.next) (hout : ¬ w.inside f)
    (h : node.Swap (node.renamed x y) n m) : RenamedCode x y node w n f m f
  | inside {n : Node} {f : Nat} (hf : f < w.next) (hin : w.inside f) (hy : y ∉ n.names) :
    RenamedCode x y node w n f (n.renamed x y) f

theorem RenamedCode.mono {x y : String} {node : Node} {w w' : Stems} (hw : w ≤ w') {n m : Node}
    {f g : Nat} (h : RenamedCode x y node w n f m g) : RenamedCode x y node w' n f m g := by
  cases h with
  | outside hf hout hswap =>
    exact .outside (Stems.lt_next_of_le hw hf) (fun hin => hout ((hw.2 f hf).1 hin)) hswap
  | inside hf hin hy => exact .inside (Stems.lt_next_of_le hw hf) ((hw.2 f hf).2 hin) hy

/-- Values that are the same but for the names in closures that stem from the lambda. -/
abbrev Value.Renamed (x y : String) (node : Node) (w : Stems) : Value η → Value η → Prop :=
  Value.Alike (fun _ => True) (RenamedCode x y node w)

-- ============================================================================
-- Stores
-- ============================================================================

/-- Stores with the same frames inside one another and the same journal, in which
    corresponding names are bound to values that are the same but for the renaming. A frame
    inside one that stems from the lambda stems from it too. -/
structure Store.Renamed (x y : String) (node : Node) (w : Stems) (s t : Store (Value η)) :
    Prop where
  next : s.next = w.next
  next' : t.next = w.next
  wellFormed : s.WellFormed
  parent : ∀ f, t.parent? f = s.parent? f
  journal : t.journal = s.journal
  inward : ∀ f g, s.parent? f = some g → w.inside g → w.inside f
  bindings : ∀ f,
    (s.bindings f).AgreesBy (w.Names x y f) (Value.Renamed x y node w) (t.bindings f)

/-- Every frame that stems from the lambda binds the parameter or lies in another one. -/
def Store.Anchored (x : String) (w : Stems) (s : Store (Value η)) : Prop :=
  ∀ f, w.inside f → (s.get? f x).isSome = true ∨ ∃ g, s.parent? f = some g ∧ w.inside g

namespace Store.Renamed

variable {x y a b : String} {node : Node} {w : Stems} {s t : Store (Value η)} {f : Nat}
  {v v' : Value η}

theorem wellFormed' (h : s.Renamed x y node w t) : t.WellFormed :=
  fun f g hparent => h.wellFormed f g ((h.parent f).symm.trans hparent)

theorem get? (h : s.Renamed x y node w t) (hname : w.Names x y f a b) :
    Option.Rel (Value.Renamed x y node w) (s.get? f a) (t.get? f b) :=
  (h.bindings f).get? a b hname

/-- A name that the lambda does not rename has the same value from corresponding frames. -/
theorem lookup?_same (h : s.Renamed x y node w t) (f : Nat)
    (hname : w.inside f → a ≠ x ∧ a ≠ y) :
    Option.Rel (Value.Renamed x y node w) (s.lookup? f a) (t.lookup? f a) := by
  induction f using Nat.strongRecOn with
  | ind f ih =>
    have hnames : w.Names x y f a a :=
      ⟨fun hin => ⟨(hname hin).2, (rename_of_ne (hname hin).1).symm⟩, fun _ => rfl⟩
    have hget := h.get? hnames
    rw [lookup?_eq h.wellFormed, lookup?_eq h.wellFormed', h.parent f]
    generalize s.get? f a = value at hget
    generalize t.get? f a = value' at hget
    cases hget with
    | some hv => exact .some hv
    | none =>
      cases hparent : s.parent? f with
      | none => exact .none
      | some g =>
        exact ih g (h.wellFormed f g hparent) fun hin => hname (h.inward f g hparent hin)

/-- The parameter is found from every frame that stems from the lambda, and the new name is
    found in the same one. -/
theorem lookup?_renamed (h : s.Renamed x y node w t) (hanchored : s.Anchored x w) (hxy : x ≠ y)
    (f : Nat) (hin : w.inside f) : ∃ v v', s.lookup? f x = some v ∧ t.lookup? f y = some v' ∧
      v.Renamed x y node w v' := by
  induction f using Nat.strongRecOn with
  | ind f ih =>
    have hnames : w.Names x y f x y :=
      ⟨fun _ => ⟨hxy, rename_self.symm⟩, fun hout => absurd hin hout⟩
    have hget := h.get? hnames
    have hanchor := hanchored f hin
    rw [lookup?_eq h.wellFormed, lookup?_eq h.wellFormed', h.parent f]
    generalize s.get? f x = value at hget hanchor
    generalize t.get? f y = value' at hget
    cases hget with
    | some hv => exact ⟨_, _, rfl, rfl, hv⟩
    | none =>
      obtain ⟨g, hparent, hg⟩ := hanchor.resolve_left nofun
      rw [hparent]
      exact ih g (h.wellFormed f g hparent) hg

theorem define (h : s.Renamed x y node w t) (hf : f < w.next) (hname : w.Names x y f a b)
    (hv : v.Renamed x y node w v') :
    (s.define f a v).Renamed x y node w (t.define f b v') where
  next := by rw [next_define, h.next]
  next' := by rw [next_define, h.next']
  wellFormed := h.wellFormed.define f a v
  parent g := by rw [parent?_define, parent?_define, h.parent]
  journal := h.journal
  inward g k := by
    rw [parent?_define]
    exact h.inward g k
  bindings g := by
    by_cases hg : g = f
    · subst hg
      rw [bindings_define_self (h.next ▸ hf), bindings_define_self (h.next' ▸ hf)]
      exact (h.bindings g).define (w.biUnique_names x y g) hname hv
    · rw [bindings_define_of_ne hg, bindings_define_of_ne hg]
      exact h.bindings g

theorem defineAll (h : s.Renamed x y node w t) (hf : f < w.next) {bs cs : Bindings (Value η)}
    (hbs : bs.RelBy (w.Names x y f) (Value.Renamed x y node w) cs) :
    (s.defineAll f bs).Renamed x y node w (t.defineAll f cs) := by
  induction hbs generalizing s t with
  | nil => exact h
  | cons hbc _ ih => exact ih (h.define hf hbc.1 hbc.2)

/-- A frame inside one that stems from the lambda stems from it; other frames may. -/
theorem newChild (h : s.Renamed x y node w t) (hf : f < w.next) {stems : Prop}
    (hstems : w.inside f → stems) :
    (s.newChild f).2.Renamed x y node (w.push stems) (t.newChild f).2 where
  next := by rw [Store.newChild, next_add, h.next]; rfl
  next' := by rw [Store.newChild, next_add, h.next']; rfl
  wellFormed := h.wellFormed.add fun g hg => by
    cases hg
    exact h.next ▸ hf
  parent g := by
    show (t.add _).parent? g = (s.add _).parent? g
    by_cases hg : g = w.next
    · subst hg
      rw [← h.next, parent?_add_self, h.next, ← h.next', parent?_add_self]
    · rw [parent?_add_of_ne (h.next' ▸ hg), parent?_add_of_ne (h.next ▸ hg), h.parent]
  journal := h.journal
  inward g k hparent hk := by
    have hparent' : (s.add (some f)).parent? g = some k := hparent
    by_cases hg : g = w.next
    · subst hg
      rw [← h.next, parent?_add_self] at hparent'
      cases hparent'
      exact Stems.inside_push_self.2 (hstems ((Stems.inside_push_of_ne (Nat.ne_of_lt hf)).1 hk))
    · rw [parent?_add_of_ne (h.next ▸ hg)] at hparent'
      have hlt : g < w.next := h.next ▸ lt_next_of_parent? hparent'
      have hk' : k ≠ w.next := Nat.ne_of_lt (Nat.lt_trans (h.wellFormed g k hparent') hlt)
      exact (Stems.inside_push_of_ne hg).2
        (h.inward g k hparent' ((Stems.inside_push_of_ne hk').1 hk))
  bindings g := by
    rw [Store.newChild, Store.newChild, bindings_add, bindings_add]
    by_cases hg : g = w.next
    · have hle : w.next ≤ g := Nat.le_of_eq hg.symm
      rw [bindings_eq_nil (h.next ▸ hle), bindings_eq_nil (h.next' ▸ hle)]
      exact .nil
    · rw [Stems.Names.congr (Stems.inside_push_of_ne hg)]
      have hle := w.le_push stems
      exact (h.bindings g).imp fun v v' hv => hv.imp fun n f m g => RenamedCode.mono hle

theorem tell (h : s.Renamed x y node w t) (line : String) :
    (s.tell line).Renamed x y node w (t.tell line) where
  next := h.next
  next' := h.next'
  wellFormed := h.wellFormed
  parent := h.parent
  journal := by
    show t.journal.push line = s.journal.push line
    rw [h.journal]
  inward := h.inward
  bindings := h.bindings

end Store.Renamed

theorem Store.Anchored.define {x : String} {w : Stems} {s : Store (Value η)} (h : s.Anchored x w)
    (f : Nat) (name : String) (v : Value η) : (s.define f name v).Anchored x w := by
  intro g hg
  rw [parent?_define]
  exact (h g hg).imp_left ((Grows.define s f name v).bound g x)

/-- The frame of a call stems from the lambda if it is a call of the lambda, or of a closure
    that was made in a frame that does. -/
theorem Store.Anchored.call {x : String} {w : Stems} {s : Store (Value η)} (h : s.Anchored x w)
    (hwf : s.WellFormed) (hnext : s.next = w.next) {f : Nat} (hf : f < w.next) {stems : Prop}
    {params : List String} (hstems : stems → w.inside f ∨ x ∈ params) {vs : List (Value η)}
    (hlength : vs.length = params.length) :
    ((s.newChild f).2.defineAll s.next (params.zip vs)).Anchored x (w.push stems) := by
  intro g hg
  by_cases heq : g = w.next
  · subst heq
    rcases hstems (Stems.inside_push_self.1 hg) with hin | hx
    · refine .inr ⟨f, ?_, (Stems.inside_push_of_ne (Nat.ne_of_lt hf)).2 hin⟩
      rw [parent?_defineAll, ← hnext, newChild, parent?_add_self]
    · exact .inl (hnext ▸ isSome_get?_call s f hlength hx)
  · have hgrows := Grows.call s f (params.zip vs)
    rcases h g ((Stems.inside_push_of_ne heq).1 hg) with hbound | ⟨k, hparent, hk⟩
    · exact .inl (hgrows.bound g x hbound)
    · have hlt : g < s.next := lt_next_of_parent? hparent
      refine .inr ⟨k, (hgrows.parent g hlt).trans hparent, (Stems.inside_push_of_ne ?_).2 hk⟩
      exact Nat.ne_of_lt (hnext ▸ Nat.lt_trans (hwf g k hparent) hlt)

-- ============================================================================
-- Runs
-- ============================================================================

/-- Runs beside those with the renamed lambda. -/
def renamingLikeness (x y : String) (node : Node) : Likeness η Stems where
  Data _ := True
  Codes := RenamedCode x y node
  Stores w s t := s.Renamed x y node w t ∧ s.Anchored x w
  Admits _ := True
  codes_mono hw _ _ _ _ h := h.mono hw

section

variable {x y : String} {node : Node} {w : Stems} {f : Nat}

/-- Corresponding names are bound alike. -/
theorem renamingLikeness_define {w₁ : Stems} (hw : w ≤ w₁) (hf : f < w.next) {a b : String}
    (hname : w.Names x y f a b) {v v' : Value η}
    (hv : (renamingLikeness x y node).Values w₁ v v') :
    (renamingLikeness x y node).Runs w₁ (fun _ _ _ => True) (.update fun s => s.define f a v)
      (.update fun t => t.define f b v') := by
  refine .update ?_
  rintro w₂ hw₂ s t ⟨hst, hanchored⟩
  have hle : w ≤ w₂ := le_trans hw hw₂
  have hname₂ : w₂.Names x y f a b := by rwa [Stems.Names.congr (hle.2 f hf)]
  exact ⟨hst.define (Stems.lt_next_of_le hle hf) hname₂ (hv.mono hw₂), hanchored.define f a v⟩

/-- Calls make alike frames, if corresponding parameters are bound and the new frame stems
    from the lambda where it has to. -/
theorem renamingLikeness_call {w₁ : Stems} (hw : w ≤ w₁) (hf : f < w.next) {stems : Prop}
    (hout : w.inside f → stems) {params params' : List String}
    (hstems : stems → w.inside f ∨ x ∈ params)
    (hparams : List.Forall₂ (fun a b => (stems → a ≠ y ∧ b = rename x y a) ∧ (¬ stems → b = a))
      params params') {body body' : List Node}
    (hbody : ∀ w₂ h, w₁ ≤ w₂ → h < w₂.next → (w₂.inside h ↔ stems) →
      List.Forall₂ (fun n n' => RenamedCode x y node w₂ n h n' h) body body')
    {vs vs' : List (Value η)}
    (hvs : List.Forall₂ ((renamingLikeness x y node).Values w₁) vs vs') :
    (renamingLikeness x y node).Runs w₁
      (fun w₂ h h' => List.Forall₂ (fun n n' => RenamedCode x y node w₂ n h n' h') body body')
      (.bindArguments params f vs) (.bindArguments params' f vs') := by
  refine .bindArguments hparams.length_eq.symm hvs ?_ trivial
  rintro hlength w₂ hw₂ s t ⟨hst, hanchored⟩
  have hf₂ : f < w₂.next := Stems.lt_next_of_le (le_trans hw hw₂) hf
  have hin : w₂.inside f ↔ w.inside f := (le_trans hw hw₂).2 f hf
  have hle := w₂.le_push stems
  have hlt : w₂.next < (w₂.push stems).next := Nat.lt_succ_self _
  have hnames : List.Forall₂ ((w₂.push stems).Names x y w₂.next) params params' := by
    refine hparams.imp fun a b hab => ?_
    rwa [Stems.Names, Stems.inside_push_self]
  have hargs := Likeness.forall₂_values_mono (le_trans hw₂ hle) hvs
  have hchild := hst.newChild hf₂ fun h => hout (hin.1 h)
  have hcall := hchild.defineAll hlt (Bindings.RelBy.zip hnames hargs)
  refine ⟨w₂.push stems, hle, ⟨?_, ?_⟩, ?_⟩
  · rwa [hst.next, hst.next']
  · exact hanchored.call hst.wellFormed hst.next hf₂ (fun h => (hstems h).imp_left hin.2) hlength
  · rw [hst.next, hst.next']
    exact hbody _ _ (le_trans hw₂ hle) hlt Stems.inside_push_self

/-- A lambda and the renamed one take alike steps if their calls stem from the lambda: they
    do in frames that stem from it, and if it is the lambda itself. -/
theorem renamingLikeness_lambda {params : List String} {body : List Node} (hf : f < w.next)
    (hstems : w.inside f ∨ x ∈ params) (hy : y ∉ (Node.lambda params body).names) :
    (renamingLikeness x y node : Likeness η Stems).Steps w f f (.lambda params body)
      ((Node.lambda params body).renamed x y) := by
  simp only [Node.names, List.mem_append, not_or, Node.not_mem_namesAll] at hy
  obtain ⟨hparams, hbody⟩ := hy
  rw [Node.renamed, Node.renamedAll_eq_map]
  refine .lambda fun w₁ hw vs vs' hvs =>
    renamingLikeness_call hw hf (fun _ => trivial) (fun _ => hstems) ?_ ?_ hvs
  · refine List.forall₂_map_right_iff.2 (List.forall₂_same.2 fun a ha => ?_)
    exact ⟨fun _ => ⟨fun hay => hparams (hay ▸ ha), rfl⟩, fun hout => absurd trivial hout⟩
  · intro w₂ h _ hlt hin
    refine List.forall₂_map_right_iff.2 (List.forall₂_same.2 fun n hn => ?_)
    exact .inside hlt (hin.2 trivial) (hbody n hn)

/-- Code in a frame that does not stem from the lambda. -/
theorem renamingLikeness_outside {params : List String} {body : List Node} (hx : x ∈ params)
    (hy : y ∉ (Node.lambda params body).names) (hf : f < w.next) (hout : ¬ w.inside f) {n m : Node}
    (h : (Node.lambda params body).Swap ((Node.lambda params body).renamed x y) n m) :
    (renamingLikeness x y (.lambda params body) : Likeness η Stems).Steps w f f n m := by
  cases h with
  | here => exact renamingLikeness_lambda hf (.inr hx) hy
  | literal e => exact .literal trivial
  | hole => exact .hole trivial
  | lookup name =>
    refine .lookup (.lookup (fun w₁ hw s t hst => hst.1.lookup?_same f fun hin => ?_) trivial)
    exact absurd ((hw.2 f hf).1 hin) hout
  | branch hc ht he =>
    exact .branch (.outside hf hout hc) (.outside hf hout ht) (.outside hf hout he)
  | assign name hn =>
    have hname : w.Names x y f name name := ⟨fun hin => absurd hin hout, fun _ => rfl⟩
    exact .assign (.outside hf hout hn) fun w₁ hw v v' => renamingLikeness_define hw hf hname
  | apply hn hargs =>
    exact .apply (.outside hf hout hn) (hargs.imp fun _ _ harg => .outside hf hout harg)
  | lambda _ hbody =>
    refine .lambda fun w₁ hw vs vs' hvs =>
      renamingLikeness_call hw hf hout (fun hstems => absurd hstems id) ?_ ?_ hvs
    · exact List.forall₂_same.2 fun a _ => ⟨fun hstems => absurd hstems id, fun _ => rfl⟩
    · intro w₂ h _ hlt hin
      exact hbody.imp fun _ _ hn => .outside hlt hin.1 hn

/-- Code in a frame that stems from the lambda. Its lookups of the parameter succeed, and its
    other names were not renamed. -/
theorem renamingLikeness_inside (hxy : x ≠ y) (hf : f < w.next) (hin : w.inside f) {n : Node}
    (hy : y ∉ n.names) :
    (renamingLikeness x y node : Likeness η Stems).Steps w f f n (n.renamed x y) := by
  cases n with
  | literal e => exact .literal trivial
  | hole => exact .hole trivial
  | lookup name =>
    have hne : name ≠ y := fun heq => hy (List.mem_singleton.2 heq.symm)
    by_cases hx : name = x
    · subst hx
      rw [Node.renamed, rename_self]
      refine .lookup (.lookup_bound fun w₁ hw s t hst => ?_)
      exact hst.1.lookup?_renamed hst.2 hxy f ((hw.2 f hf).2 hin)
    · rw [Node.renamed, rename_of_ne hx]
      exact .lookup (.lookup (fun w₁ _ s t hst => hst.1.lookup?_same f fun _ => ⟨hx, hne⟩) trivial)
  | branch c t e =>
    simp only [Node.names, List.mem_append, not_or] at hy
    exact .branch (.inside hf hin hy.1) (.inside hf hin hy.2.1) (.inside hf hin hy.2.2)
  | assign name n =>
    simp only [Node.names, List.mem_cons, not_or] at hy
    have hname : w.Names x y f name (rename x y name) :=
      ⟨fun _ => ⟨fun heq => hy.1 heq.symm, rfl⟩, fun hout => absurd hin hout⟩
    exact .assign (.inside hf hin hy.2) fun w₁ hw v v' => renamingLikeness_define hw hf hname
  | lambda params body => exact renamingLikeness_lambda hf (.inl hin) hy
  | apply n args =>
    simp only [Node.names, List.mem_append, not_or, Node.not_mem_namesAll] at hy
    rw [Node.renamed, Node.renamedAll_eq_map]
    refine .apply (.inside hf hin hy.1) (List.forall₂_map_right_iff.2 ?_)
    exact List.forall₂_same.2 fun a ha => .inside hf hin (hy.2 a ha)

theorem renamingLikeness_closed [Host η] (hhost : OpaqueHost η) {params : List String}
    {body : List Node} (hx : x ∈ params) (hy : y ∉ (Node.lambda params body).names) :
    (renamingLikeness x y (.lambda params body) : Likeness η Stems).Closed where
  steps := by
    intro w n f m g h
    have hxy : x ≠ y := fun heq => hy (List.mem_append_left _ (heq ▸ hx))
    cases h with
    | outside hf hout hswap => exact renamingLikeness_outside hx hy hf hout hswap
    | inside hf hin hn => exact renamingLikeness_inside hxy hf hin hn
  nil := trivial
  int _ := trivial
  admits _ _ := trivial
  host := Likeness.host_of_opaque hhost (fun _ => trivial) (fun _ => trivial)
    (fun _ _ _ h => h.1.journal) fun _ _ _ line h => ⟨h.1.tell line, h.2⟩

end

-- ============================================================================
-- Programs
-- ============================================================================

/-- Runs code in one frame, each piece with its own room, one after the other. A piece that
    fails does not keep the next ones from being run. -/
def evaluateAll [Host η] (frame : Nat) (program : List (Nat × Node)) :
    Run (Value η) (List (Except (Fault (Value η)) (Value η))) :=
  program.mapM fun (limit, node) => Run.settle (node.evaluate limit frame)

theorem evaluateAll_eq_ok [Host η] (frame : Nat) (program : List (Nat × Node))
    (s : Store (Value η)) : ∃ results, ((evaluateAll frame program).outcome s).1 = .ok results :=
  Run.outcome_mapM_settle (fun (limit, node) => Node.evaluate limit node frame) program s

/-- Alike code has alike runs, piece by piece. -/
theorem Likeness.Closed.evaluateAll [Host η] {W : Type} [Preorder W] {L : Likeness η W}
    (h : L.Closed) {w : W} {frame : Nat} {program program' : List (Nat × Node)}
    (hprogram : List.Forall₂ (fun p p' => p'.1 = p.1 ∧ L.Codes w p.2 frame p'.2 frame) program
      program') :
    L.Runs w (fun w₁ => List.Forall₂ (Result.Rel (L.Values w₁) (L.Values w₁)))
      (evaluateAll frame program) (evaluateAll frame program') := by
  refine .mapM (P := fun w₁ => Result.Rel (L.Values w₁) (L.Values w₁))
    (fun _ _ hw _ _ => Likeness.result_rel_mono hw) ?_ hprogram
  rintro ⟨limit, n⟩ ⟨limit', m⟩ ⟨hlimit, hcode⟩
  obtain rfl : limit = limit' := hlimit.symm
  exact ((h.alike limit).1 w n frame m frame hcode).settle

/-- No frame stems from the lambda yet. -/
def Stems.none (next : Nat) : Stems := ⟨next, fun _ => False⟩

/-- A store beside itself, before the lambda was run. -/
theorem Store.Renamed.self (x y : String) (node : Node) {s : Store (Value η)}
    (hwf : s.WellFormed) (hcaptured : s.Captured) : s.Renamed x y node (.none s.next) s where
  next := rfl
  next' := rfl
  wellFormed := hwf
  parent _ := rfl
  journal := rfl
  inward _ _ _ hin := hin
  bindings f := by
    refine ⟨List.forall₂_same.2 fun _ _ => ⟨False.elim, fun _ => rfl⟩, fun a b hname => ?_⟩
    obtain rfl := hname.2 id
    cases hget : (s.bindings f).get? b with
    | none => exact .none
    | some v =>
      cases v with
      | datum e => exact .some (.datum trivial)
      | primitive name operation => exact .some (.primitive name operation)
      | closure params body scope =>
        have hscope : scope < s.next := hcaptured f b params body scope hget
        exact .some (.closure (.outside hscope id (Node.Swap.refl _ _ _)))

/-- The names of parameters do not matter. A parameter of a lambda is renamed throughout, to
    a name that does not occur in the lambda, and the renamed lambda is put in the place of the
    lambda, at any places in a program and in the closures of a session state; every session
    state may also stand as it is. The program is run in a frame of that state, with the same
    room, and what fails does not keep the rest from being run. Both runs end with the same
    data and with the same faults with the same data, of which the same is shown, and write the
    same journal; the frames that they make lie in the same frames; and the root, like all
    frames that were there before, binds the same names in the same order. The only
    difference is that name, in closures and frames that stem from the lambda: there the same
    bindings are made, under the renamed names. -/
theorem parameter_names_do_not_matter [Host η] (hhost : OpaqueHost η) {params : List String}
    {body : List Node} {x y : String} (hx : x ∈ params)
    (hy : y ∉ (Node.lambda params body).names) :
    let lambda : Node := .lambda params body
    (∀ s : Store (Value η), s.WellFormed → s.Captured →
      s.Renamed x y lambda (.none s.next) s) ∧
    ∀ s t : Store (Value η), s.Renamed x y lambda (.none s.next) t →
      ∀ frame < s.next, ∀ program program' : List (Nat × Node),
        List.Forall₂ (fun p p' => p'.1 = p.1 ∧ lambda.Swap (lambda.renamed x y) p.2 p'.2) program
          program' →
        let last := ((evaluateAll frame program).outcome s).2
        let last' := ((evaluateAll frame program').outcome t).2
        ∃ w : Stems, (∀ f < s.next, ¬ w.inside f) ∧
          last.Renamed x y lambda w last' ∧ last.Anchored x w ∧
          (∀ f < s.next,
            (last.bindings f).Agrees (Value.Renamed x y lambda w) (last'.bindings f)) ∧
          ∃ results results', ((evaluateAll frame program).outcome s).1 = .ok results ∧
            ((evaluateAll frame program').outcome t).1 = .ok results' ∧
            List.Forall₂ (fun r r' =>
              Result.Rel (Value.Renamed x y lambda w) (Value.Renamed x y lambda w) r r' ∧
                shownResult r' = shownResult r) results results' := by
  intro lambda
  refine ⟨fun s => .self x y lambda, fun s t hst frame hframe program program' hprogram => ?_⟩
  intro last last'
  have hclosed := renamingLikeness_closed hhost hx hy
  have hcodes : List.Forall₂ (fun p p' => p'.1 = p.1 ∧
      (renamingLikeness x y lambda : Likeness η Stems).Codes (.none s.next) p.2 frame p'.2 frame)
      program program' :=
    hprogram.imp fun p p' hp => ⟨hp.1, .outside hframe id hp.2⟩
  obtain ⟨w, hw, ⟨hrenamed, hanchored⟩, hends⟩ :=
    hclosed.evaluateAll hcodes (.none s.next) le_rfl s t ⟨hst, fun _ => False.elim⟩
  have hbefore : ∀ f < s.next, ¬ w.inside f := fun f hf => (hw.2 f hf).1
  refine ⟨w, hbefore, hrenamed, hanchored, fun f hf => ?_, ?_⟩
  · have hbindings := hrenamed.bindings f
    rw [Stems.names_of_not_inside (hbefore f hf)] at hbindings
    exact Bindings.agreesBy_eq_iff.1 hbindings
  · obtain ⟨results, hresults⟩ := evaluateAll_eq_ok frame program s
    obtain ⟨results', hresults'⟩ := evaluateAll_eq_ok frame program' t
    rw [hresults, hresults'] at hends
    refine ⟨results, results', hresults, hresults', ?_⟩
    cases hends with
    | ok hall => exact hall.imp fun r r' hr => ⟨hr, hr.shown_eq fun _ _ => Value.Alike.sameText⟩

/-- The parameter of a lambda that makes counters is renamed to the name that the program
    gives the lambda itself. A function of the host calls it, and the counter that it makes
    counts as before, in frames that bind the new name. The old name is not bound outside, with
    the same fault, and a call without arguments fails alike. -/
theorem renamed_counter_counts_alike :
    let next : Node := .apply (.lookup "add") [.lookup "x", .literal (.int 1)]
    let lambda : Node := .lambda ["x"] [.lambda [] [.assign "x" next]]
    let s : Store (Value Relay) := Store.empty.withRoot
      [("add", .primitive "add" .add), ("relay", .primitive "relay" (.host .relay))]
    let program (maker : Node) : List (Nat × Node) := [(9, .assign "make" maker),
      (9, .assign "count" (.apply (.lookup "relay") [.lookup "make", .literal (.int 5)])),
      (9, .apply (.lookup "count") []), (9, .lookup "x"), (9, .apply (.lookup "make") [])]
    let run := (evaluateAll 0 (program lambda)).outcome s
    let run' := (evaluateAll 0 (program (lambda.renamed "x" "make"))).outcome s
    OpaqueHost Relay ∧ "make" ∉ lambda.names ∧ s.WellFormed ∧ s.Captured ∧
      run'.1.toOption.map (List.drop 2) =
        some [.ok (.int 6), .error (.unbound "x"), .error (.arity 1 0)] ∧
      run.2.get? 2 "x" = some (.int 6) ∧ run'.2.get? 2 "x" = none ∧
      run'.2.get? 2 "make" = some (.int 6) ∧
      ∃ w : Stems, w.inside 2 ∧ run.2.Renamed "x" "make" lambda w run'.2 := by
  intro next lambda s program run run'
  have hy : "make" ∉ lambda.names := by decide
  have hs : SessionStore 0 s ∧ OwnClosures 0 s := by
    refine SessionStore.newRoot Store.wellFormed_empty Store.captured_empty fun b hb => ?_
    simp only [List.mem_cons, List.not_mem_nil, or_false] at hb
    rcases hb with rfl | rfl <;> rfl
  have hold : run.2.get? 2 "x" = some (.int 6) := by decide +kernel
  have hnew : run'.2.get? 2 "x" = none := by decide +kernel
  obtain ⟨hself, hmain⟩ := parameter_names_do_not_matter opaqueHost_relay
    (List.mem_singleton.2 rfl : "x" ∈ ["x"]) hy
  have hprogram : List.Forall₂ (fun p p' => p'.1 = p.1 ∧
      lambda.Swap (lambda.renamed "x" "make") p.2 p'.2) (program lambda)
      (program (lambda.renamed "x" "make")) := by
    refine .cons ⟨rfl, .assign "make" .here⟩ ?_
    exact List.forall₂_same.2 fun p _ => ⟨rfl, .refl _ _ _⟩
  obtain ⟨w, -, hrenamed, -⟩ := hmain s s (hself s hs.1.wellFormed hs.1.captured) 0 (by decide) _ _
    hprogram
  refine ⟨opaqueHost_relay, hy, hs.1.wellFormed, hs.1.captured, by decide +kernel, hold, hnew,
    by decide +kernel, w, ?_, hrenamed⟩
  by_contra hout
  have hget := hrenamed.get? (f := 2) (a := "x") ⟨fun hin => absurd hin hout, fun _ => rfl⟩
  rw [hold, hnew] at hget
  cases hget

end LineLisp
