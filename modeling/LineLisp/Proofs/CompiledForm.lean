/-
  LineLisp.Proofs.CompiledForm

  What compiling yields, form by form. An expression compiles exactly if it is an
  atom, the empty list, a well-shaped special form whose parts compile, or an
  application whose head and arguments compile; and then its node is put together
  from those of its parts. Proofs about compiled code go by these cases instead of
  opening the compiler.
-/
import LineLisp.Node.Compile
import Mathlib.Data.List.Forall2

namespace LineLisp

variable {ε α β : Type}

theorem bind_eq_ok_iff {x : Except ε α} {f : α → Except ε β} {b : β} :
    (x >>= f) = .ok b ↔ ∃ a, x = .ok a ∧ f a = .ok b := by
  cases x with
  | error fault =>
    constructor
    · intro h
      cases h
    · rintro ⟨a, ha, -⟩
      cases ha
  | ok a =>
    constructor
    · intro h
      exact ⟨a, rfl, h⟩
    · rintro ⟨a', ha, h⟩
      cases ha
      exact h

theorem mapM_eq_ok_iff {f : α → Except ε β} {as : List α} {bs : List β} :
    as.mapM f = .ok bs ↔ List.Forall₂ (fun a b => f a = .ok b) as bs := by
  induction as generalizing bs with
  | nil =>
    rw [List.mapM_nil, List.forall₂_nil_left_iff]
    exact ⟨fun h => (Except.ok.inj h).symm, fun h => congrArg Except.ok h.symm⟩
  | cons a as ih =>
    rw [List.mapM_cons, bind_eq_ok_iff, List.forall₂_cons_left_iff]
    constructor
    · rintro ⟨b, hb, h⟩
      obtain ⟨bs', hbs', h⟩ := bind_eq_ok_iff.1 h
      exact ⟨b, bs', hb, ih.1 hbs', (Except.ok.inj h).symm⟩
    · rintro ⟨b, bs', hb, hbs', rfl⟩
      exact ⟨b, hb, bind_eq_ok_iff.2 ⟨bs', ih.2 hbs', rfl⟩⟩

/-- Every element of a list is related to something just if the list is related to a list. -/
theorem exists_forall₂_iff {R : α → β → Prop} {as : List α} :
    (∃ bs, List.Forall₂ R as bs) ↔ ∀ a ∈ as, ∃ b, R a b := by
  induction as with
  | nil => exact ⟨fun _ => nofun, fun _ => ⟨[], .nil⟩⟩
  | cons a as ih =>
    rw [List.forall_mem_cons, ← ih]
    constructor
    · rintro ⟨_, h⟩
      cases h with
      | cons hb hbs => exact ⟨⟨_, hb⟩, _, hbs⟩
    · rintro ⟨⟨b, hb⟩, bs, hbs⟩
      exact ⟨b :: bs, .cons hb hbs⟩

namespace Expr

/-- An expression and the node that it compiles to. -/
def CompilesTo (e : Expr) (node : Node) : Prop :=
  e.compile = .ok node

/-- The special form that a list with this head is. -/
def special? (head : Expr) : Option SpecialForm :=
  head.symbol?.bind SpecialForm.ofName?

/-- The forms that compile, each with its node. -/
inductive CompiledForm : Expr → Node → Prop where
  | int (value : Int) : CompiledForm (.int value) (.literal (.int value))
  | str (contents : String) : CompiledForm (.str contents) (.literal (.str contents))
  | sym (name : String) : CompiledForm (.sym name) (.lookup name)
  | nil : CompiledForm (.list []) (.literal .nil)
  | choice {head c t : Expr} {cn tn : Node} (hhead : head.special? = some .branch)
    (hc : c.CompilesTo cn) (ht : t.CompilesTo tn) :
    CompiledForm (.list [head, c, t]) (.branch cn tn (.literal .nil))
  | branch {head c t e : Expr} {cn tn en : Node} (hhead : head.special? = some .branch)
    (hc : c.CompilesTo cn) (ht : t.CompilesTo tn) (he : e.CompilesTo en) :
    CompiledForm (.list [head, c, t, e]) (.branch cn tn en)
  | assign {head target form : Expr} {name : String} {node : Node}
    (hhead : head.special? = some .assign) (htarget : target.symbol? = some name)
    (hform : form.CompilesTo node) :
    CompiledForm (.list [head, target, form]) (.assign name node)
  | quote {head : Expr} (hhead : head.special? = some .quote) (datum : Expr) :
    CompiledForm (.list [head, datum]) (.literal datum)
  | lambda {head params first : Expr} {others : List Expr} {names : List String}
    {nodes : List Node} (hhead : head.special? = some .lambda)
    (hparams : params.paramNames? = some names)
    (hbody : List.Forall₂ CompilesTo (first :: others) nodes) :
    CompiledForm (.list (head :: params :: first :: others)) (.lambda names nodes)
  | apply {head : Expr} {args : List Expr} {fn : Node} {nodes : List Node}
    (hhead : head.special? = none) (hf : head.CompilesTo fn)
    (hargs : List.Forall₂ CompilesTo args nodes) :
    CompiledForm (.list (head :: args)) (.apply fn nodes)

/-- A special form that compiles has the shape of that form. -/
theorem CompilesTo.special_form {head : Expr} {args : List Expr} {node : Node} {form : SpecialForm}
    (hhead : head.special? = some form) (h : (Expr.list (head :: args)).CompilesTo node) :
    CompiledForm (.list (head :: args)) node := by
  have hmatch : head.symbol?.bind SpecialForm.ofName? = some form := hhead
  unfold CompilesTo at h
  rw [compile.eq_def] at h
  cases form with
  | branch =>
    rcases args with _ | ⟨c, _ | ⟨t, _ | ⟨e, _ | ⟨extra, rest⟩⟩⟩⟩
    · simp [hmatch] at h
    · simp [hmatch] at h
    · simp only [hmatch] at h
      obtain ⟨cn, hc, h⟩ := bind_eq_ok_iff.1 h
      obtain ⟨tn, ht, h⟩ := bind_eq_ok_iff.1 h
      cases h
      exact .choice hhead hc ht
    · simp only [hmatch] at h
      obtain ⟨cn, hc, h⟩ := bind_eq_ok_iff.1 h
      obtain ⟨tn, ht, h⟩ := bind_eq_ok_iff.1 h
      obtain ⟨en, he, h⟩ := bind_eq_ok_iff.1 h
      cases h
      exact .branch hhead hc ht he
    · simp [hmatch] at h
  | assign =>
    rcases args with _ | ⟨target, _ | ⟨value, _ | ⟨extra, rest⟩⟩⟩
    · simp [hmatch] at h
    · simp [hmatch] at h
    · simp only [hmatch] at h
      cases htarget : target.symbol? with
      | none => simp [htarget] at h
      | some name =>
        simp only [htarget] at h
        obtain ⟨vn, hv, h⟩ := bind_eq_ok_iff.1 h
        cases h
        exact .assign hhead htarget hv
    · simp [hmatch] at h
  | quote =>
    rcases args with _ | ⟨datum, _ | ⟨extra, rest⟩⟩
    · simp [hmatch] at h
    · simp only [hmatch] at h
      cases h
      exact .quote hhead datum
    · simp [hmatch] at h
  | lambda =>
    rcases args with _ | ⟨params, _ | ⟨first, others⟩⟩
    · simp [hmatch] at h
    · simp [hmatch] at h
    · simp only [hmatch] at h
      cases hparams : params.paramNames? with
      | none => simp [hparams] at h
      | some names =>
        simp only [hparams, compileAll_eq_mapM] at h
        obtain ⟨n, hfirst, h⟩ := bind_eq_ok_iff.1 h
        obtain ⟨ns, hothers, h⟩ := bind_eq_ok_iff.1 h
        cases h
        exact .lambda hhead hparams (.cons hfirst (mapM_eq_ok_iff.1 hothers))

/-- What compiles has one of the forms that compile. -/
theorem CompilesTo.form {e : Expr} {node : Node} (h : e.CompilesTo node) : CompiledForm e node := by
  cases e with
  | int value =>
    cases h
    exact .int value
  | str contents =>
    cases h
    exact .str contents
  | sym name =>
    cases h
    exact .sym name
  | hole => cases h
  | list items =>
    cases items with
    | nil =>
      cases h
      exact .nil
    | cons head args =>
      cases hhead : head.special? with
      | some form => exact h.special_form hhead
      | none =>
        have hmatch : head.symbol?.bind SpecialForm.ofName? = none := hhead
        unfold CompilesTo at h
        rw [compile.eq_def] at h
        simp only [hmatch, compileAll_eq_mapM] at h
        obtain ⟨fn, hf, h⟩ := bind_eq_ok_iff.1 h
        obtain ⟨nodes, hargs, h⟩ := bind_eq_ok_iff.1 h
        cases h
        exact .apply hhead hf (mapM_eq_ok_iff.1 hargs)

/-- What has one of the forms that compile compiles. -/
theorem CompiledForm.compilesTo {e : Expr} {node : Node} (h : CompiledForm e node) :
    e.CompilesTo node := by
  have keyword : ∀ {head : Expr} {form : Option SpecialForm}, head.special? = form →
      head.symbol?.bind SpecialForm.ofName? = form := id
  unfold CompilesTo
  rw [compile.eq_def]
  cases h with
  | int value => rfl
  | str contents => rfl
  | sym name => rfl
  | nil => rfl
  | choice hhead hc ht =>
    simp only [keyword hhead]
    exact bind_eq_ok_iff.2 ⟨_, hc, bind_eq_ok_iff.2 ⟨_, ht, rfl⟩⟩
  | branch hhead hc ht he =>
    simp only [keyword hhead]
    exact bind_eq_ok_iff.2 ⟨_, hc, bind_eq_ok_iff.2 ⟨_, ht, bind_eq_ok_iff.2 ⟨_, he, rfl⟩⟩⟩
  | assign hhead htarget hform =>
    simp only [keyword hhead, htarget]
    exact bind_eq_ok_iff.2 ⟨_, hform, rfl⟩
  | quote hhead datum => simp only [keyword hhead]
  | lambda hhead hparams hbody =>
    cases hbody with
    | cons hfirst hothers =>
      simp only [keyword hhead, hparams, compileAll_eq_mapM]
      exact bind_eq_ok_iff.2 ⟨_, hfirst, bind_eq_ok_iff.2 ⟨_, mapM_eq_ok_iff.2 hothers, rfl⟩⟩
  | apply hhead hf hargs =>
    simp only [keyword hhead, compileAll_eq_mapM]
    exact bind_eq_ok_iff.2 ⟨_, hf, bind_eq_ok_iff.2 ⟨_, mapM_eq_ok_iff.2 hargs, rfl⟩⟩

end Expr

end LineLisp
