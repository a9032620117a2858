/-
  LineLisp.Proofs.FormErrors

  Which expressions do not compile. A special form is malformed if it breaks one of the
  rules on its shape. An expression without holes fails to compile exactly if a malformed
  form stands at one of its places, and the error is about such a form: it makes no
  difference whether the code there would ever be run.
-/
import LineLisp.Proofs.Placement

namespace LineLisp

variable {ε α β : Type}

theorem bind_eq_error_iff {x : Except ε α} {f : α → Except ε β} {error : ε} :
    (x >>= f) = .error error ↔ x = .error error ∨ ∃ a, x = .ok a ∧ f a = .error error := by
  cases x with
  | error fault =>
    constructor
    · intro h
      cases h
      exact .inl rfl
    · rintro (h | ⟨a, ha, -⟩)
      · cases h
        rfl
      · cases ha
  | ok a =>
    constructor
    · intro h
      exact .inr ⟨a, rfl, h⟩
    · rintro (h | ⟨a', ha, h⟩)
      · cases h
      · cases ha
        exact h

/-- Some element is the one that fails. -/
theorem getElem?_of_mapM_eq_error {f : α → Except ε β} {as : List α} {error : ε}
    (h : as.mapM f = .error error) : ∃ (k : Nat) (a : α), as[k]? = some a ∧ f a = .error error := by
  induction as with
  | nil => cases h
  | cons a as ih =>
    rw [List.mapM_cons, bind_eq_error_iff] at h
    rcases h with ha | ⟨b, -, h⟩
    · exact ⟨0, a, rfl, ha⟩
    · rcases bind_eq_error_iff.1 h with h | ⟨bs, -, h⟩
      · obtain ⟨k, a', hk, ha'⟩ := ih h
        exact ⟨k + 1, a', hk, ha'⟩
      · cases h

namespace Expr

variable {e form item : Expr} {i : Nat} {path : List Nat} {entered around : List (List String)}
  {node : Node} {rule : FormRule} {error : CompileError}

-- ============================================================================
-- Malformed forms
-- ============================================================================

/-- The special forms that break a rule on their shape. -/
inductive Breaks : Expr → FormRule → Prop where
  | branchCount {head : Expr} {args : List Expr} (hhead : head.special? = some .branch)
    (hcount : args.length ≠ 2 ∧ args.length ≠ 3) : Breaks (.list (head :: args)) .branchCount
  | assignCount {head : Expr} {args : List Expr} (hhead : head.special? = some .assign)
    (hcount : args.length ≠ 2) : Breaks (.list (head :: args)) .assignCount
  | assignTarget {head target value : Expr} (hhead : head.special? = some .assign)
    (htarget : target.symbol? = none) : Breaks (.list [head, target, value]) .assignTarget
  | quoteCount {head : Expr} {args : List Expr} (hhead : head.special? = some .quote)
    (hcount : args.length ≠ 1) : Breaks (.list (head :: args)) .quoteCount
  | lambdaCount {head : Expr} {args : List Expr} (hhead : head.special? = some .lambda)
    (hcount : args.length < 2) : Breaks (.list (head :: args)) .lambdaCount
  | lambdaParams {head params first : Expr} {others : List Expr}
    (hhead : head.special? = some .lambda) (hparams : params.paramNames? = none) :
    Breaks (.list (head :: params :: first :: others)) .lambdaParams

/-- A form stands at one of the places of an expression: it is code there. -/
def HasCode (e form : Expr) : Prop :=
  ∃ path around, e.place? path = some (around, form)

/-- A form that breaks a rule does not compile, whatever its parts are. -/
theorem Breaks.compile_eq (h : form.Breaks rule) :
    form.compile = .error (.malformed rule form) := by
  have keyword : ∀ {head : Expr} {special : SpecialForm}, head.special? = some special →
      head.symbol?.bind SpecialForm.ofName? = some special := id
  rw [compile.eq_def]
  cases h with
  | branchCount hhead hcount =>
    simp only [keyword hhead]
    split
    · exact absurd rfl hcount.1
    · exact absurd rfl hcount.2
    · rfl
  | assignCount hhead hcount =>
    simp only [keyword hhead]
    split
    · exact absurd rfl hcount
    · rfl
  | assignTarget hhead htarget => simp only [keyword hhead, htarget]
  | quoteCount hhead hcount =>
    simp only [keyword hhead]
    split
    · exact absurd rfl hcount
    · rfl
  | lambdaCount hhead hcount =>
    simp only [keyword hhead]
    split
    · exact absurd hcount (Nat.not_lt.2 (Nat.le_add_left 2 _))
    · rfl
  | lambdaParams hhead hparams => simp only [keyword hhead, hparams]

-- ============================================================================
-- Parts
-- ============================================================================

section

variable {head : Expr} {args items : List Expr}

theorem mem_of_part?_branch (hhead : head.special? = some .branch)
    (h : (Expr.list (head :: args)).part? i = some (entered, item)) : item ∈ args := by
  simp only [part?, hhead] at h
  split at h
  · cases h
  · obtain ⟨other, hother, heq⟩ := Option.map_eq_some_iff.1 h
    cases heq
    exact List.mem_of_getElem? hother

theorem getElem?_of_part?_assign (hhead : head.special? = some .assign)
    (h : (Expr.list (head :: args)).part? i = some (entered, item)) : args[1]? = some item := by
  simp only [part?, hhead] at h
  split at h
  · next hi =>
    subst hi
    obtain ⟨other, hother, heq⟩ := Option.map_eq_some_iff.1 h
    cases heq
    exact hother
  · cases h

theorem mem_of_part?_lambda (hhead : head.special? = some .lambda)
    (h : (Expr.list (head :: args)).part? i = some (entered, item)) : item ∈ args.tail := by
  simp only [part?, hhead] at h
  split at h
  · cases h
  · next hi =>
    obtain ⟨params, -, h⟩ := Option.bind_eq_some_iff.1 h
    obtain ⟨names, -, h⟩ := Option.bind_eq_some_iff.1 h
    obtain ⟨other, hother, heq⟩ := Option.map_eq_some_iff.1 h
    cases heq
    obtain ⟨k, rfl⟩ : ∃ k, i = k + 2 := ⟨i - 2, by omega⟩
    refine List.mem_of_getElem? (i := k) ?_
    rwa [List.getElem?_tail]

theorem mem_of_part?_apply (hhead : head.special? = none)
    (h : (Expr.list (head :: args)).part? i = some (entered, item)) : item ∈ head :: args := by
  simp only [part?, hhead] at h
  obtain ⟨other, hother, heq⟩ := Option.map_eq_some_iff.1 h
  cases heq
  exact List.mem_of_getElem? hother

/-- The parts of a form are items of it. -/
theorem mem_of_part? (h : (Expr.list items).part? i = some (entered, item)) : item ∈ items := by
  cases items with
  | nil => cases h
  | cons head args =>
    cases hhead : head.special? with
    | none => exact mem_of_part?_apply hhead h
    | some form =>
      cases form with
      | branch => exact List.mem_cons_of_mem _ (mem_of_part?_branch hhead h)
      | assign =>
        exact List.mem_cons_of_mem _ (List.mem_of_getElem? (getElem?_of_part?_assign hhead h))
      | quote =>
        simp only [part?, hhead] at h
        cases h
      | lambda =>
        exact List.mem_cons_of_mem _ (List.mem_of_mem_tail (mem_of_part?_lambda hhead h))

end

/-- The parts of what compiles compile. -/
theorem CompilesTo.part (h : form.CompilesTo node) (hitem : form.part? i = some (entered, item)) :
    ∃ part, item.CompilesTo part := by
  have hall : ∀ {items : List Expr} {nodes : List Node}, List.Forall₂ CompilesTo items nodes →
      ∀ item ∈ items, ∃ part, item.CompilesTo part := fun hs =>
    ((List.forall₂_and_left _ _).1 (hs.imp fun _ b hb => ⟨⟨b, hb⟩, hb⟩)).1
  cases h.form with
  | int value => cases hitem
  | str contents => cases hitem
  | sym name => cases hitem
  | nil => cases hitem
  | choice hhead hc ht => exact hall (.cons hc (.cons ht .nil)) item (mem_of_part?_branch hhead hitem)
  | branch hhead hc ht he =>
    exact hall (.cons hc (.cons ht (.cons he .nil))) item (mem_of_part?_branch hhead hitem)
  | assign hhead htarget hform =>
    obtain rfl := Option.some.inj (getElem?_of_part?_assign hhead hitem)
    exact ⟨_, hform⟩
  | quote hhead datum =>
    simp only [part?, hhead] at hitem
    cases hitem
  | lambda hhead hparams hbody => exact hall hbody item (mem_of_part?_lambda hhead hitem)
  | apply hhead hf hargs => exact hall (.cons hf hargs) item (mem_of_part?_apply hhead hitem)

/-- What passes from forms to their parts passes from an expression to all its code. The
    induction is on the path to the code. -/
theorem HasCode.inherits {P : Expr → Prop} (hcode : e.HasCode form)
    (hpart : ∀ {form item : Expr} {i : Nat} {entered : List (List String)},
      form.part? i = some (entered, item) → P form → P item) (h : P e) : P form := by
  obtain ⟨path, around, hplace⟩ := hcode
  induction path generalizing form around with
  | nil =>
    cases hplace
    exact h
  | cons i path ih =>
    obtain ⟨⟨outer, inside⟩, hinside, hplace⟩ := Option.bind_eq_some_iff.1 hplace
    obtain ⟨⟨entered, item⟩, hitem, hplace⟩ := Option.bind_eq_some_iff.1 hplace
    cases hplace
    exact hpart hitem (ih outer hinside)

/-- All code of what compiles compiles. -/
theorem CompilesTo.hasCode (h : e.CompilesTo node) (hcode : e.HasCode form) :
    ∃ part, form.CompilesTo part :=
  hcode.inherits (P := fun form => ∃ part, form.CompilesTo part)
    (fun hitem ⟨_, hform⟩ => hform.part hitem) ⟨node, h⟩

-- ============================================================================
-- Errors are about malformed forms
-- ============================================================================

/-- Where an error of an expression comes from: a hole, a rule that the form itself breaks,
    or a part that has this error. -/
inductive ErrorSource : Expr → CompileError → Prop where
  | hole : ErrorSource .hole .hole
  | rule {form : Expr} {rule : FormRule} (h : form.Breaks rule) :
    ErrorSource form (.malformed rule form)
  | part {form item : Expr} {i : Nat} {entered : List (List String)} {error : CompileError}
    (hitem : form.part? i = some (entered, item)) (h : item.compile = .error error) :
    ErrorSource form error

namespace ErrorSource

section

variable {head : Expr} {args : List Expr}

theorem branch (hhead : head.special? = some .branch)
    (h : (Expr.list (head :: args)).compile = .error error) :
    ErrorSource (.list (head :: args)) error := by
  have hmatch : head.symbol?.bind SpecialForm.ofName? = some .branch := hhead
  rw [compile.eq_def] at h
  simp only [hmatch] at h
  split at h
  · rcases bind_eq_error_iff.1 h with hc | ⟨cn, -, h⟩
    · exact .part (part?_branch hhead (k := 0) rfl) hc
    rcases bind_eq_error_iff.1 h with ht | ⟨tn, -, h⟩
    · exact .part (part?_branch hhead (k := 1) rfl) ht
    cases h
  · rcases bind_eq_error_iff.1 h with hc | ⟨cn, -, h⟩
    · exact .part (part?_branch hhead (k := 0) rfl) hc
    rcases bind_eq_error_iff.1 h with ht | ⟨tn, -, h⟩
    · exact .part (part?_branch hhead (k := 1) rfl) ht
    rcases bind_eq_error_iff.1 h with he | ⟨en, -, h⟩
    · exact .part (part?_branch hhead (k := 2) rfl) he
    cases h
  · next htwo hthree =>
    cases h
    refine .rule (.branchCount hhead ⟨fun hlength => ?_, fun hlength => ?_⟩)
    · obtain ⟨c, t, rfl⟩ := List.length_eq_two.1 hlength
      exact htwo c t rfl
    · obtain ⟨c, t, e, rfl⟩ := List.length_eq_three.1 hlength
      exact hthree c t e rfl

theorem assign (hhead : head.special? = some .assign)
    (h : (Expr.list (head :: args)).compile = .error error) :
    ErrorSource (.list (head :: args)) error := by
  have hmatch : head.symbol?.bind SpecialForm.ofName? = some .assign := hhead
  rw [compile.eq_def] at h
  simp only [hmatch] at h
  split at h
  · next target value =>
    cases htarget : target.symbol? with
    | none =>
      simp only [htarget] at h
      cases h
      exact .rule (.assignTarget hhead htarget)
    | some name =>
      simp only [htarget] at h
      rcases bind_eq_error_iff.1 h with hv | ⟨vn, -, h⟩
      · exact .part (part?_assign hhead rfl) hv
      cases h
  · next htwo =>
    cases h
    refine .rule (.assignCount hhead fun hlength => ?_)
    obtain ⟨target, value, rfl⟩ := List.length_eq_two.1 hlength
    exact htwo target value rfl

theorem quote (hhead : head.special? = some .quote)
    (h : (Expr.list (head :: args)).compile = .error error) :
    ErrorSource (.list (head :: args)) error := by
  have hmatch : head.symbol?.bind SpecialForm.ofName? = some .quote := hhead
  rw [compile.eq_def] at h
  simp only [hmatch] at h
  split at h
  · cases h
  · next hone =>
    cases h
    refine .rule (.quoteCount hhead fun hlength => ?_)
    obtain ⟨datum, rfl⟩ := List.length_eq_one_iff.1 hlength
    exact hone datum rfl

theorem lambda (hhead : head.special? = some .lambda)
    (h : (Expr.list (head :: args)).compile = .error error) :
    ErrorSource (.list (head :: args)) error := by
  have hmatch : head.symbol?.bind SpecialForm.ofName? = some .lambda := hhead
  rw [compile.eq_def] at h
  simp only [hmatch, compileAll_eq_mapM] at h
  split at h
  · next params first others =>
    cases hparams : params.paramNames? with
    | none =>
      simp only [hparams] at h
      cases h
      exact .rule (.lambdaParams hhead hparams)
    | some names =>
      simp only [hparams] at h
      rcases bind_eq_error_iff.1 h with hfirst | ⟨n, -, h⟩
      · exact .part (part?_lambda hhead hparams (k := 0) rfl) hfirst
      rcases bind_eq_error_iff.1 h with hothers | ⟨ns, -, h⟩
      · obtain ⟨k, item, hk, hitem⟩ := getElem?_of_mapM_eq_error hothers
        exact .part (part?_lambda hhead hparams (k := k + 1) hk) hitem
      cases h
  · next htwo =>
    cases h
    refine .rule (.lambdaCount hhead ?_)
    rcases args with _ | ⟨params, _ | ⟨first, others⟩⟩
    · exact Nat.two_pos
    · exact Nat.one_lt_two
    · exact absurd rfl (htwo params first others)

theorem apply (hhead : head.special? = none)
    (h : (Expr.list (head :: args)).compile = .error error) :
    ErrorSource (.list (head :: args)) error := by
  have hmatch : head.symbol?.bind SpecialForm.ofName? = none := hhead
  rw [compile.eq_def] at h
  simp only [hmatch, compileAll_eq_mapM] at h
  rcases bind_eq_error_iff.1 h with hf | ⟨fn, -, h⟩
  · exact .part (part?_apply hhead (k := 0) rfl) hf
  rcases bind_eq_error_iff.1 h with hargs | ⟨ns, -, h⟩
  · obtain ⟨k, item, hk, hitem⟩ := getElem?_of_mapM_eq_error hargs
    exact .part (part?_apply hhead (k := k + 1) hk) hitem
  cases h

end

/-- Every error has a source. -/
theorem of_compile (h : form.compile = .error error) : ErrorSource form error := by
  cases form with
  | int value => cases h
  | sym name => cases h
  | str contents => cases h
  | hole =>
    cases h
    exact .hole
  | list items =>
    cases items with
    | nil => cases h
    | cons head args =>
      cases hhead : head.special? with
      | none => exact apply hhead h
      | some special =>
        cases special with
        | branch => exact branch hhead h
        | assign => exact assign hhead h
        | quote => exact quote hhead h
        | lambda => exact lambda hhead h

end ErrorSource

-- ============================================================================
-- Malformed forms in an expression
-- ============================================================================

theorem HasCode.self (e : Expr) : e.HasCode e := ⟨[], [], rfl⟩

/-- A path in a part, with the number of the part at its end, leads to the same place in
    the form. -/
theorem place?_append (hitem : form.part? i = some (entered, item)) (path : List Nat) :
    form.place? (path ++ [i]) =
      (item.place? path).map fun (around, e) => (around ++ entered, e) := by
  induction path with
  | nil => simp [place?, hitem]
  | cons k path ih =>
    simp only [List.cons_append, place?, ih]
    cases item.place? path with
    | none => rfl
    | some found =>
      obtain ⟨around, e⟩ := found
      show (do let (inner, part) ← e.part? k; pure (inner ++ (around ++ entered), part)) = _
      cases hk : e.part? k with
      | none => simp [hk]
      | some part => simp [hk, List.append_assoc]

/-- The code of a part is code of the form. -/
theorem HasCode.of_part (hitem : form.part? i = some (entered, item)) (h : item.HasCode e) :
    form.HasCode e := by
  obtain ⟨path, around, hplace⟩ := h
  refine ⟨path ++ [i], around ++ entered, ?_⟩
  rw [place?_append hitem, hplace, Option.map_some]

/-- An error of an expression is about a malformed form in its code, or about a hole
    there. -/
theorem hasCode_of_compile_eq_error (h : e.compile = .error error) :
    (error = .hole ∧ e.HasCode .hole) ∨
      ∃ rule form, error = .malformed rule form ∧ form.Breaks rule ∧ e.HasCode form := by
  induction e with
  | int value => cases h
  | sym name => cases h
  | str contents => cases h
  | hole =>
    cases h
    exact .inl ⟨rfl, .self _⟩
  | list items ih =>
    cases ErrorSource.of_compile h with
    | rule hbreaks => exact .inr ⟨_, _, rfl, hbreaks, .self _⟩
    | part hitem hcompile =>
      rcases ih _ (mem_of_part? hitem) hcompile with ⟨rfl, hhole⟩ | ⟨rule, form, rfl, hbreaks, hform⟩
      · exact .inl ⟨rfl, hhole.of_part hitem⟩
      · exact .inr ⟨rule, form, rfl, hbreaks, hform.of_part hitem⟩

/-- A malformed form stands at one of the places of an expression. -/
def HasMalformed (e : Expr) : Prop :=
  ∃ rule form, form.Breaks rule ∧ e.HasCode form

/-- An expression whose code has no hole fails to compile exactly if its code has a
    malformed form. -/
theorem compile_eq_error_iff (hhole : ¬ e.HasCode .hole) :
    (∃ error, e.compile = .error error) ↔ e.HasMalformed := by
  constructor
  · rintro ⟨error, h⟩
    rcases hasCode_of_compile_eq_error h with ⟨-, hcode⟩ | ⟨rule, form, -, hbreaks, hcode⟩
    · exact absurd hcode hhole
    · exact ⟨rule, form, hbreaks, hcode⟩
  · rintro ⟨rule, form, hbreaks, hcode⟩
    cases hcompile : e.compile with
    | error error => exact ⟨error, rfl⟩
    | ok node =>
      obtain ⟨part, hpart⟩ := CompilesTo.hasCode hcompile hcode
      cases hbreaks.compile_eq.symm.trans hpart

end Expr

end LineLisp
