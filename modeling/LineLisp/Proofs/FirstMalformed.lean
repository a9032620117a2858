/-
  LineLisp.Proofs.FirstMalformed

  Which malformed form an error is about. The forms that are code in an expression are
  listed in preorder: a form stands before its parts, and these stand in order. A special
  form is checked before its parts are compiled, one check after the other, and so the
  error of an expression is that of the first form in this list that fails a check, and
  the rule is that of the first check it fails.
-/
import LineLisp.Proofs.FormErrors
import LineLisp.Proofs.SourceData

namespace LineLisp

variable {ε α β : Type}

-- ============================================================================
-- Errors of computations
-- ============================================================================

/-- The error that a computation ends with, if it ends with one. -/
def errorOf? : Except ε α → Option ε
  | .ok _ => none
  | .error error => some error

theorem errorOf?_eq_some_iff {x : Except ε α} {error : ε} :
    errorOf? x = some error ↔ x = .error error := by
  cases x <;> simp [errorOf?]

/-- If what follows has the same error whatever it goes on from, then the error of a
    computation is that of its first part, or else that one. -/
theorem errorOf?_bind {x : Except ε α} {f : α → Except ε β} {rest : Option ε}
    (h : ∀ a, errorOf? (f a) = rest) : errorOf? (x >>= f) = (errorOf? x).or rest := by
  cases x with
  | error error => rfl
  | ok a => exact h a

theorem errorOf?_bind_pure (x : Except ε α) (f : α → β) :
    errorOf? (x >>= fun a => pure (f a)) = errorOf? x := by
  cases x <;> rfl

theorem findSome?_cons_eq_or (f : α → Option β) (a : α) (as : List α) :
    (a :: as).findSome? f = (f a).or (as.findSome? f) := by
  rw [List.findSome?_cons]
  cases f a <;> rfl

theorem findSome?_congr {f g : α → Option β} {as : List α} (h : ∀ a ∈ as, f a = g a) :
    as.findSome? f = as.findSome? g := by
  induction as with
  | nil => rfl
  | cons a as ih =>
    obtain ⟨ha, has⟩ := List.forall_mem_cons.1 h
    rw [findSome?_cons_eq_or, findSome?_cons_eq_or, ha, ih has]

theorem findSome?_flatMap (f : α → Option β) (g : ε → List α) (es : List ε) :
    (es.flatMap g).findSome? f = es.findSome? fun e => (g e).findSome? f := by
  induction es with
  | nil => rfl
  | cons e es ih => rw [List.flatMap_cons, List.findSome?_append, ih, findSome?_cons_eq_or]

/-- Of computations in order, the first that fails has the error of all. -/
theorem errorOf?_mapM (f : α → Except ε β) (as : List α) :
    errorOf? (as.mapM f) = as.findSome? fun a => errorOf? (f a) := by
  induction as with
  | nil => rfl
  | cons a as ih =>
    rw [List.mapM_cons, findSome?_cons_eq_or, ← ih]
    exact errorOf?_bind fun b => errorOf?_bind_pure ..

-- ============================================================================
-- Checks
-- ============================================================================

/-- The items of a list. -/
def Expr.items? : Expr → Option (List Expr)
  | .list items => some items
  | _ => none

/-- A check on all items of a form, the head among them, and the rule it is made for. -/
structure FormCheck where
  rule : FormRule
  passes : List Expr → Bool

/-- The checks of a special form in the order in which they are made: how many items there
    are, of what kind the second one is, and of what kind each parameter is. -/
def SpecialForm.checks : SpecialForm → List FormCheck
  | .branch => [⟨.branchCount, fun items => items.length = 3 ∨ items.length = 4⟩]
  | .assign =>
    [⟨.assignCount, fun items => items.length = 3⟩,
      ⟨.assignTarget, fun items => (items[1]?.bind Expr.symbol?).isSome⟩]
  | .quote => [⟨.quoteCount, fun items => items.length = 2⟩]
  | .lambda =>
    [⟨.lambdaCount, fun items => 3 ≤ items.length⟩,
      ⟨.lambdaParams, fun items => (items[1]?.bind Expr.items?).isSome⟩,
      ⟨.lambdaParams, fun items =>
        ((items[1]?.bind Expr.items?).getD []).all fun param => param.symbol?.isSome⟩]

/-- Which of the items behind the head of a special form are code. -/
def SpecialForm.codeItems : SpecialForm → List α → List α
  | .branch, args => args.take 3
  | .assign, args => (args.drop 1).take 1
  | .quote, _ => []
  | .lambda, args => args.drop 1

namespace Expr

variable {e form : Expr} {rule : FormRule} {error : CompileError}

/-- The rule of the first check that a form fails. Only special forms are checked. -/
def brokenRule? : Expr → Option FormRule
  | .list (head :: args) =>
    head.special?.bind fun form =>
      (form.checks.find? fun check => !check.passes (head :: args)).map FormCheck.rule
  | _ => none

/-- A list with the name of a special form for its head, and not of the shape of that form:
    it fails one of its checks. -/
def IsMalformed (form : Expr) : Prop :=
  ∃ head args special, form = .list (head :: args) ∧ head.special? = some special ∧
    ∃ check ∈ special.checks, check.passes (head :: args) = false

theorem isMalformed_iff : form.IsMalformed ↔ ∃ rule, form.brokenRule? = some rule := by
  constructor
  · rintro ⟨head, args, special, rfl, hhead, check, hcheck, hfails⟩
    have hsome : (special.checks.find? fun check => !check.passes (head :: args)).isSome = true :=
      List.find?_isSome.2 ⟨check, hcheck, by simp [hfails]⟩
    obtain ⟨first, hfirst⟩ := Option.isSome_iff_exists.1 hsome
    exact ⟨first.rule, by simp only [brokenRule?, hhead, Option.bind_some, hfirst, Option.map_some]⟩
  · rintro ⟨rule, h⟩
    unfold brokenRule? at h
    split at h
    · next head args =>
      obtain ⟨special, hhead, h⟩ := Option.bind_eq_some_iff.1 h
      obtain ⟨check, hfirst, -⟩ := Option.map_eq_some_iff.1 h
      have hfails := List.find?_some hfirst
      exact ⟨head, args, special, rfl, hhead, check, List.mem_of_find?_eq_some hfirst, by
        simpa using hfails⟩
    · cases h

-- ============================================================================
-- Code in preorder
-- ============================================================================

mutual

/-- The forms that are code in an expression, in preorder: the expression itself, and then
    those in its parts from left to right. -/
def codeForms : Expr → List Expr
  | .list (head :: args) =>
    .list (head :: args) ::
      match head.special? with
      | some form => (form.codeItems (codeFormsEach args)).flatten
      | none => codeForms head ++ (codeFormsEach args).flatten
  | e => [e]

/-- The forms that are code in each of some expressions. -/
def codeFormsEach : List Expr → List (List Expr)
  | [] => []
  | e :: es => codeForms e :: codeFormsEach es

end

/-- The parts of a form that are code. -/
def codeParts : Expr → List Expr
  | .list (head :: args) =>
    match head.special? with
    | some form => form.codeItems args
    | none => head :: args
  | _ => []

theorem codeFormsEach_eq_map (es : List Expr) : codeFormsEach es = es.map codeForms := by
  induction es with
  | nil => rfl
  | cons e es ih => rw [codeFormsEach, ih, List.map_cons]

theorem codeItems_map (form : SpecialForm) (f : α → β) (args : List α) :
    form.codeItems (args.map f) = (form.codeItems args).map f := by
  cases form <;> simp [SpecialForm.codeItems]

/-- The code of a form is the form itself and then the code of its parts. -/
theorem codeForms_eq (e : Expr) : e.codeForms = e :: e.codeParts.flatMap codeForms := by
  match e with
  | .int _ | .sym _ | .str _ | .hole | .list [] => rfl
  | .list (head :: args) =>
    rw [codeForms, codeParts, codeFormsEach_eq_map]
    cases head.special? with
    | none => rfl
    | some form =>
      simp only [codeItems_map, List.flatMap_def]

/-- The parts of a form are items of it. -/
theorem mem_of_mem_codeParts {items : List Expr} {part : Expr}
    (h : part ∈ (Expr.list items).codeParts) : part ∈ items := by
  cases items with
  | nil => cases h
  | cons head args =>
    rw [codeParts] at h
    cases hhead : head.special? with
    | none => simpa only [hhead] using h
    | some form =>
      simp only [hhead] at h
      refine List.mem_cons_of_mem _ ?_
      cases form with
      | branch => exact List.mem_of_mem_take h
      | assign => exact List.mem_of_mem_drop (List.mem_of_mem_take h)
      | quote => cases h
      | lambda => exact List.mem_of_mem_drop h

/-- What passes from lists to their items passes from an expression to all its code. -/
theorem of_mem_codeForms {P : Expr → Prop}
    (hitem : ∀ {items : List Expr} {e : Expr}, P (.list items) → e ∈ items → P e) (he : P e) :
    ∀ form ∈ e.codeForms, P form := by
  induction e with
  | list items ih =>
    intro form hform
    rw [codeForms_eq] at hform
    rcases List.mem_cons.1 hform with rfl | hform
    · exact he
    · obtain ⟨part, hpart, hform⟩ := List.mem_flatMap.1 hform
      have hmem : part ∈ items := mem_of_mem_codeParts hpart
      exact ih part hmem (hitem he hmem) form hform
  | _ => exact List.forall_mem_singleton.2 he

-- ============================================================================
-- Errors in preorder
-- ============================================================================

/-- The error of a form that has nothing to do with its parts. -/
def ownError? : Expr → Option CompileError
  | .hole => some .hole
  | form => form.brokenRule?.map fun rule => .malformed rule form

section

variable {head : Expr} {args : List Expr}

/-- A special form is checked first, and then its parts are compiled in order. -/
def ChecksFirst (e : Expr) : Prop :=
  errorOf? e.compile = e.ownError?.or (e.codeParts.findSome? fun part => errorOf? part.compile)

theorem checksFirst_branch (hhead : head.special? = some .branch) :
    (Expr.list (head :: args)).ChecksFirst := by
  have hmatch : head.symbol?.bind SpecialForm.ofName? = some .branch := hhead
  unfold ChecksFirst
  rw [compile.eq_def]
  simp only [ownError?, brokenRule?, codeParts, hhead, hmatch, SpecialForm.checks,
    SpecialForm.codeItems, Option.bind_some]
  rcases args with _ | ⟨c, _ | ⟨t, _ | ⟨e, _ | ⟨extra, rest⟩⟩⟩⟩
  · rfl
  · rfl
  · refine Eq.trans (errorOf?_bind fun cn => errorOf?_bind_pure ..) ?_
    simp [findSome?_cons_eq_or]
  · refine Eq.trans (errorOf?_bind fun cn => errorOf?_bind fun tn => errorOf?_bind_pure ..) ?_
    simp [findSome?_cons_eq_or]
  · simp [errorOf?]

theorem checksFirst_assign (hhead : head.special? = some .assign) :
    (Expr.list (head :: args)).ChecksFirst := by
  have hmatch : head.symbol?.bind SpecialForm.ofName? = some .assign := hhead
  unfold ChecksFirst
  rw [compile.eq_def]
  simp only [ownError?, brokenRule?, codeParts, hhead, hmatch, SpecialForm.checks,
    SpecialForm.codeItems, Option.bind_some]
  rcases args with _ | ⟨target, _ | ⟨value, _ | ⟨extra, rest⟩⟩⟩
  · rfl
  · rfl
  · cases htarget : target.symbol? with
    | none => simp [htarget, errorOf?]
    | some name =>
      simp only [htarget]
      refine Eq.trans (errorOf?_bind_pure ..) ?_
      simp [htarget]
  · simp [errorOf?]

theorem checksFirst_quote (hhead : head.special? = some .quote) :
    (Expr.list (head :: args)).ChecksFirst := by
  have hmatch : head.symbol?.bind SpecialForm.ofName? = some .quote := hhead
  unfold ChecksFirst
  rw [compile.eq_def]
  simp only [ownError?, brokenRule?, codeParts, hhead, hmatch, SpecialForm.checks,
    SpecialForm.codeItems, Option.bind_some]
  rcases args with _ | ⟨datum, _ | ⟨extra, rest⟩⟩
  · rfl
  · rfl
  · simp [errorOf?]

/-- The second and the third check on a lambda are those that its parameters have names. -/
theorem isSome_paramNames? (params : Expr) :
    params.paramNames?.isSome =
      (params.items?.isSome && (params.items?.getD []).all fun param => param.symbol?.isSome) := by
  cases params with
  | list items =>
    show (items.mapM symbol?).isSome = items.all fun param => param.symbol?.isSome
    induction items with
    | nil => rfl
    | cons item items ih =>
      rw [List.mapM_cons, List.all_cons, ← ih]
      cases item.symbol? with
      | none => rfl
      | some name => cases items.mapM symbol? <;> rfl
  | _ => rfl

theorem checksFirst_lambda (hhead : head.special? = some .lambda) :
    (Expr.list (head :: args)).ChecksFirst := by
  have hmatch : head.symbol?.bind SpecialForm.ofName? = some .lambda := hhead
  unfold ChecksFirst
  rw [compile.eq_def]
  simp only [ownError?, brokenRule?, codeParts, hhead, hmatch, SpecialForm.checks,
    SpecialForm.codeItems, Option.bind_some]
  rcases args with _ | ⟨params, _ | ⟨first, others⟩⟩
  · rfl
  · rfl
  · have hnames := params.isSome_paramNames?
    cases hparams : params.paramNames? with
    | none =>
      rw [hparams, Option.isSome_none] at hnames
      simp only [hparams, errorOf?]
      cases hlist : params.items?.isSome with
      | false => simp [hlist]
      | true =>
        rw [hlist, Bool.true_and] at hnames
        simp [hlist, ← hnames]
    | some names =>
      rw [hparams, Option.isSome_some] at hnames
      obtain ⟨hlist, hsymbols⟩ := Bool.and_eq_true_iff.1 hnames.symm
      simp only [hparams, compileAll_eq_mapM]
      refine Eq.trans (errorOf?_bind fun n => errorOf?_bind_pure ..) ?_
      simp [hlist, hsymbols, errorOf?_mapM, findSome?_cons_eq_or]

theorem checksFirst_apply (hhead : head.special? = none) :
    (Expr.list (head :: args)).ChecksFirst := by
  have hmatch : head.symbol?.bind SpecialForm.ofName? = none := hhead
  unfold ChecksFirst
  rw [compile.eq_def]
  simp only [ownError?, brokenRule?, codeParts, hhead, hmatch, Option.bind_none, compileAll_eq_mapM]
  refine Eq.trans (errorOf?_bind fun fn => errorOf?_bind_pure ..) ?_
  rw [errorOf?_mapM, Option.map_none, Option.none_or, findSome?_cons_eq_or]

end

theorem checksFirst (e : Expr) : e.ChecksFirst := by
  match e with
  | .int _ | .sym _ | .str _ | .hole | .list [] => rfl
  | .list (head :: args) =>
    cases hhead : head.special? with
    | none => exact checksFirst_apply hhead
    | some special =>
      cases special with
      | branch => exact checksFirst_branch hhead
      | assign => exact checksFirst_assign hhead
      | quote => exact checksFirst_quote hhead
      | lambda => exact checksFirst_lambda hhead

/-- The error of an expression is the own error of the first form in its code that has one.
    The induction is on the expression. -/
theorem errorOf?_compile (e : Expr) : errorOf? e.compile = e.codeForms.findSome? ownError? := by
  have hstep : ∀ e : Expr, (∀ part ∈ e.codeParts,
      errorOf? part.compile = part.codeForms.findSome? ownError?) →
      errorOf? e.compile = e.codeForms.findSome? ownError? := by
    intro e hparts
    rw [e.checksFirst, codeForms_eq, findSome?_cons_eq_or, findSome?_flatMap,
      findSome?_congr hparts]
  induction e with
  | list items ih => exact hstep _ fun part hpart => ih part (mem_of_mem_codeParts hpart)
  | _ => exact hstep _ nofun

/-- The code of an expression that compiles has no malformed form. -/
theorem not_isMalformed_of_compile {node : Node} (h : e.compile = .ok node) :
    ∀ form ∈ e.codeForms, ¬ form.IsMalformed := by
  have hnone : e.codeForms.findSome? ownError? = none := by
    rw [← errorOf?_compile, h]
    rfl
  rintro form hform ⟨head, args, special, rfl, hmalformed⟩
  obtain ⟨rule, hrule⟩ := isMalformed_iff.1 ⟨head, args, special, rfl, hmalformed⟩
  have hown := List.findSome?_eq_none_iff.1 hnone _ hform
  have hmap : (Option.some rule).map (CompileError.malformed · (.list (head :: args))) = none := by
    rw [← hrule]
    exact hown
  cases hmap

-- ============================================================================
-- The theorem
-- ============================================================================

/-- Expressions without a hole in them. -/
inductive HoleFree : Expr → Prop where
  | int (n : Int) : HoleFree (.int n)
  | sym (name : String) : HoleFree (.sym name)
  | str (contents : String) : HoleFree (.str contents)
  | list {items : List Expr} (h : ∀ e ∈ items, HoleFree e) : HoleFree (.list items)

theorem holeFree_list {items : List Expr} :
    (Expr.list items).HoleFree ↔ ∀ e ∈ items, e.HoleFree := by
  constructor
  · rintro ⟨⟩
    assumption
  · exact .list

theorem HoleFree.ownError?_eq (h : form.HoleFree) :
    form.ownError? = form.brokenRule?.map fun rule => .malformed rule form := by
  cases h <;> rfl

/-- A form stands in the code of an expression, and it is the first one there that is
    malformed: those in front of it in preorder are not. -/
def FirstMalformed (e form : Expr) : Prop :=
  form.IsMalformed ∧ ∃ before after, e.codeForms = before ++ form :: after ∧
    ∀ other ∈ before, ¬ other.IsMalformed

theorem HoleFree.compile_eq_error_iff (h : e.HoleFree) :
    e.compile = .error error ↔ ∃ rule form, error = .malformed rule form ∧
      e.FirstMalformed form ∧ form.brokenRule? = some rule := by
  have hall : ∀ form ∈ e.codeForms, form.HoleFree :=
    of_mem_codeForms (fun hlist he => holeFree_list.1 hlist _ he) h
  rw [← errorOf?_eq_some_iff, errorOf?_compile, List.findSome?_eq_some_iff]
  constructor
  · rintro ⟨before, form, after, hcode, herror, hbefore⟩
    have hform : form.HoleFree := hall form (by simp [hcode])
    rw [hform.ownError?_eq] at herror
    obtain ⟨rule, hrule, rfl⟩ := Option.map_eq_some_iff.1 herror
    refine ⟨rule, form, rfl, ⟨isMalformed_iff.2 ⟨rule, hrule⟩, before, after, hcode, ?_⟩, hrule⟩
    intro other hother hmalformed
    obtain ⟨broken, hbroken⟩ := isMalformed_iff.1 hmalformed
    have hnone := hbefore other hother
    rw [(hall other (by simp [hcode, hother])).ownError?_eq, hbroken] at hnone
    cases hnone
  · rintro ⟨rule, form, rfl, ⟨-, before, after, hcode, hbefore⟩, hrule⟩
    refine ⟨before, form, after, hcode, ?_, fun other hother => ?_⟩
    · rw [(hall form (by simp [hcode])).ownError?_eq, hrule]
      rfl
    · rw [(hall other (by simp [hcode, hother])).ownError?_eq, Option.map_eq_none_iff,
        Option.eq_none_iff_forall_ne_some]
      exact fun broken hbroken => hbefore other hother (isMalformed_iff.2 ⟨broken, hbroken⟩)

end Expr

end LineLisp
