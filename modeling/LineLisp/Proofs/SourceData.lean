/-
  LineLisp.Proofs.SourceData

  What the data of a session are made of. All code of a session comes from source text, so
  all data in it do: their names and strings are as the lexer reads them, and their lists
  leave room for one more around them. Only their integers can be larger than any numeral,
  since sums have no bound. Runs keep this, and since no code has holes, they end with
  faults that a session goes on after.
-/
import LineLisp.Proofs.Phases
import LineLisp.Proofs.ShellLines
import LineLisp.Proofs.Simulation
import Mathlib.Data.Nat.Basic

namespace LineLisp

variable {e form : Expr} {node : Node} {α : Type}

-- ============================================================================
-- Integers in data
-- ============================================================================

/-- The number of digits of an integer, without its sign. -/
def Numeral.digits (n : Int) : Nat :=
  (Nat.toDigits 10 n.natAbs).length

theorem Numeral.fits_iff_digits_le {n : Int} : fits n = true ↔ digits n ≤ maxDigits := by
  have hpos : 0 < maxDigits := by decide
  rw [fits_iff, digits]
  unfold bound
  generalize maxDigits = limit at hpos ⊢
  exact (Nat.length_toDigits_le_iff (by decide) hpos).symm

namespace Expr

/-- An integer stands in an expression. -/
inductive HasInt (n : Int) : Expr → Prop where
  | here : HasInt n (.int n)
  | item {items : List Expr} {e : Expr} (he : e ∈ items) (h : HasInt n e) : HasInt n (.list items)

section

variable {n : Int}

@[simp] theorem hasInt_int {m : Int} : (Expr.int m).HasInt n ↔ n = m := by
  constructor
  · rintro ⟨⟩
    rfl
  · rintro rfl
    exact .here

@[simp] theorem not_hasInt_sym {name : String} : ¬ (Expr.sym name).HasInt n := nofun

@[simp] theorem not_hasInt_str {contents : String} : ¬ (Expr.str contents).HasInt n := nofun

@[simp] theorem not_hasInt_hole : ¬ Expr.hole.HasInt n := nofun

@[simp] theorem hasInt_list {items : List Expr} :
    (Expr.list items).HasInt n ↔ ∃ e ∈ items, e.HasInt n := by
  constructor
  · rintro (_ | ⟨he, h⟩)
    exact ⟨_, he, h⟩
  · rintro ⟨e, he, h⟩
    exact .item he h

end

/-- All integers of an expression can be written if each has few enough digits. -/
theorem fits_iff : e.fits = true ↔ ∀ n, e.HasInt n → Numeral.digits n ≤ Numeral.maxDigits := by
  induction e with
  | int m => simp [fits, Numeral.fits_iff_digits_le]
  | sym name => simp [fits]
  | str contents => simp [fits]
  | hole => simp [fits]
  | list items ih =>
    rw [fits_list]
    constructor
    · intro h n hn
      obtain ⟨e, he, hint⟩ := hasInt_list.1 hn
      exact (ih e he).1 (h e he) n hint
    · exact fun h e he => (ih e he).2 fun n hn => h n (.item he hn)

/-- Expressions that source text can hold but for the length of their integers. -/
inductive Lexical : Expr → Prop where
  | int (n : Int) : Lexical (.int n)
  | sym {name : String} (h : TokenKind.symbol.Language name.toList) : Lexical (.sym name)
  | str {contents : String} (h : StringBody contents.toList) : Lexical (.str contents)
  | list {items : List Expr} (h : ∀ e ∈ items, Lexical e) : Lexical (.list items)

theorem Readable.lexical (h : e.Readable) : e.Lexical := by
  induction h with
  | int _ => exact .int _
  | sym hname => exact .sym hname
  | str hcontents => exact .str hcontents
  | list _ ih => exact .list ih

theorem Lexical.readable (h : e.Lexical) (hfits : e.fits = true) : e.Readable := by
  induction h with
  | int n => exact .int (by rwa [fits] at hfits)
  | sym hname => exact .sym hname
  | str hcontents => exact .str hcontents
  | list _ ih => exact .list fun e he => ih e he (fits_list.1 hfits e he)

/-- Data of a session: lexical, with room for one more list around. -/
structure Quotable (e : Expr) : Prop where
  lexical : e.Lexical
  depth_lt : e.depth < maxNesting

theorem quotable_nil : Quotable .nil := ⟨.list nofun, by decide⟩

theorem quotable_int (n : Int) : Quotable (.int n) := by
  refine ⟨.int n, ?_⟩
  rw [depth]
  decide

/-- The items of an expression of source text are such themselves, and can be quoted. -/
theorem Sourced.item {items : List Expr} (h : (Expr.list items).Sourced) (he : e ∈ items) :
    e.Sourced ∧ e.Quotable := by
  have hdepth := h.depth_le
  rw [depth] at hdepth
  have hitem : e.depth ≤ depthAll items := depthAll_le_iff.1 (Nat.le_refl _) e he
  cases h.readable with
  | list hitems =>
    have hread := hitems e he
    exact ⟨⟨hread, by omega⟩, ⟨hread.lexical, by omega⟩⟩

end Expr

-- ============================================================================
-- Code and values
-- ============================================================================

/-- Code that comes from source text: its data can be quoted, and it has no holes. -/
inductive Node.Sourced : Node → Prop where
  | literal {e : Expr} (h : e.Quotable) : Sourced (.literal e)
  | lookup (name : String) : Sourced (.lookup name)
  | branch {c t e : Node} (hc : Sourced c) (ht : Sourced t) (he : Sourced e) :
    Sourced (.branch c t e)
  | assign (name : String) {n : Node} (h : Sourced n) : Sourced (.assign name n)
  | lambda (params : List String) {body : List Node} (h : ∀ n ∈ body, Sourced n) :
    Sourced (.lambda params body)
  | apply {f : Node} {args : List Node} (hf : Sourced f) (hargs : ∀ n ∈ args, Sourced n) :
    Sourced (.apply f args)

theorem Node.sourced_of_forall₂ {items : List Expr} {nodes : List Node}
    (h : List.Forall₂ Expr.CompilesTo items nodes)
    (hitems : ∀ e ∈ items, ∀ node, e.CompilesTo node → node.Sourced) :
    ∀ node ∈ nodes, node.Sourced := by
  induction h with
  | nil => exact nofun
  | cons hnode _ ih =>
    obtain ⟨hfirst, hrest⟩ := List.forall_mem_cons.1 hitems
    exact List.forall_mem_cons.2 ⟨hfirst _ hnode, ih hrest⟩

/-- Source text compiles to code that comes from it. -/
theorem Expr.Sourced.compiled (h : e.Sourced) (hnode : e.CompilesTo node) : node.Sourced := by
  induction e generalizing node with
  | int n =>
    cases hnode
    exact .literal (quotable_int n)
  | sym name =>
    cases hnode
    exact .lookup name
  | str contents =>
    cases hnode
    refine .literal ⟨h.readable.lexical, ?_⟩
    rw [depth]
    decide
  | hole => cases hnode
  | list items ih =>
    have hitem : ∀ e ∈ items, ∀ node, e.CompilesTo node → node.Sourced :=
      fun e he node hnode => ih e he (h.item he).1 hnode
    cases hnode.form with
    | nil => exact .literal quotable_nil
    | choice hhead hc ht =>
      exact .branch (hitem _ (by simp) _ hc) (hitem _ (by simp) _ ht) (.literal quotable_nil)
    | branch hhead hc ht he =>
      exact .branch (hitem _ (by simp) _ hc) (hitem _ (by simp) _ ht) (hitem _ (by simp) _ he)
    | assign hhead htarget hform => exact .assign _ (hitem _ (by simp) _ hform)
    | quote hhead datum => exact .literal (h.item (by simp)).2
    | lambda hhead hparams hbody =>
      refine .lambda _ (Node.sourced_of_forall₂ hbody fun e he => hitem e ?_)
      exact List.mem_cons_of_mem _ (List.mem_cons_of_mem _ he)
    | apply hhead hf hargs =>
      refine .apply (hitem _ (by simp) _ hf) (Node.sourced_of_forall₂ hargs fun e he => hitem e ?_)
      exact List.mem_cons_of_mem _ he

/-- Values that are made of source text. -/
def Value.Sourced : Value Empty → Prop
  | .datum e => e.Quotable
  | .closure _ body _ => ∀ n ∈ body, n.Sourced
  | .primitive _ _ => True

/-- Stores in which all values are made of source text. -/
def Store.Sourced (s : Store (Value Empty)) : Prop :=
  ∀ f name v, s.get? f name = some v → v.Sourced

-- ============================================================================
-- Stores
-- ============================================================================

namespace Store.Sourced

variable {s : Store (Value Empty)}

theorem empty : (Store.empty : Store (Value Empty)).Sourced :=
  fun _ _ _ hv => absurd (lt_next_of_get? hv) (Nat.not_lt_zero _)

/-- What every session starts with is made of source text. -/
theorem newGlobal (h : s.Sourced) : s.newGlobal.2.Sourced := by
  refine (All.add h none).defineAll s.next fun b hb => ?_
  simp only [builtins, List.mem_cons, List.not_mem_nil, or_false] at hb
  rcases hb with rfl | rfl
  · exact Expr.quotable_nil
  · trivial

end Store.Sourced

-- ============================================================================
-- Runs
-- ============================================================================

/-- Code that comes from source text, in one frame. -/
def SourcedCode (n : Node) (f : Nat) (m : Node) (g : Nat) : Prop :=
  m = n ∧ g = f ∧ n.Sourced

theorem Value.alike_sourced_iff {v w : Value Empty} :
    Value.Alike Expr.Quotable SourcedCode v w ↔ w = v ∧ v.Sourced := by
  constructor
  · intro h
    cases h with
    | datum he => exact ⟨rfl, he⟩
    | primitive name operation => exact ⟨rfl, trivial⟩
    | closure hcode =>
      obtain ⟨hsame, rfl, hsourced⟩ := hcode
      cases hsame
      cases hsourced with
      | lambda _ hbody => exact ⟨rfl, hbody⟩
  · rintro ⟨rfl, h⟩
    cases w with
    | datum e => exact .datum h
    | primitive name operation => exact .primitive name operation
    | closure params body scope => exact .closure ⟨rfl, rfl, .lambda params h⟩

/-- Every run beside itself, where all values are made of source text. This is said of
    a store as it is, so that all stages are alike. -/
def sourceLikeness : Likeness Empty Nat where
  Data := Expr.Quotable
  Codes _ := SourcedCode
  Stores _ s t := t = s ∧ s.Sourced
  Admits := Fault.Reported
  codes_mono _ _ _ _ _ h := h

theorem sourceLikeness_closed : sourceLikeness.Closed where
  steps := by
    rintro w n f m g ⟨rfl, rfl, h⟩
    cases h with
    | literal he => exact .literal he
    | lookup name =>
      refine .lookup (.lookup ?_ (.inr ⟨_, rfl⟩))
      rintro _ _ s t ⟨rfl, hs⟩
      cases hv : t.lookup? g name with
      | none => exact .none
      | some v => exact .some (Value.alike_sourced_iff.2 ⟨rfl, Store.All.lookup? hs hv⟩)
    | branch hc ht he => exact .branch ⟨rfl, rfl, hc⟩ ⟨rfl, rfl, ht⟩ ⟨rfl, rfl, he⟩
    | assign name hn =>
      refine .assign ⟨rfl, rfl, hn⟩ fun _ _ v v' hv => .update ?_
      rintro _ _ s t ⟨rfl, hs⟩
      obtain ⟨rfl, hv⟩ := Value.alike_sourced_iff.1 hv
      exact ⟨rfl, Store.All.define hs g name hv⟩
    | apply hf hargs =>
      exact .apply ⟨rfl, rfl, hf⟩ (List.forall₂_same.2 fun a ha => ⟨rfl, rfl, hargs a ha⟩)
    | lambda params hbody =>
      refine .lambda fun _ _ vs vs' hvs => .bindArguments rfl hvs ?_ (.inr ⟨_, rfl⟩)
      rintro _ w _ s t ⟨rfl, hs⟩
      obtain ⟨rfl, hargs⟩ := forall₂_beside_self (hvs.imp fun _ _ => Value.alike_sourced_iff.1)
      have hzip : ∀ b ∈ params.zip vs', b.2.Sourced := fun b hb => hargs b.2 (List.of_mem_zip hb).2
      exact ⟨w, le_rfl, ⟨rfl, (Store.All.add hs (some g)).defineAll t.next hzip⟩,
        List.forall₂_same.2 fun n hn => ⟨rfl, rfl, hbody n hn⟩⟩
  nil := Expr.quotable_nil
  int := Expr.quotable_int
  admits := by
    rintro _ (_ | _ | _)
    · exact .inr ⟨_, rfl⟩
    · exact .inr ⟨_, rfl⟩
    · exact .inl rfl
  host := Likeness.host_of_empty

/-- Results with a property, and faults that a session goes on after. -/
inductive SourcedEnd (Q : α → Prop) : Except (Fault (Value Empty)) α → Prop where
  | ok {a : α} (h : Q a) : SourcedEnd Q (.ok a)
  | error {fault : Fault (Value Empty)} (h : fault.Reported) : SourcedEnd Q (.error fault)

/-- From stores in which all values are made of source text a run comes to such stores,
    whatever its end. -/
def Run.StaysSourced (Q : α → Prop) (x : Run (Value Empty) α) : Prop :=
  ∀ s, s.Sourced → (x.outcome s).2.Sourced ∧ SourcedEnd Q (x.outcome s).1

namespace Run.StaysSourced

variable {β : Type} {Q : α → Prop} {P : β → Prop} {x : Run (Value Empty) α}

theorem pure {a : α} (h : Q a) : StaysSourced Q (pure a) :=
  fun _ hs => ⟨hs, .ok h⟩

theorem ofExcept {r : Except (Fault (Value Empty)) α} (h : SourcedEnd Q r) :
    StaysSourced Q (.ofExcept r) := by
  intro s hs
  rw [outcome_ofExcept]
  exact ⟨hs, h⟩

theorem bind {f : α → Run (Value Empty) β} (hx : StaysSourced Q x)
    (hf : ∀ a, Q a → StaysSourced P (f a)) : StaysSourced P (x >>= f) := by
  intro s hs
  obtain ⟨hstore, hend⟩ := hx s hs
  rw [outcome_bind]
  rcases hout : x.outcome s with ⟨r, t⟩
  rw [hout] at hstore hend
  cases hend with
  | ok ha => exact hf _ ha t hstore
  | error hfault => exact ⟨hstore, .error hfault⟩

theorem mapM {f : β → Run (Value Empty) α} {bs : List β} (h : ∀ b ∈ bs, StaysSourced Q (f b)) :
    StaysSourced (fun as => ∀ a ∈ as, Q a) (bs.mapM f) := by
  induction bs with
  | nil =>
    rw [List.mapM_nil]
    exact pure nofun
  | cons b bs ih =>
    obtain ⟨hb, hbs⟩ := List.forall_mem_cons.1 h
    rw [List.mapM_cons]
    exact hb.bind fun a ha => (ih hbs).bind fun as has => pure (List.forall_mem_cons.2 ⟨ha, has⟩)

end Run.StaysSourced

theorem Node.Sourced.evaluate (h : node.Sourced) (limit frame : Nat) :
    Run.StaysSourced Value.Sourced (node.evaluate limit frame) := by
  intro s hs
  obtain ⟨_, -, ⟨-, hstore⟩, hends⟩ := (sourceLikeness_closed.alike limit).1 0 node frame node
    frame ⟨rfl, rfl, h⟩ 0 le_rfl s s ⟨rfl, hs⟩
  refine ⟨hstore, ?_⟩
  generalize ((node.evaluate limit frame).outcome s).1 = r at hends
  cases hends with
  | ok hvalue => exact .ok (Value.alike_sourced_iff.1 hvalue).2
  | error _ hreported => exact .error hreported

/-- Expressions of source text run to values that are made of source text. -/
theorem Expr.Sourced.run (h : e.Sourced) (frame limit : Nat) :
    Run.StaysSourced Value.Sourced (runExprWithin frame limit e) := by
  refine (Run.StaysSourced.ofExcept (Q := Node.Sourced) ?_).bind fun node hnode =>
    hnode.evaluate limit frame
  unfold compileExpr
  cases hcompile : e.compile with
  | ok node => exact .ok (h.compiled hcompile)
  | error error =>
    obtain ⟨rule, form, rfl, -⟩ := h.readable.malformed_of_compile hcompile
    exact .error (.inr ⟨_, rfl⟩)

/-- Expressions of source text that come through in order leave a store in which all values
    are made of source text. -/
theorem Store.Sourced.after_exprs {es : List Expr} (hes : ∀ e ∈ es, e.Sourced) {frame limit : Nat}
    {s t : Store (Value Empty)} {values : List (Value Empty)} (hs : s.Sourced)
    (h : (es.mapM (runExprWithin frame limit)).outcome s = (.ok values, t)) : t.Sourced := by
  have hmap := Run.StaysSourced.mapM (fun e he => (hes e he).run frame limit) s hs
  rw [h] at hmap
  exact hmap.1

theorem readSource_sourcedEnd (line : String) :
    SourcedEnd (fun exprs => ∀ e ∈ exprs, e.Sourced)
      (readSource line : Except (Fault (Value Empty)) (List Expr)) := by
  cases hread : (readSource line : Except (Fault (Value Empty)) (List Expr)) with
  | ok exprs => exact .ok (sourced_of_readSource hread)
  | error fault =>
    refine .error ?_
    unfold readSource at hread
    split at hread
    · cases hread
      exact .inr ⟨_, rfl⟩
    · split at hread
      · next error _ =>
        cases hread
        exact Fault.reported_reading error
      · cases hread

/-- Lines run to values that are made of source text. -/
theorem Session.evalWithin_staysSourced (session : Session) (limit : Nat) (line : String) :
    Run.StaysSourced (fun values => ∀ v ∈ values, v.Sourced) (session.evalWithin limit line) :=
  (Run.StaysSourced.ofExcept (readSource_sourcedEnd line)).bind fun _ hexprs =>
    .mapM fun e he => (hexprs e he).run session.root limit

end LineLisp
