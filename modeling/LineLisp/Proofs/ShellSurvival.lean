/-
  LineLisp.Proofs.ShellSurvival

  A shell goes on after every line, with one exception. In a fresh session every fault is
  one that the shell reports, so only an integer that cannot be written lets a line escape:
  one of more than 4300 digits in a value to be written or in the wording of a fault. All
  that the line has written and bound before stays.
-/
import LineLisp.Proofs.FreshSession

namespace LineLisp

variable {η : Type} {n : Int} {e : Expr} {es : List Expr}

-- ============================================================================
-- Integers in what is written
-- ============================================================================

/-- An integer stands in a value. -/
def Value.HasInt (n : Int) : Value η → Prop
  | .datum e => e.HasInt n
  | .closure _ _ _ => False
  | .primitive _ _ => False

/-- An integer stands in the data that the wording of a fault shows. -/
inductive Fault.HasInt (n : Int) : Fault (Value η) → Prop where
  | form (rule : FormRule) {form : Expr} (h : form.HasInt n) :
    HasInt n (.compiling (.malformed rule form))
  | notApplicable {v : Value η} (h : v.HasInt n) : HasInt n (.notApplicable v)
  | notInteger (function : String) (position : Nat) {v : Value η} (h : v.HasInt n) :
    HasInt n (.notInteger function position v)

/-- A value with an integer of more than 4300 digits. -/
def Value.IsLong (v : Value η) : Prop :=
  ∃ n, v.HasInt n ∧ 4300 < Numeral.digits n

/-- A fault whose wording shows an integer of more than 4300 digits. -/
def Fault.IsLong (fault : Fault (Value η)) : Prop :=
  ∃ n, fault.HasInt n ∧ 4300 < Numeral.digits n

theorem Expr.fits_eq_false_iff : e.fits = false ↔ ∃ n, e.HasInt n ∧ 4300 < Numeral.digits n := by
  rw [Bool.eq_false_iff, Ne, fits_iff]
  simp only [not_forall, not_le, exists_prop]
  rfl

theorem Value.fits_eq_false_iff {v : Value η} : v.fits = false ↔ v.IsLong := by
  cases v with
  | datum e => exact Expr.fits_eq_false_iff
  | closure params body scope => simp [fits, IsLong, HasInt]
  | primitive name operation => simp [fits, IsLong, HasInt]

namespace Fault

@[simp] theorem hasInt_malformed {rule : FormRule} :
    (compiling (.malformed rule e) : Fault (Value η)).HasInt n ↔ e.HasInt n := by
  constructor
  · rintro ⟨⟩
    assumption
  · exact .form rule

@[simp] theorem hasInt_notApplicable {v : Value η} : (notApplicable v).HasInt n ↔ v.HasInt n := by
  constructor
  · rintro ⟨⟩
    assumption
  · exact .notApplicable

@[simp] theorem hasInt_notInteger {function : String} {position : Nat} {v : Value η} :
    (notInteger function position v).HasInt n ↔ v.HasInt n := by
  constructor
  · rintro ⟨⟩
    assumption
  · exact .notInteger function position

theorem fits_eq_false_iff {fault : Fault (Value η)} : fault.fits = false ↔ fault.IsLong := by
  have hno : ∀ {fault : Fault (Value η)}, fault.fits = true → (∀ n, ¬ fault.HasInt n) →
      (fault.fits = false ↔ fault.IsLong) := by
    intro fault hfits hint
    rw [hfits]
    exact ⟨nofun, fun ⟨n, hn, _⟩ => absurd hn (hint n)⟩
  cases fault with
  | compiling error =>
    cases error with
    | hole => exact hno rfl nofun
    | malformed rule form =>
      simp only [IsLong, hasInt_malformed]
      exact Expr.fits_eq_false_iff
  | notApplicable v =>
    simp only [IsLong, hasInt_notApplicable]
    exact Value.fits_eq_false_iff
  | notInteger function position v =>
    simp only [IsLong, hasInt_notInteger]
    exact Value.fits_eq_false_iff
  | _ => exact hno rfl nofun

end Fault

-- ============================================================================
-- What escapes from the expressions of a line
-- ============================================================================

/-- Running expressions in order makes the shell write an integer of more than 4300 digits:
    in the value of one of them or in the wording of its fault, behind others that came
    through with values that can be written. -/
inductive RendersLong [Host η] (frame : Nat) : List Expr → Store (Value η) → Prop where
  | value {e : Expr} {es : List Expr} {s t : Store (Value η)} {v : Value η}
    (h : (runExprWithin frame maxDepth e).outcome s = (.ok v, t)) (hlong : v.IsLong) :
    RendersLong frame (e :: es) s
  | message {e : Expr} {es : List Expr} {s t : Store (Value η)} {fault : Fault (Value η)}
    (h : (runExprWithin frame maxDepth e).outcome s = (.error fault, t)) (hlong : fault.IsLong) :
    RendersLong frame (e :: es) s
  | later {e : Expr} {es : List Expr} {s t : Store (Value η)} {v : Value η}
    (h : (runExprWithin frame maxDepth e).outcome s = (.ok v, t)) (hshort : ¬ v.IsLong)
    (hrest : RendersLong frame es t) : RendersLong frame (e :: es) s

section

variable [Host η] {frame : Nat} {s t : Store (Value η)} {v : Value η} {fault : Fault (Value η)}

theorem rendersLong_error_iff
    (h : (runExprWithin frame maxDepth e).outcome s = (.error fault, t)) :
    RendersLong frame (e :: es) s ↔ fault.IsLong := by
  constructor
  · rintro (⟨h', -⟩ | ⟨h', hlong⟩ | ⟨h', -, -⟩)
    · rw [h] at h'
      cases h'
    · rw [h] at h'
      cases h'
      exact hlong
    · rw [h] at h'
      cases h'
  · exact .message h

theorem rendersLong_ok_iff (h : (runExprWithin frame maxDepth e).outcome s = (.ok v, t)) :
    RendersLong frame (e :: es) s ↔ v.IsLong ∨ ¬ v.IsLong ∧ RendersLong frame es t := by
  constructor
  · rintro (⟨h', hlong⟩ | ⟨h', -⟩ | ⟨h', hshort, hrest⟩)
    · rw [h] at h'
      cases h'
      exact .inl hlong
    · rw [h] at h'
      cases h'
    · rw [h] at h'
      cases h'
      exact .inr ⟨hshort, hrest⟩
  · rintro (hlong | ⟨hshort, hrest⟩)
    · exact .value h hlong
    · exact .later h hshort hrest

end

/-- A line lets the fault of a long integer escape exactly under a condition, and no
    other fault. -/
structure EscapesIff (condition : Prop) (escaped : Option (Fault (Value η))) : Prop where
  long : condition → escaped = some .tooLong
  none : ¬ condition → escaped = none

theorem Fault.settled_of_not_fits {fault : Fault (Value η)} (h : fault.fits = false) :
    fault.settled = .tooLong := by
  simp [settled, h]

theorem Shell.faultReport_escapesIff (line : String) {fault : Fault (Value η)}
    (h : fault.Reported) : EscapesIff fault.IsLong (faultReport line fault).escaped := by
  rw [← Fault.fits_eq_false_iff]
  refine ⟨fun hlong => ?_, fun hshort => ?_⟩
  · have hsettled : fault.settled = .tooLong := Fault.settled_of_not_fits hlong
    have hescapes : ¬ fault.settled.Reported := by
      rw [hsettled]
      rintro (hover | ⟨name, hname⟩)
      · cases hover
      · cases hname
    rw [(faultReport_escaped line hescapes).2, hsettled]
  · have hfits : fault.fits = true := by simpa using hshort
    have hreported : fault.settled.Reported := by rwa [Fault.settled_of_fits hfits]
    exact (faultReport_reported line hreported).2

/-- Of expressions of source text, run where all values are made of source text, only a long
    integer escapes. The induction is on the expressions. -/
theorem Shell.runExprs_escapesIff (shell : Shell) (line : String) {es : List Expr}
    (hes : ∀ e ∈ es, e.Sourced) {s : Store (Value Empty)} (hs : s.Sourced) :
    EscapesIff (RendersLong shell.session.root es s) (shell.runExprs line es s).1.escaped := by
  induction es generalizing s with
  | nil => exact ⟨nofun, fun _ => rfl⟩
  | cons e es ih =>
    obtain ⟨he, hes⟩ := List.forall_mem_cons.1 hes
    obtain ⟨hstore, hend⟩ := he.run shell.session.root maxDepth s hs
    rcases hrun : (runExprWithin shell.session.root maxDepth e).outcome s with ⟨r, t⟩
    rw [hrun] at hstore hend
    cases hend with
    | @error fault hreported =>
      obtain ⟨entries, hexprs⟩ := runExprs_error line es hrun
      rw [hexprs, rendersLong_error_iff hrun]
      exact faultReport_escapesIff line hreported
    | @ok v hv =>
      rw [rendersLong_ok_iff hrun]
      cases hfits : v.fits with
      | false =>
        obtain ⟨entries, hexprs⟩ := runExprs_unwritable line es hrun hfits
        have hlong : v.IsLong := Value.fits_eq_false_iff.1 hfits
        rw [hexprs]
        exact ⟨fun _ => rfl, fun hshort => absurd (.inl hlong) hshort⟩
      | true =>
        obtain ⟨entries, hexprs⟩ := runExprs_ok line es hrun hfits
        have hshort : ¬ v.IsLong := by
          rw [← Value.fits_eq_false_iff, hfits]
          decide
        rw [hexprs]
        simp only [hshort, not_false_eq_true, true_and, false_or]
        exact ih hes hstore

-- ============================================================================
-- The theorem
-- ============================================================================

/-- A line makes the shell write an integer of more than 4300 digits. -/
def LineRendersLong [Host η] (session : Session) (line : String) (s : Store (Value η)) : Prop :=
  ¬ Text.isBlankLine line = true ∧
    ∃ exprs, (readSource line : Except (Fault (Value η)) (List Expr)) = .ok exprs ∧
      RendersLong session.root exprs s

theorem Shell.command_escapesIff (shell : Shell) (line : String) {s : Store (Value Empty)}
    (hs : s.Sourced) :
    EscapesIff (LineRendersLong shell.session line s) (shell.command line s).1.escaped := by
  by_cases hblank : Text.isBlankLine line = true
  · rw [shell.command_blank hblank]
    exact ⟨fun hlong => absurd hblank hlong.1, fun _ => rfl⟩
  · rw [shell.command_of_not_blank hblank]
    cases hread : (readSource line : Except (Fault (Value Empty)) (List Expr)) with
    | error fault =>
      obtain ⟨echoed, hfeed, hreported⟩ := shell.feed_unread (s := s) hread
      rw [hfeed]
      refine ⟨?_, fun _ => (faultReport_reported line hreported).2⟩
      rintro ⟨-, exprs, hok, -⟩
      rw [hread] at hok
      cases hok
    | ok exprs =>
      obtain ⟨echoed, hfeed⟩ := shell.feed_read (s := s) hread
      have hiff : LineRendersLong shell.session line s ↔
          RendersLong shell.session.root exprs s := by
        constructor
        · rintro ⟨-, exprs', hok, hlong⟩
          rw [hread] at hok
          cases hok
          exact hlong
        · exact fun hlong => ⟨hblank, exprs, hread, hlong⟩
      rw [hfeed, hiff]
      exact shell.runExprs_escapesIff line (sourced_of_readSource hread) hs

/-- A shell goes on after every line, with one exception. In every state of a fresh session
    and with every line, no fault escapes, or that of an integer that cannot be written does;
    and it does exactly if the line makes the shell write an integer of more than 4300 digits,
    in a value or in the wording of a fault. What a trace shows of the line can always be
    written. In every case all that the line has written and bound before its end is kept.
    The colour of errors is put on what was written afterwards. -/
theorem shell_goes_on_after_every_line {s : Store (Value Empty)} (hs : Reachable s) (trace : Bool)
    (line : String) :
    let shell : Shell := ⟨freshSession.1, trace⟩
    let report := (shell.command line s).1
    (report.escaped = none ∨ report.escaped = some .tooLong) ∧
      (report.escaped = some .tooLong ↔ LineRendersLong freshSession.1 line s) ∧
      (∀ exprs, (readSource line : Except (Fault (Value Empty)) (List Expr)) = .ok exprs →
        ∀ e ∈ exprs, Written.text? e = some e.text) ∧
      shell.Kept line s report (shell.command line s).2 := by
  intro shell report
  have hescapes : EscapesIff (LineRendersLong freshSession.1 line s) report.escaped :=
    shell.command_escapesIff line hs.sourced
  refine ⟨?_, ⟨fun hlong => ?_, hescapes.long⟩, fun exprs hread e he => ?_,
    shell.command_kept line s⟩
  · by_cases hlong : LineRendersLong freshSession.1 line s
    · exact .inr (hescapes.long hlong)
    · exact .inl (hescapes.none hlong)
  · by_contra hshort
    rw [hescapes.none hshort] at hlong
    cases hlong
  · exact Written.text?_of_fits (sourced_of_readSource hread e he).readable.fits

/-- The largest integer that can be written, and one added to it: the line is read and run,
    and what escapes from the shell is that the sum cannot be written. -/
theorem sum_too_long_escapes :
    ∃ n : Int,
      let line := (Expr.list [.sym "add", .int n, .int 1]).text
      let outcome := (⟨freshSession.1, true⟩ : Shell).command line freshSession.2
      Reachable freshSession.2 ∧ Numeral.digits n ≤ 4300 ∧
        LineRendersLong freshSession.1 line freshSession.2 ∧
        outcome.1.escaped = some .tooLong := by
  have hpos : 0 < Numeral.bound :=
    Nat.lt_of_lt_of_le (by decide : 0 < Nat.pow 10 0) (Numeral.pow_le_bound (Nat.zero_le _))
  obtain ⟨n, hfits, hlong⟩ : ∃ n : Int, Numeral.fits n = true ∧
      ¬ Numeral.fits (0 + n + 1) = true := by
    simp only [Numeral.fits_iff]
    generalize Numeral.bound = bound at hpos
    exact ⟨(bound : Int) - 1, by omega, by omega⟩
  refine ⟨n, ?_⟩
  intro line outcome
  let e : Expr := .list [.sym "add", .int n, .int 1]
  have hname : TokenKind.symbol.Language "add".toList :=
    ⟨'a', ['d', 'd'], by decide, List.all_eq_true.1 (by decide), rfl⟩
  have hone : Numeral.fits 1 = true := Numeral.fits_iff_digits_le.2 (by decide)
  have hsourced : e.Sourced := by
    refine ⟨.list (List.forall_mem_cons.2 ⟨.sym hname, List.forall_mem_cons.2 ⟨.int hfits, ?_⟩⟩), ?_⟩
    · exact List.forall_mem_singleton.2 (.int hone)
    · show (1 : Nat) ≤ Expr.maxNesting
      decide
  have hrenders : LineRendersLong freshSession.1 line freshSession.2 := by
    refine ⟨fun hblank => ?_, [e], hsourced.readSource_text, ?_⟩
    · have hopen : '(' ∈ line.toList := by
        show '(' ∈ e.text.toList
        rw [Expr.text_list, String.append_assoc, String.toList_append]
        exact List.mem_append_left _ List.mem_cons_self
      exact absurd (Text.isBlankLine_iff.1 hblank '(' hopen) (by decide)
    · have hrun : (runExprWithin freshSession.1.root maxDepth e).outcome freshSession.2 =
          (.ok (.int (0 + n + 1)), freshSession.2) := rfl
      refine .value hrun ⟨0 + n + 1, .here, ?_⟩
      rw [Numeral.fits_iff_digits_le] at hlong
      exact Nat.lt_of_not_le hlong
  exact ⟨.fresh, Numeral.fits_iff_digits_le.1 hfits, hrenders,
    (shell_goes_on_after_every_line .fresh true line).2.1.2 hrenders⟩

end LineLisp
