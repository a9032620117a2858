/-
  LineLisp.Proofs.ShellLines

  A line in a shell. The shell writes the values of expressions as they come, and its
  report of a line says no more than the runs of its expressions do: some expressions come
  through with values that can be written, and then none is left, or the next one has a
  value that cannot be written, or it fails. What they have written and bound before that
  stays.
-/
import LineLisp.Proofs.SessionHistory
import LineLisp.Shell

namespace LineLisp

variable {η ν : Type}

-- ============================================================================
-- Faults
-- ============================================================================

/-- Faults that a session goes on after: they are filed under a name, or are a lack of
    room. -/
def Fault.Reported (fault : Fault ν) : Prop :=
  fault.isOverflow = true ∨ ∃ name, fault.logName? = some name

theorem Fault.reported_reading (error : ReadError) : (reading error : Fault ν).Reported := by
  cases error with
  | tooDeep => exact .inl rfl
  | _ => exact .inr ⟨_, rfl⟩

theorem Fault.message_of_isOverflow [Written ν] {fault : Fault ν} (h : fault.isOverflow = true) :
    fault.message = "maximum recursion depth exceeded" := by
  cases fault with
  | tooDeep => rfl
  | reading error =>
    cases error with
    | tooDeep => rfl
    | _ => cases h
  | _ => cases h

namespace Shell

theorem faultReport_reported (line : String) {fault : Fault (Value η)}
    (h : fault.settled.Reported) :
    (faultReport line fault).pieces = [.error fault.settled.message] ∧
      (faultReport line fault).escaped = none := by
  by_cases hover : fault.settled.isOverflow = true
  · rw [Fault.message_of_isOverflow hover]
    simp only [faultReport, hover, if_true, and_self]
  · obtain ⟨name, hname⟩ := h.resolve_left hover
    simp only [faultReport, if_neg hover, hname, and_self]

theorem faultReport_escaped (line : String) {fault : Fault (Value η)}
    (h : ¬ fault.settled.Reported) :
    (faultReport line fault).pieces = [] ∧
      (faultReport line fault).escaped = some fault.settled := by
  have hover : ¬ fault.settled.isOverflow = true := fun hover => h (.inl hover)
  have hname : fault.settled.logName? = none :=
    Option.eq_none_iff_forall_ne_some.2 fun name hname => h (.inr ⟨name, hname⟩)
  simp only [faultReport, if_neg hover, hname, and_self]

-- ============================================================================
-- One expression
-- ============================================================================

section

variable [Host η] {shell : Shell} {e : Expr} {s t : Store (Value η)} {v : Value η} {fault : Fault (Value η)}

/-- The shell runs an expression as a session does. -/
theorem outcome_runExprWithin (frame : Nat) (e : Expr) (s : Store (Value η)) :
    (runExprWithin frame maxDepth e).outcome s =
      match compileExpr e with
      | .error fault => (.error fault, s)
      | .ok node => (runNode frame node).outcome s := by
  unfold runExprWithin
  rw [Run.outcome_bind, Run.outcome_ofExcept]
  cases (compileExpr e : Except (Fault (Value η)) Node) <;> rfl

theorem runExprs_error (line : String) (es : List Expr)
    (h : (runExprWithin shell.session.root maxDepth e).outcome s = (.error fault, t)) :
    ∃ entries, shell.runExprs line (e :: es) s = ((faultReport line fault).logged entries, t) := by
  rw [outcome_runExprWithin] at h
  rw [runExprs]
  cases hcompile : (compileExpr e : Except (Fault (Value η)) Node) with
  | error fault' =>
    rw [hcompile] at h
    cases h
    exact ⟨[], rfl⟩
  | ok node =>
    simp only [hcompile] at h
    exact ⟨(compiledLog? e node).toList, by simp only [h]⟩

theorem runExprs_unwritable (line : String) (es : List Expr)
    (h : (runExprWithin shell.session.root maxDepth e).outcome s = (.ok v, t))
    (hlong : v.fits = false) :
    ∃ entries, shell.runExprs line (e :: es) s = (⟨[], entries, some .tooLong⟩, t) := by
  rw [outcome_runExprWithin] at h
  rw [runExprs]
  cases hcompile : (compileExpr e : Except (Fault (Value η)) Node) with
  | error fault' =>
    rw [hcompile] at h
    cases h
  | ok node =>
    have htext : Written.text? v = none := Written.text?_eq_none_iff.2 hlong
    simp only [hcompile] at h
    exact ⟨(compiledLog? e node).toList ++ (evaluatedLog? e v).toList, by simp only [h, htext]⟩

theorem runExprs_ok (line : String) (es : List Expr)
    (h : (runExprWithin shell.session.root maxDepth e).outcome s = (.ok v, t))
    (hfits : v.fits = true) :
    ∃ entries, shell.runExprs line (e :: es) s =
      (((shell.runExprs line es t).1.after [.line v.text]).logged entries,
        (shell.runExprs line es t).2) := by
  rw [outcome_runExprWithin] at h
  rw [runExprs]
  cases hcompile : (compileExpr e : Except (Fault (Value η)) Node) with
  | error fault' =>
    rw [hcompile] at h
    cases h
  | ok node =>
    have htext : Written.text? v = some v.text := Written.text?_of_fits hfits
    simp only [hcompile] at h
    exact ⟨(compiledLog? e node).toList ++ (evaluatedLog? e v).toList, by simp only [h, htext]⟩

end

-- ============================================================================
-- The expressions of a line
-- ============================================================================

/-- How a line ends from where some of its expressions are left: what is still written,
    the fault that escapes, and the store that is left. -/
inductive Ends [Host η] (frame : Nat) :
    List Expr → Store (Value η) → List Piece → Option (Fault (Value η)) → Store (Value η) → Prop where
  /-- No expression is left. -/
  | done (s : Store (Value η)) : Ends frame [] s [] none s
  /-- A value cannot be written. -/
  | unwritable {e : Expr} {es : List Expr} {s t : Store (Value η)} {v : Value η}
    (h : (runExprWithin frame maxDepth e).outcome s = (.ok v, t)) (hlong : v.fits = false) :
    Ends frame (e :: es) s [] (some .tooLong) t
  /-- A fault is written. -/
  | reported {e : Expr} {es : List Expr} {s t : Store (Value η)} {fault : Fault (Value η)}
    (h : (runExprWithin frame maxDepth e).outcome s = (.error fault, t))
    (hreported : fault.settled.Reported) :
    Ends frame (e :: es) s [.error fault.settled.message] none t
  /-- A fault escapes. -/
  | escaped {e : Expr} {es : List Expr} {s t : Store (Value η)} {fault : Fault (Value η)}
    (h : (runExprWithin frame maxDepth e).outcome s = (.error fault, t))
    (hescaped : ¬ fault.settled.Reported) : Ends frame (e :: es) s [] (some fault.settled) t

/-- What came of the expressions of a line in a shell: those before some point came through
    with values that were written, and there the line ends. -/
structure Carried [Host η] (frame : Nat) (exprs : List Expr) (s : Store (Value η))
    (pieces : List Piece) (escaped : Option (Fault (Value η))) (t : Store (Value η)) : Prop where
  exists_split : ∃ before rest values u last, exprs = before ++ rest ∧
    (before.mapM (runExprWithin frame maxDepth)).outcome s = (.ok values, u) ∧
    (∀ v ∈ values, v.fits = true) ∧ Ends frame rest u last escaped t ∧
    pieces = (values.map fun v => .line v.text) ++ last

variable [Host η] {frame : Nat} {e : Expr} {es : List Expr} {s t u : Store (Value η)}
  {pieces : List Piece} {escaped : Option (Fault (Value η))} {v : Value η}

theorem Ends.carried (h : Ends frame es s pieces escaped t) : Carried frame es s pieces escaped t :=
  ⟨[], es, [], s, pieces, rfl, rfl, nofun, h, rfl⟩

theorem Carried.cons (h : (runExprWithin frame maxDepth e).outcome s = (.ok v, u))
    (hfits : v.fits = true) (hrest : Carried frame es u pieces escaped t) :
    Carried frame (e :: es) s (.line v.text :: pieces) escaped t := by
  obtain ⟨before, rest, values, u', last, rfl, hbefore, hvalues, hends, rfl⟩ := hrest
  refine ⟨e :: before, rest, v :: values, u', last, rfl, ?_, ?_, hends, rfl⟩
  · exact Run.outcome_mapM_cons_ok_iff.2 ⟨v, values, u, h, hbefore, rfl⟩
  · exact List.forall_mem_cons.2 ⟨hfits, hvalues⟩

/-- A shell carries out the expressions of every line, and reports it. The induction is on
    the expressions. -/
theorem runExprs_carried (shell : Shell) (line : String) (es : List Expr) (s : Store (Value η)) :
    Carried shell.session.root es s (shell.runExprs line es s).1.pieces
      (shell.runExprs line es s).1.escaped (shell.runExprs line es s).2 := by
  induction es generalizing s with
  | nil => exact (Ends.done s).carried
  | cons e es ih =>
    rcases hrun : (runExprWithin shell.session.root maxDepth e).outcome s with ⟨r, t⟩
    cases r with
    | error fault =>
      obtain ⟨entries, hexprs⟩ := runExprs_error line es hrun
      rw [hexprs]
      by_cases hreported : fault.settled.Reported
      · obtain ⟨hpieces, hescaped⟩ := faultReport_reported line hreported
        show Carried _ _ _ (faultReport line fault).pieces (faultReport line fault).escaped t
        rw [hpieces, hescaped]
        exact (Ends.reported hrun hreported).carried
      · obtain ⟨hpieces, hescaped⟩ := faultReport_escaped line hreported
        show Carried _ _ _ (faultReport line fault).pieces (faultReport line fault).escaped t
        rw [hpieces, hescaped]
        exact (Ends.escaped hrun hreported).carried
    | ok v =>
      cases hfits : v.fits with
      | false =>
        obtain ⟨entries, hexprs⟩ := runExprs_unwritable line es hrun hfits
        rw [hexprs]
        exact (Ends.unwritable hrun hfits).carried
      | true =>
        obtain ⟨entries, hexprs⟩ := runExprs_ok line es hrun hfits
        rw [hexprs]
        exact (ih t).cons hrun hfits

-- ============================================================================
-- Lines
-- ============================================================================

section

variable {shell : Shell} {line : String} {tokens : List Token} {exprs : List Expr}

theorem command_blank (h : Text.isBlankLine line = true) :
    shell.command line s = (.empty, s) := if_pos h

theorem command_of_not_blank (h : ¬ Text.isBlankLine line = true) :
    shell.command line s = shell.feed line s := if_neg h

theorem feed_lexing {error : LexError} (h : tokenize line = .error error) :
    shell.feed line s = (faultReport line (.lexing error), s) := by
  simp only [feed, h]

theorem feed_reading {error : ReadError} (htokens : tokenize line = .ok tokens)
    (h : (Expr.readAll Expr.maxNesting tokens).1 = .error error) :
    shell.feed line s =
      ((faultReport line (.reading error)).after (shell.echo (Token.shownAll tokens)), s) := by
  simp only [feed, htokens, h]

/-- What is echoed of a line that was read: its tokens and its expressions. -/
def echoes (shell : Shell) (tokens : List Token) (exprs : List Expr) : List Piece :=
  shell.echo (Token.shownAll tokens) ++ shell.echo (" ".intercalate (exprs.map Expr.text))

theorem feed_exprs (htokens : tokenize line = .ok tokens)
    (h : (Expr.readAll Expr.maxNesting tokens).1 = .ok exprs) :
    shell.feed line s = ((shell.runExprs line exprs s).1.after (shell.echoes tokens exprs),
      (shell.runExprs line exprs s).2) := by
  simp only [feed, htokens, h]
  rfl

/-- A line that is not read is reported and leaves the store as it is. -/
theorem feed_unread {fault : Fault (Value η)} (h : readSource line = .error fault) :
    ∃ echoed, shell.feed line s = ((faultReport line fault).after echoed, s) ∧
      fault.settled.Reported := by
  unfold readSource at h
  split at h
  · next error htokens =>
    cases h
    exact ⟨[], feed_lexing htokens, .inr ⟨_, rfl⟩⟩
  · next tokens htokens =>
    split at h
    · next error hread =>
      cases h
      exact ⟨_, feed_reading htokens hread, Fault.reported_reading error⟩
    · cases h

theorem feed_read (h : (readSource line : Except (Fault (Value η)) (List Expr)) = .ok exprs) :
    ∃ echoed, shell.feed line s = ((shell.runExprs line exprs s).1.after echoed,
      (shell.runExprs line exprs s).2) := by
  unfold readSource at h
  split at h
  · cases h
  · next tokens htokens =>
    split at h
    · cases h
    · next exprs' hread =>
      cases h
      exact ⟨_, feed_exprs htokens hread⟩

/-- What a line leaves in the end: the pieces written and the store. A blank line leaves
    nothing; a line that is not read leaves an error, behind what was echoed before, and no
    change; and of any other line the expressions were carried out, up to where it ended. -/
structure Kept (shell : Shell) (line : String) (s : Store (Value η)) (report : Report η)
    (t : Store (Value η)) : Prop where
  blank : Text.isBlankLine line = true → report.pieces = [] ∧ t = s
  lexing : ¬ Text.isBlankLine line = true → ∀ error, tokenize line = .error error →
    report.pieces = [.error (Fault.lexing error : Fault (Value η)).message] ∧ t = s
  reading : ¬ Text.isBlankLine line = true → ∀ tokens error, tokenize line = .ok tokens →
    (Expr.readAll Expr.maxNesting tokens).1 = .error error →
      report.pieces = shell.echo (Token.shownAll tokens) ++
        [.error (Fault.reading error : Fault (Value η)).message] ∧ t = s
  running : ¬ Text.isBlankLine line = true → ∀ tokens exprs, tokenize line = .ok tokens →
    (Expr.readAll Expr.maxNesting tokens).1 = .ok exprs →
      ∃ pieces, report.pieces = shell.echoes tokens exprs ++ pieces ∧
        Carried shell.session.root exprs s pieces report.escaped t

/-- Whatever ends a line, what it has written and bound before is kept. -/
theorem command_kept (shell : Shell) (line : String) (s : Store (Value η)) :
    shell.Kept line s (shell.command line s).1 (shell.command line s).2 where
  blank hblank := by
    rw [shell.command_blank hblank]
    exact ⟨rfl, rfl⟩
  lexing hblank error herror := by
    have hreported : (Fault.lexing error : Fault (Value η)).settled.Reported := .inr ⟨_, rfl⟩
    rw [shell.command_of_not_blank hblank, shell.feed_lexing herror]
    exact ⟨(faultReport_reported line hreported).1, rfl⟩
  reading hblank tokens error htokens herror := by
    rw [shell.command_of_not_blank hblank, shell.feed_reading htokens herror]
    have hreported : (Fault.reading error : Fault (Value η)).settled.Reported :=
      Fault.reported_reading error
    refine ⟨?_, rfl⟩
    show _ ++ (faultReport line (.reading error)).pieces = _
    rw [(faultReport_reported line hreported).1]
    rfl
  running hblank tokens exprs htokens hexprs := by
    rw [shell.command_of_not_blank hblank, shell.feed_exprs htokens hexprs]
    exact ⟨_, rfl, shell.runExprs_carried line exprs s⟩

end

end Shell

end LineLisp
