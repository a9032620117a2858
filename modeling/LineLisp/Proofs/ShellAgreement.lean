/-
  LineLisp.Proofs.ShellAgreement

  A shell and its session. The session runs a line and yields all values or a fault; the
  shell runs the same line piece by piece and writes each value as it comes. As long as
  every integer that is written has a numeral, both do the same: the shell writes the
  values that the session yields or, where the line ends with a fault, those that came
  before it and then the fault, and both leave the same store.
-/
import LineLisp.Proofs.ShellSurvival

namespace LineLisp

variable {η : Type}

-- ============================================================================
-- Lines that end with a fault
-- ============================================================================

/-- A line of a session that ends with a fault, behind the values of the expressions that
    came through: the line is not read, or one of its expressions fails. -/
inductive Session.Stops [Host η] (session : Session) (line : String) (s : Store (Value η)) :
    List (Value η) → Fault (Value η) → Store (Value η) → Prop where
  | unread {fault : Fault (Value η)} (h : readSource line = .error fault) :
    Stops session line s [] fault s
  | failing {before after : List Expr} {e : Expr} {values : List (Value η)}
    {fault : Fault (Value η)} {t u : Store (Value η)}
    (h : (readSource line : Except (Fault (Value η)) (List Expr)) = .ok (before ++ e :: after))
    (hbefore : (before.mapM (runExpr session.root)).outcome s = (.ok values, t))
    (hfault : (runExpr session.root e).outcome t = (.error fault, u)) :
    Stops session line s values fault u

section

variable [Host η] {frame : Nat} {session : Session} {line : String} {e : Expr}
  {before after es : List Expr} {values : List (Value η)} {fault : Fault (Value η)}
  {s t u : Store (Value η)}

/-- An expression that fails ends the ones behind it too. -/
theorem outcome_mapM_of_failing
    (hbefore : (before.mapM (runExprWithin frame maxDepth)).outcome s = (.ok values, t))
    (hfault : (runExprWithin frame maxDepth e).outcome t = (.error fault, u)) :
    ((before ++ e :: after).mapM (runExprWithin frame maxDepth)).outcome s = (.error fault, u) := by
  rw [Run.outcome_mapM_append hbefore, List.mapM_cons, Run.outcome_bind, hfault]
  rfl

/-- Behind expressions that came through, the next ones make the shell write a long
    integer only if all of them together do. -/
theorem RendersLong.append
    (h : (before.mapM (runExprWithin frame maxDepth)).outcome s = (.ok values, t))
    (hfits : ∀ v ∈ values, v.fits = true) (hlong : RendersLong frame es t) :
    RendersLong frame (before ++ es) s := by
  induction before generalizing s values with
  | nil =>
    cases h
    exact hlong
  | cons e before ih =>
    obtain ⟨v, others, s', hrun, hrest, rfl⟩ := Run.outcome_mapM_cons_ok_iff.1 h
    obtain ⟨hv, hothers⟩ := List.forall_mem_cons.1 hfits
    have hshort : ¬ v.IsLong := by
      rw [← Value.fits_eq_false_iff, hv]
      decide
    exact .later hrun hshort (ih hrest hothers)

-- ============================================================================
-- What is written of expressions
-- ============================================================================

/-- Values as a shell writes them, a line each. -/
def valuePieces (values : List (Value η)) : List Piece :=
  values.map fun v => .line v.text

/-- The line of an error behind the values that came before it, if a session goes on after
    the fault. Any other fault escapes. -/
structure Shell.Tells (values : List (Value η)) (fault : Fault (Value η)) (pieces : List Piece)
    (escaped : Option (Fault (Value η))) : Prop where
  reported : fault.Reported → pieces = valuePieces values ++ [.error fault.message] ∧ escaped = none
  unreported : ¬ fault.Reported → pieces = valuePieces values ∧ escaped = some fault

omit [Host η] in
theorem Shell.faultReport_tells (line : String) (hfits : fault.fits = true) :
    Shell.Tells [] fault (faultReport line fault).pieces (faultReport line fault).escaped := by
  have hsettled : fault.settled = fault := Fault.settled_of_fits hfits
  constructor
  · intro hreported
    have h := faultReport_reported line (hsettled.symm ▸ hreported)
    rwa [hsettled] at h
  · intro hescapes
    have h := faultReport_escaped line (hsettled.symm ▸ hescapes)
    rwa [hsettled] at h

/-- What a shell writes of expressions, as long as no long integer is among it: all values,
    or those before the expression that fails and its fault. -/
theorem Shell.Carried.cases {pieces : List Piece} {escaped : Option (Fault (Value η))}
    (h : Shell.Carried frame es s pieces escaped t) (hshort : ¬ RendersLong frame es s) :
    (∃ values, (es.mapM (runExprWithin frame maxDepth)).outcome s = (.ok values, t) ∧
        pieces = valuePieces values ∧ escaped = none) ∨
      ∃ before e after values u fault, es = before ++ e :: after ∧
        (before.mapM (runExprWithin frame maxDepth)).outcome s = (.ok values, u) ∧
        (runExprWithin frame maxDepth e).outcome u = (.error fault, t) ∧ fault.fits = true ∧
        Shell.Tells values fault pieces escaped := by
  obtain ⟨before, rest, values, u, last, rfl, hbefore, hfits, hends, rfl⟩ := h
  have hrest : ¬ RendersLong frame rest u := fun hlong => hshort (hlong.append hbefore hfits)
  -- A fault with a long integer in its wording would be written.
  have hfault : ∀ {e : Expr} {es : List Expr} {fault : Fault (Value η)} {t : Store (Value η)},
      rest = e :: es → (runExprWithin frame maxDepth e).outcome u = (.error fault, t) →
        fault.fits = true := by
    rintro e es fault t rfl hrun
    rw [← Bool.not_eq_false, Fault.fits_eq_false_iff]
    exact fun hlong => hrest (.message hrun hlong)
  cases hends with
  | done s =>
    refine .inl ⟨values, ?_, List.append_nil _, rfl⟩
    rwa [List.append_nil]
  | unwritable hrun hlong => exact absurd (.value hrun (Value.fits_eq_false_iff.1 hlong)) hrest
  | @reported e es _ _ fault hrun hreported =>
    have hfits := hfault rfl hrun
    rw [Fault.settled_of_fits hfits] at hreported ⊢
    refine .inr ⟨before, e, es, values, u, fault, rfl, hbefore, hrun, hfits, ?_⟩
    exact ⟨fun _ => ⟨rfl, rfl⟩, fun hescapes => absurd hreported hescapes⟩
  | @escaped e es _ _ fault hrun hescapes =>
    have hfits := hfault rfl hrun
    rw [Fault.settled_of_fits hfits] at hescapes ⊢
    refine .inr ⟨before, e, es, values, u, fault, rfl, hbefore, hrun, hfits, ?_⟩
    exact ⟨fun hreported => absurd hreported hescapes, fun _ => ⟨List.append_nil _, rfl⟩⟩

end

-- ============================================================================
-- Lines
-- ============================================================================

/-- The text of values, a line each. -/
def Value.lines (values : List (Value η)) : String :=
  String.join (values.map fun v => asLine v.text)

theorem text_valuePieces (values : List (Value η)) :
    String.join ((valuePieces values).map (Piece.text false)) = Value.lines values := by
  rw [valuePieces, List.map_map]
  rfl

/-- A shell and its session agree on a line. They leave the same store. If the session
    yields values, the shell writes these; and if it ends with a fault, the shell writes
    the values that came before it and the line of an error, or the fault escapes if no
    session goes on after it. -/
structure Shell.Agrees [Host η] (session : Session) (line : String) (s : Store (Value η))
    (outcome : Except (Fault (Value η)) (List (Value η)) × Store (Value η))
    (feed : Report η × Store (Value η)) : Prop where
  store : feed.2 = outcome.2
  values : ∀ values, outcome.1 = .ok values →
    feed.1.text false = Value.lines values ∧ feed.1.escaped = none
  fault : ∀ fault, outcome.1 = .error fault → fault.settled = fault ∧
    ∃ values, session.Stops line s values fault outcome.2 ∧
      (fault.Reported →
        feed.1.text false = Value.lines values ++ asLine ("error: " ++ fault.message) ∧
          feed.1.escaped = none) ∧
      (¬ fault.Reported → feed.1.text false = Value.lines values ∧ feed.1.escaped = some fault)

section

variable [Host η] {session : Session} {line : String} {s : Store (Value η)}

theorem Shell.Agrees.of_values {values : List (Value η)} {report : Report η}
    {t : Store (Value η)} (hpieces : report.pieces = valuePieces values)
    (hescaped : report.escaped = none) :
    Shell.Agrees session line s (.ok values, t) (report, t) where
  store := rfl
  values := by
    intro values' heq
    cases heq
    refine ⟨?_, hescaped⟩
    rw [Report.text, hpieces, text_valuePieces]
  fault := nofun

theorem Shell.Agrees.of_fault {values : List (Value η)} {fault : Fault (Value η)}
    {report : Report η} {t : Store (Value η)} (hfits : fault.fits = true)
    (hstops : session.Stops line s values fault t)
    (htells : Shell.Tells values fault report.pieces report.escaped) :
    Shell.Agrees session line s (.error fault, t) (report, t) where
  store := rfl
  values := nofun
  fault := by
    intro fault' heq
    cases heq
    refine ⟨Fault.settled_of_fits hfits, values, hstops, fun hreported => ?_, fun hescapes => ?_⟩
    · obtain ⟨hpieces, hescaped⟩ := htells.reported hreported
      refine ⟨?_, hescaped⟩
      rw [Report.text, hpieces, List.map_append, String.join_append, text_valuePieces,
        List.map_singleton, String.join_cons, String.join_nil, String.append_empty]
      rfl
    · obtain ⟨hpieces, hescaped⟩ := htells.unreported hescapes
      refine ⟨?_, hescaped⟩
      rw [Report.text, hpieces, text_valuePieces]

/-- Without a trace, a line that is not read leaves its fault and nothing else. All of the
    fault can be written. -/
theorem Shell.feed_quiet_unread (session : Session) (s : Store (Value η)) {fault : Fault (Value η)}
    (h : readSource line = .error fault) :
    (⟨session, false⟩ : Shell).feed line s = (faultReport line fault, s) ∧ fault.fits = true := by
  unfold readSource at h
  split at h
  · next error htokens =>
    cases h
    exact ⟨feed_lexing htokens, rfl⟩
  · next tokens htokens =>
    split at h
    · next error hread =>
      cases h
      exact ⟨feed_reading htokens hread, rfl⟩
    · cases h

theorem Shell.feed_quiet_read {exprs : List Expr}
    (h : (readSource line : Except (Fault (Value η)) (List Expr)) = .ok exprs) :
    (⟨session, false⟩ : Shell).feed line s = (⟨session, false⟩ : Shell).runExprs line exprs s := by
  obtain ⟨tokens, htokens, hread⟩ := readSource_eq_ok_iff.1 h
  exact feed_exprs htokens hread

/-- A shell without a trace agrees with its session on every line that is not blank and
    makes it write no long integer. -/
theorem Shell.feed_agrees (session : Session) (s : Store (Value η))
    (hblank : ¬ Text.isBlankLine line = true) (hshort : ¬ LineRendersLong session line s) :
    Shell.Agrees session line s ((session.eval line).outcome s)
      ((⟨session, false⟩ : Shell).feed line s) := by
  rw [← session.evalWithin_maxDepth]
  cases hread : (readSource line : Except (Fault (Value η)) (List Expr)) with
  | error fault =>
    obtain ⟨hfeed, hfits⟩ := Shell.feed_quiet_unread session s hread
    rw [session.evalWithin_of_readSource_error hread, hfeed]
    exact .of_fault hfits (.unread hread) (Shell.faultReport_tells line hfits)
  | ok exprs =>
    have hrenders : ¬ RendersLong session.root exprs s :=
      fun hlong => hshort ⟨hblank, exprs, hread, hlong⟩
    rw [session.evalWithin_of_readSource hread, Shell.feed_quiet_read hread]
    rcases (Shell.runExprs_carried ⟨session, false⟩ line exprs s).cases hrenders with
      ⟨values, hvalues, hpieces, hescaped⟩ |
      ⟨before, e, after, values, u, fault, rfl, hbefore, hfault, hfits, htells⟩
    · rw [hvalues]
      exact .of_values hpieces hescaped
    · rw [outcome_mapM_of_failing hbefore hfault]
      exact .of_fault hfits (.failing hread hbefore hfault) htells

end

-- ============================================================================
-- The theorem
-- ============================================================================

/-- In a fresh session every fault of a line is one that a session goes on after. -/
theorem Reachable.reported_eval {s : Store (Value Empty)} (hs : Reachable s) {line : String}
    {fault : Fault (Value Empty)}
    (h : ((freshSession.1.eval line).outcome s).1 = .error fault) : fault.Reported := by
  have hend := (freshSession.1.evalWithin_staysSourced maxDepth line s hs.sourced).2
  rw [freshSession.1.evalWithin_maxDepth, h] at hend
  cases hend with
  | error hreported => exact hreported

/-- Shell and session agree. Whatever functions the host has, and in every store, a shell
    without trace and colour agrees with its session on every line that is not blank and
    makes it write no integer of more than 4300 digits. A lack of room has a wording of its
    own. In every state of a fresh session, all faults are those that the shell writes. -/
theorem shell_agrees_with_session [Host η] (session : Session) (s : Store (Value η))
    {line : String} (hblank : ¬ Text.isBlankLine line = true)
    (hshort : ¬ LineRendersLong session line s) :
    Shell.Agrees session line s ((session.eval line).outcome s)
      ((⟨session, false⟩ : Shell).feed line s) ∧
    (∀ fault : Fault (Value η), fault.isOverflow = true →
      fault.Reported ∧ fault.message = "maximum recursion depth exceeded") ∧
    ∀ t, Reachable t → ∀ (line : String) (fault : Fault (Value Empty)),
      ((freshSession.1.eval line).outcome t).1 = .error fault → fault.Reported :=
  ⟨Shell.feed_agrees session s hblank hshort,
    fun _ hover => ⟨.inl hover, Fault.message_of_isOverflow hover⟩,
    fun _ ht _ _ h => ht.reported_eval h⟩

/-- Two values and then a fault, after a line that bound a name: the shell writes what the
    session yields and keeps what was bound. -/
theorem shell_writes_values_then_fault :
    let s := ((freshSession.1.eval "(set a 1)").outcome freshSession.2).2
    let line := "(set a (add a 1)) \"x\" (a) (set a 9)"
    let outcome := (freshSession.1.eval line).outcome s
    let feed := (⟨freshSession.1, false⟩ : Shell).feed line s
    ¬ Text.isBlankLine line = true ∧ ¬ LineRendersLong freshSession.1 line s ∧
      outcome.1 = .error (.notApplicable (.int 2)) ∧ feed.2 = outcome.2 ∧
      feed.2.get? 0 "a" = some (.int 2) ∧
      feed.1.text false = "2\n\"x\"\nerror: cannot apply non-function 2\n" := by
  intro s line outcome feed
  have hs : Reachable s := Reachable.fresh.eval maxDepth "(set a 1)"
  have hblank : ¬ Text.isBlankLine line = true := by decide
  have hshort : ¬ LineRendersLong freshSession.1 line s := by
    intro hlong
    have hescaped := (Shell.command_escapesIff ⟨freshSession.1, false⟩ line hs.sourced).long hlong
    rw [show ((⟨freshSession.1, false⟩ : Shell).command line s).1.escaped = none by
      decide +kernel] at hescaped
    cases hescaped
  have hfault : outcome.1 = .error (.notApplicable (.int 2)) := by decide +kernel
  have hagrees := (shell_agrees_with_session freshSession.1 s hblank hshort).1
  refine ⟨hblank, hshort, hfault, hagrees.store, ?_, ?_⟩
  · rw [hagrees.store]
    decide +kernel
  · decide +kernel

end LineLisp
