/-
  LineLisp.Proofs.TraceAndColour

  What the style of a shell changes. A trace shows the tokens and the expressions of a line
  before the line is run, and colour may change the word before an error. Neither has a
  part in what is run: in every style a line leaves the same store, the same log and the
  same values, and stops at the same error. The expressions that a trace shows can always
  be written, since their integers came from numerals, and they read as the line did.
-/
import LineLisp.Proofs.FreshSession
import LineLisp.Proofs.ReadEquality
import LineLisp.Proofs.ShellLines

namespace LineLisp

variable {η : Type}

-- ============================================================================
-- Styles
-- ============================================================================

/-- How a shell shows what it does: with a trace or without one, and with which text before
    an error. Without colour this is a fixed word, and colour may make any text of it. -/
structure Style where
  trace : Bool
  label : String
  deriving DecidableEq

/-- The text of a piece with a label before errors. -/
def Piece.labelled (label : String) : Piece → String
  | .plain text => text
  | .error message => asLine (label ++ message)

/-- The text that was written, with a label before errors. -/
def Report.labelled (label : String) (report : Report η) : String :=
  String.join (report.pieces.map (Piece.labelled label))

/-- The colour of a shell chooses the label. -/
theorem Report.text_eq_labelled (color : Bool) (report : Report η) :
    report.text color = report.labelled (Piece.label color) := by
  have hpiece : Piece.text color = Piece.labelled (Piece.label color) := by
    funext piece
    cases piece <;> rfl
  rw [Report.text, Report.labelled, hpiece]

/-- What came of a line: the text written, the entries of the log, the fault that escaped,
    if one did, and the store behind the line. -/
structure Response (η : Type) where
  output : String
  log : List LogEntry
  escaped : Option (Fault (Value η))
  store : Store (Value η)

/-- What comes of lines that are given to a shell one after the other, whatever became of
    those before. -/
def Session.responses [Host η] (session : Session) (style : Style) :
    List String → Store (Value η) → List (Response η)
  | [], _ => []
  | line :: lines, s =>
    let (report, s) := (⟨session, style.trace⟩ : Shell).command line s
    ⟨report.labelled style.label, report.log, report.escaped, s⟩ :: session.responses style lines s

/-- The lines that a trace shows of a line: none if the line is blank or does not fall into
    tokens, its tokens if these do not read as expressions, and else its tokens and its
    expressions. All of the expressions can be written, and what is shown reads as them. -/
inductive Traced (η : Type) (line : String) : List String → Prop where
  | blank (hblank : Text.isBlankLine line = true) : Traced η line []
  | unlexed (hblank : ¬ Text.isBlankLine line = true) {error : LexError}
    (h : tokenize line = .error error) : Traced η line []
  | unread (hblank : ¬ Text.isBlankLine line = true) {tokens : List Token} {error : ReadError}
    (htokens : tokenize line = .ok tokens)
    (h : (Expr.readAll Expr.maxNesting tokens).1 = .error error) :
    Traced η line [Token.shownAll tokens]
  | read (hblank : ¬ Text.isBlankLine line = true) {tokens : List Token} {exprs : List Expr}
    {texts : List String} (htokens : tokenize line = .ok tokens)
    (h : (Expr.readAll Expr.maxNesting tokens).1 = .ok exprs)
    (htexts : exprs.mapM Written.text? = some texts)
    (hback : (readSource (" ".intercalate texts) : Except (Fault (Value η)) (List Expr)) =
      .ok exprs) :
    Traced η line [Token.shownAll tokens, " ".intercalate texts]

-- ============================================================================
-- What is shown of a line
-- ============================================================================

/-- The expressions of a line can be written, and their texts read as them. -/
theorem exists_texts_of_readSource {line : String} {exprs : List Expr}
    (h : (readSource line : Except (Fault (Value η)) (List Expr)) = .ok exprs) :
    exprs.mapM Written.text? = some (exprs.map Expr.text) ∧
      (readSource (" ".intercalate (exprs.map Expr.text)) :
        Except (Fault (Value η)) (List Expr)) = .ok exprs := by
  obtain ⟨hwritten, hlayouts⟩ := readSource_layout h
  constructor
  · clear h hlayouts
    induction exprs with
    | nil => rfl
    | cons e es ih =>
      obtain ⟨he, hes⟩ := List.forall_mem_cons.1 hwritten
      rw [List.mapM_cons, he, ih hes]
      rfl
  · rw [← layout_printedRows]
    exact hlayouts "" _ (isLayout_printedRows exprs) (map_fst_printedRows exprs)

-- ============================================================================
-- What is run of a line
-- ============================================================================

namespace Shell

variable [Host η]

/-- A trace has no part in the run of expressions. -/
theorem runExprs_untraced (session : Session) (trace : Bool) (line : String) (es : List Expr)
    (s : Store (Value η)) :
    (⟨session, trace⟩ : Shell).runExprs line es s =
      (⟨session, false⟩ : Shell).runExprs line es s := by
  induction es generalizing s with
  | nil => rfl
  | cons e es ih => simp only [runExprs, ih]

/-- A trace puts the lines that it shows before what is written of a line, and changes
    nothing else. -/
theorem exists_traced_command (session : Session) (line : String) (s : Store (Value η)) :
    ∃ shown, Traced η line shown ∧ ∀ trace,
      (⟨session, trace⟩ : Shell).command line s =
        (((⟨session, false⟩ : Shell).command line s).1.after
          (if trace then shown.map .line else []),
          ((⟨session, false⟩ : Shell).command line s).2) := by
  by_cases hblank : Text.isBlankLine line = true
  · refine ⟨[], .blank hblank, fun trace => ?_⟩
    rw [command_blank hblank, command_blank hblank]
    cases trace <;> rfl
  · simp only [command_of_not_blank hblank]
    cases htokens : tokenize line with
    | error error =>
      refine ⟨[], .unlexed hblank htokens, fun trace => ?_⟩
      rw [feed_lexing htokens, feed_lexing htokens]
      cases trace <;> rfl
    | ok tokens =>
      cases hread : (Expr.readAll Expr.maxNesting tokens).1 with
      | error error =>
        refine ⟨[Token.shownAll tokens], .unread hblank htokens hread, fun trace => ?_⟩
        rw [feed_reading htokens hread, feed_reading htokens hread]
        cases trace <;> rfl
      | ok exprs =>
        have hsource : (readSource line : Except (Fault (Value η)) (List Expr)) = .ok exprs := by
          simp only [readSource, htokens, hread]
        obtain ⟨htexts, hback⟩ := exists_texts_of_readSource hsource
        refine ⟨_, .read hblank htokens hread htexts hback, fun trace => ?_⟩
        rw [feed_exprs htokens hread, feed_exprs htokens hread, runExprs_untraced session trace]
        cases trace <;> rfl

end Shell

-- ============================================================================
-- The error of a line
-- ============================================================================

/-- The line of an error, if there is one, with a label before it. -/
def Style.errorLine (style : Style) (error : Option String) : String :=
  error.elim "" fun message => asLine (style.label ++ message)

/-- What a shell writes of a line: the lines of values and of an error, and before them,
    with a trace, the lines that it shows. -/
def Style.output (style : Style) (shown values : List String) (error : Option String) : String :=
  let answer := String.join (values.map asLine) ++ style.errorLine error
  if style.trace then String.join (shown.map asLine) ++ answer else answer

namespace Shell

/-- Pieces that are lines of values and then at most one error. -/
structure Closes (values : List String) (error : Option String) (pieces : List Piece) : Prop where
  eq : pieces = values.map .line ++ (error.map .error).toList

section

variable {values : List String} {error : Option String} {pieces : List Piece}

theorem join_map_line (style : Style) (texts : List String) :
    String.join ((texts.map Piece.line).map (Piece.labelled style.label)) =
      String.join (texts.map asLine) := by
  rw [List.map_map]
  rfl

theorem Closes.labelled (h : Closes values error pieces) (style : Style) :
    String.join (pieces.map (Piece.labelled style.label)) =
      String.join (values.map asLine) ++ style.errorLine error := by
  rw [h.eq, List.map_append, String.join_append, join_map_line]
  cases error with
  | none => rfl
  | some message => simp [Style.errorLine, Piece.labelled]

end

variable [Host η]

/-- What a run of expressions writes ends at the first error. -/
theorem Carried.exists_closes {frame : Nat} {exprs : List Expr} {s t : Store (Value η)}
    {pieces : List Piece} {escaped : Option (Fault (Value η))}
    (h : Carried frame exprs s pieces escaped t) : ∃ values error, Closes values error pieces := by
  obtain ⟨before, rest, values, u, last, -, -, -, hends, rfl⟩ := h
  have hlines : (values.map fun v => Piece.line v.text) = (values.map Value.text).map .line := by
    rw [List.map_map]
    rfl
  refine ⟨values.map Value.text, ?_⟩
  rw [hlines]
  cases hends with
  | done | unwritable | escaped => exact ⟨none, ⟨rfl⟩⟩
  | @reported _ _ _ _ fault _ _ => exact ⟨some fault.settled.message, ⟨rfl⟩⟩

/-- Without a trace a line leaves lines of values, and then at most one error. -/
theorem exists_closes_command (session : Session) (line : String) (s : Store (Value η)) :
    ∃ values error,
      Closes values error ((⟨session, false⟩ : Shell).command line s).1.pieces := by
  have hkept := (⟨session, false⟩ : Shell).command_kept line s
  by_cases hblank : Text.isBlankLine line = true
  · exact ⟨[], none, ⟨(hkept.blank hblank).1⟩⟩
  · cases htokens : tokenize line with
    | error error => exact ⟨[], some _, ⟨(hkept.lexing hblank error htokens).1⟩⟩
    | ok tokens =>
      cases hread : (Expr.readAll Expr.maxNesting tokens).1 with
      | error error => exact ⟨[], some _, ⟨(hkept.reading hblank tokens error htokens hread).1⟩⟩
      | ok exprs =>
        obtain ⟨pieces, hpieces, hcarried⟩ := hkept.running hblank tokens exprs htokens hread
        rw [hpieces]
        exact hcarried.exists_closes

end Shell

-- ============================================================================
-- The theorem
-- ============================================================================

/-- The response to a line is the same in every style, apart from what is written, and the
    lines after it begin with the same store. -/
theorem exists_response [Host η] (session : Session) (line : String) (lines : List String)
    (s : Store (Value η)) :
    ∃ shown values error log escaped t, Traced η line shown ∧ ∀ style : Style,
      session.responses style (line :: lines) s =
        ⟨style.output shown values error, log, escaped, t⟩ :: session.responses style lines t := by
  obtain ⟨shown, hshown, htraced⟩ := Shell.exists_traced_command session line s
  obtain ⟨values, error, hcloses⟩ := Shell.exists_closes_command session line s
  rcases hcommand : (⟨session, false⟩ : Shell).command line s with ⟨report, t⟩
  rw [hcommand] at htraced hcloses
  refine ⟨shown, values, error, report.log, report.escaped, t, hshown, fun style => ?_⟩
  have houtput :
      (report.after (if style.trace then shown.map .line else [])).labelled style.label =
        style.output shown values error := by
    rw [Report.labelled, Report.after, List.map_append, String.join_append,
      hcloses.labelled style, Style.output]
    cases style.trace with
    | false => exact String.empty_append
    | true => exact congrArg (· ++ _) (Shell.join_map_line style shown)
  rw [Session.responses, htraced style.trace]
  exact congrArg (fun output => Response.mk output report.log report.escaped t :: _) houtput

/-- A trace and colour show more and do no more. However a shell shows what it does, every
    line leaves the same bindings in all frames, the same log and the same escape, and the
    values and the error that are written are the same. With a trace the lines that it shows
    come before them: none if the line does not fall into tokens, its tokens if these do not
    read, and else its tokens and then its expressions, which can always be written and which
    read as they are. The label of errors is all that colour has a part in. -/
theorem trace_and_colour_only_show [Host η] (session : Session) (s : Store (Value η))
    (lines : List String) :
    (∀ style, (session.responses style lines s).length = lines.length) ∧
    (∀ (i : Nat) (line : String), lines[i]? = some line →
      ∃ shown values error log escaped t, Traced η line shown ∧ ∀ style : Style,
        (session.responses style lines s)[i]? =
          some ⟨style.output shown values error, log, escaped, t⟩) ∧
    ∀ (color : Bool) (report : Report η),
      report.text color = report.labelled (Piece.label color) := by
  refine ⟨?_, ?_, Report.text_eq_labelled⟩
  · intro style
    induction lines generalizing s with
    | nil => rfl
    | cons line lines ih => exact congrArg (· + 1) (ih _)
  · induction lines generalizing s with
    | nil => exact fun i line h => nomatch h
    | cons first lines ih =>
      intro i line h
      obtain ⟨shown, values, error, log, escaped, t, hshown, hfirst⟩ :=
        exists_response session first lines s
      cases i with
      | zero =>
        obtain rfl := Option.some.inj h
        refine ⟨shown, values, error, log, escaped, t, hshown, fun style => ?_⟩
        rw [hfirst style]
        rfl
      | succ i =>
        obtain ⟨shown', values', error', log', escaped', u, hshown', hrest⟩ := ih t i line h
        refine ⟨shown', values', error', log', escaped', u, hshown', fun style => ?_⟩
        rw [hfirst style, List.getElem?_cons_succ, hrest style]

/-- A line that fails at its third expression, one that is not closed, one that does not fall
    into tokens, a blank one, and one more: with a trace in colour the shell shows what it has
    read first and marks the errors, and the frames are bound as they are without. -/
theorem coloured_trace_binds_the_same :
    let lines := ["(set a  (add 1 02)) \"x\" (a) 5", "(a", "\"", " ", "a"]
    let plain := freshSession.1.responses ⟨false, Piece.label false⟩ lines freshSession.2
    let coloured := freshSession.1.responses ⟨true, Piece.label true⟩ lines freshSession.2
    plain.map Response.output =
        ["3\n\"x\"\nerror: cannot apply non-function 3\n",
          "error: unmatched parens: tokens: [(] [a]\n",
          "error: tokenize failed at '\"'\n", "", "3\n"] ∧
      coloured.map Response.output =
        ["[(] [set] [ ] [a] [  ] [(] [add] [ ] [1] [ ] [02] [)] [)] [ ] [\"x\"] [ ] [(] [a] [)] " ++
          "[ ] [5]\n(set a (add 1 2)) \"x\" (a) 5\n" ++
          "3\n\"x\"\n\x1b[1m\x1b[31merror: \x1b[0mcannot apply non-function 3\n",
          "[(] [a]\n\x1b[1m\x1b[31merror: \x1b[0munmatched parens: tokens: [(] [a]\n",
          "\x1b[1m\x1b[31merror: \x1b[0mtokenize failed at '\"'\n", "", "[a]\na\n3\n"] ∧
      plain.length = coloured.length ∧
      ∀ i < 5, ∃ t, plain[i]?.map Response.store = some t ∧
        coloured[i]?.map Response.store = some t := by
  intro lines plain coloured
  obtain ⟨hlength, hresponses, -⟩ :=
    trace_and_colour_only_show freshSession.1 freshSession.2 lines
  refine ⟨by decide +kernel, by decide +kernel, ?_, fun i hi => ?_⟩
  · exact (hlength _).trans (hlength _).symm
  · obtain ⟨_, _, _, _, _, t, -, hstyles⟩ := hresponses i lines[i] (List.getElem?_eq_getElem hi)
    exact ⟨t, congrArg (Option.map Response.store) (hstyles _),
      congrArg (Option.map Response.store) (hstyles _)⟩

end LineLisp
