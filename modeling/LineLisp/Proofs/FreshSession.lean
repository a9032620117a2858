/-
  LineLisp.Proofs.FreshSession

  The states of a fresh session, and the data in them. Whatever lines are evaluated or
  given to a shell, all that is bound is made of source text, so data can be printed and
  read back: the text of a datum behind a quote yields this datum in every state, since no
  binding can change what a quoted form means.
-/
import LineLisp.Proofs.SourceData

namespace LineLisp

variable {e d : Expr}

-- ============================================================================
-- The states of a fresh session
-- ============================================================================

/-- A session that is started in an empty store. -/
def freshSession : Session × Store (Value Empty) :=
  Session.start Store.empty

/-- The stores that lines lead to from a fresh session. The lines are evaluated, with any
    room, or given to a shell; some of them may fail. -/
inductive Reachable : Store (Value Empty) → Prop where
  | fresh : Reachable freshSession.2
  | eval {s : Store (Value Empty)} (h : Reachable s) (limit : Nat) (line : String) :
    Reachable ((freshSession.1.evalWithin limit line).outcome s).2
  | command {s : Store (Value Empty)} (h : Reachable s) (trace : Bool) (line : String) :
    Reachable ((⟨freshSession.1, trace⟩ : Shell).command line s).2

/-- The expressions of a line in a shell leave a store in which all values are made of
    source text. -/
theorem Shell.Carried.sourced {frame : Nat} {exprs : List Expr} {s t : Store (Value Empty)}
    {pieces : List Piece} {escaped : Option (Fault (Value Empty))}
    (h : Shell.Carried frame exprs s pieces escaped t) (hexprs : ∀ e ∈ exprs, e.Sourced)
    (hs : s.Sourced) : t.Sourced := by
  obtain ⟨before, rest, values, u, last, rfl, hbefore, -, hends, -⟩ := h
  have hu : u.Sourced := hs.after_exprs (fun e he => hexprs e (List.mem_append_left _ he)) hbefore
  have hlast : ∀ {e : Expr} {es : List Expr}, rest = e :: es →
      ∀ r t, (runExprWithin frame maxDepth e).outcome u = (r, t) → t.Sourced := by
    rintro e es rfl r t hout
    have hstore := ((hexprs e (by simp)).run frame maxDepth u hu).1
    rwa [hout] at hstore
  cases hends with
  | done s => exact hu
  | unwritable hout _ => exact hlast rfl _ _ hout
  | reported hout _ => exact hlast rfl _ _ hout
  | escaped hout _ => exact hlast rfl _ _ hout

theorem Shell.command_sourced (shell : Shell) (line : String) {s : Store (Value Empty)}
    (hs : s.Sourced) : (shell.command line s).2.Sourced := by
  by_cases hblank : Text.isBlankLine line = true
  · rwa [shell.command_blank hblank]
  · rw [shell.command_of_not_blank hblank]
    cases hread : (readSource line : Except (Fault (Value Empty)) (List Expr)) with
    | error fault =>
      obtain ⟨echoed, hfeed, -⟩ := shell.feed_unread (s := s) hread
      rwa [hfeed]
    | ok exprs =>
      obtain ⟨echoed, hfeed⟩ := shell.feed_read (s := s) hread
      rw [hfeed]
      exact (shell.runExprs_carried line exprs s).sourced (sourced_of_readSource hread) hs

/-- All that is bound in a state of a fresh session is made of source text. -/
theorem Reachable.sourced {s : Store (Value Empty)} (h : Reachable s) : s.Sourced := by
  induction h with
  | fresh => exact Store.Sourced.empty.newGlobal
  | eval _ limit line ih => exact (freshSession.1.evalWithin_staysSourced limit line _ ih).1
  | command _ trace line ih => exact Shell.command_sourced _ line ih

-- ============================================================================
-- Data
-- ============================================================================

/-- Data that occur in a fresh session: bound in a frame of one of its states, or the value
    of an expression of a line, behind others that came through. -/
inductive Occurs (d : Expr) : Prop where
  | bound {s : Store (Value Empty)} (hs : Reachable s) {f : Nat} {name : String}
    (h : s.get? f name = some (.datum d)) : Occurs d
  | yielded {s t u : Store (Value Empty)} (hs : Reachable s) {limit : Nat} {line : String}
    {before after : List Expr} {e : Expr} {values : List (Value Empty)}
    (hread : (readSource line : Except (Fault (Value Empty)) (List Expr)) =
      .ok (before ++ e :: after))
    (hbefore : (before.mapM (runExprWithin freshSession.1.root limit)).outcome s = (.ok values, t))
    (h : (runExprWithin freshSession.1.root limit e).outcome t = (.ok (.datum d), u)) : Occurs d

/-- All data of a fresh session can be quoted. -/
theorem Occurs.quotable (h : Occurs d) : d.Quotable := by
  cases h with
  | bound hs hget => exact hs.sourced _ _ _ hget
  | @yielded s t u hs limit line before after e values hread hbefore hvalue =>
    have hexprs : ∀ e' ∈ before ++ e :: after, e'.Sourced := sourced_of_readSource hread
    have ht : t.Sourced :=
      hs.sourced.after_exprs (fun e' he' => hexprs e' (List.mem_append_left _ he')) hbefore
    have hend := ((hexprs e (by simp)).run freshSession.1.root limit t ht).2
    rw [hvalue] at hend
    cases hend with
    | ok hd => exact hd

section

variable {η : Type} [Host η] {limit : Nat}

/-- An expression of source text that is a literal is a line that yields it. -/
theorem Expr.Sourced.evalWithin_literal (h : e.Sourced) (hcompile : e.compile = .ok (.literal d))
    (session : Session) (hlimit : 0 < limit) (s : Store (Value η)) :
    (session.evalWithin limit e.text).outcome s = (.ok [.datum d], s) := by
  obtain ⟨room, rfl⟩ : ∃ room, limit = room + 1 := ⟨limit - 1, by omega⟩
  have hrun : (runExprWithin session.root (room + 1) e : Run (Value η) (Value η)) =
      pure (.datum d) := by
    unfold runExprWithin compileExpr
    rw [hcompile]
    rfl
  rw [session.evalWithin_of_readSource h.readSource_text, List.mapM_cons, List.mapM_nil, hrun]
  rfl

/-- A quoted datum is source text if its integers can be written. -/
theorem Expr.Quotable.sourced_quote (h : d.Quotable) (hfits : d.fits = true) :
    (Expr.list [.sym "quote", d]).Sourced := by
  have hname : TokenKind.symbol.Language "quote".toList := by
    refine ⟨'q', ['u', 'o', 't', 'e'], by decide, List.all_eq_true.1 (by decide), rfl⟩
  refine ⟨.list ?_, ?_⟩
  · intro e he
    rcases List.mem_cons.1 he with rfl | he
    · exact .sym hname
    · obtain rfl := List.mem_singleton.1 he
      exact h.lexical.readable hfits
  · have hdepth := h.depth_lt
    simp only [Expr.depth, Expr.depthAll]
    omega

theorem Expr.text_quote (d : Expr) :
    (Expr.list [.sym "quote", d]).text = "(quote " ++ d.text ++ ")" := by
  have hname : (Expr.sym "quote").text = "quote" := rfl
  have hopen : "(" ++ ("quote" ++ " ") = "(quote " := rfl
  rw [Expr.text_list, List.map_cons, List.map_cons, List.map_nil, String.intercalate_cons_cons,
    String.intercalate_singleton, hname, ← String.append_assoc, hopen]

end

/-- Data print and read back. A datum that occurs in a fresh session, with no integer of more
    than 4300 digits, has a text. Behind a quote this text yields the datum in every state
    of every session, whatever names are bound there, and changes nothing; and so does the
    text alone if the datum is an integer or a string. -/
theorem data_print_and_read_back (hd : Occurs d)
    (hints : ∀ n, d.HasInt n → Numeral.digits n ≤ 4300) (session : Session)
    (s : Store (Value Empty)) :
    Written.text? (.datum d : Value Empty) = some d.text ∧
    session.evalWithin maxDepth = (session.eval : String → Run (Value Empty) _) ∧
    ∀ limit, 0 < limit →
      (session.evalWithin limit ("(quote " ++ d.text ++ ")")).outcome s = (.ok [.datum d], s) ∧
      ((∃ n, d = .int n) ∨ (∃ contents, d = .str contents) →
        (session.evalWithin limit d.text).outcome s = (.ok [.datum d], s)) := by
  have hfits : d.fits = true := Expr.fits_iff.2 hints
  have hquotable : d.Quotable := hd.quotable
  refine ⟨Written.text?_of_fits hfits, rfl, fun limit hlimit => ⟨?_, fun hatom => ?_⟩⟩
  · rw [← Expr.text_quote]
    exact (hquotable.sourced_quote hfits).evalWithin_literal rfl session hlimit s
  · have hsourced : d.Sourced := ⟨hquotable.lexical.readable hfits, Nat.le_of_lt hquotable.depth_lt⟩
    rcases hatom with ⟨n, rfl⟩ | ⟨contents, rfl⟩
    · exact hsourced.evalWithin_literal rfl session hlimit s
    · exact hsourced.evalWithin_literal rfl session hlimit s

/-- A datum that a line binds before it fails, in a session that has given the name of the
    quoting form another meaning: it prints, and reads back behind a quote. -/
theorem bound_datum_reads_back :
    let line := "(set quote add) (set kept (quote (quote \"x\\\"y\" -7))) (kept)"
    let d : Expr := .list [.sym "quote", .str "x\\\"y", .int (-7)]
    let s := (Run.outcome (freshSession.1.eval line) freshSession.2).2
    let outcome := (freshSession.1.eval "(quote (quote \"x\\\"y\" -7))").outcome s
    Occurs d ∧ (∀ n, d.HasInt n → Numeral.digits n ≤ 4300) ∧
      s.get? 0 "quote" = some (.primitive "add" .add) ∧ outcome = (.ok [.datum d], s) := by
  intro line d s outcome
  have hkept : s.get? 0 "kept" = some (.datum d) := by decide +kernel
  have hoccurs : Occurs d := .bound (Reachable.fresh.eval maxDepth line) hkept
  have hints : ∀ n, d.HasInt n → Numeral.digits n ≤ 4300 := by
    intro n hn
    obtain rfl : n = -7 := by simpa [d] using hn
    decide
  have htext : "(quote " ++ d.text ++ ")" = "(quote (quote \"x\\\"y\" -7))" := by decide +kernel
  have hback := ((data_print_and_read_back hoccurs hints freshSession.1 s).2.2 maxDepth
    (by decide)).1
  rw [htext] at hback
  exact ⟨hoccurs, hints, by decide +kernel, hback⟩

end LineLisp
