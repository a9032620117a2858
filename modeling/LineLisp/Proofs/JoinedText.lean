/-
  LineLisp.Proofs.JoinedText

  Code that is put together. Blanks between two texts make one space token with the white
  space at the end of the first and at the beginning of the second, and no other tokens
  meet. So if both texts are read, the whole is read as the expressions of the one followed
  by those of the other; and to run it is to run the two texts one after the other, up to
  the first fault.
-/
import LineLisp.Proofs.Phases

namespace LineLisp

open Grammar

variable {η : Type} {before after tokens tokens' : List Token} {es es' : List Expr}
  {gap : String}

-- ============================================================================
-- Tokens of the whole
-- ============================================================================

/-- Tokens that are in their languages, with the text that they make up. -/
theorem TokensOf.source_self (h : ∀ token ∈ tokens, token.WellFormed) :
    TokensOf (Token.source tokens) tokens := ⟨h, rfl⟩

/-- White space is made of blanks. -/
theorem Grammar.Gap.isBlank (h : Gap tokens) (hwf : ∀ token ∈ tokens, token.WellFormed) :
    ∀ c ∈ Token.source tokens, Text.isBlank c = true := by
  cases h with
  | none => exact nofun
  | @space token hspace =>
    have htoken : token.kind.Language token.text.toList := hwf token List.mem_cons_self
    rw [hspace] at htoken
    rw [Token.source_cons, Token.source_nil, List.append_nil]
    exact htoken.2

/-- Blanks are one token together with the white space before and behind them. -/
theorem exists_space_between (hbefore : Gap before) (hwf : ∀ token ∈ before, token.WellFormed)
    (hafter : Gap after) (hwf' : ∀ token ∈ after, token.WellFormed)
    (hgap : Text.isBlankLine gap = true) (hne : gap ≠ "") :
    ∃ token : Token, token.kind = .space ∧
      TokensOf (Token.source before ++ gap.toList ++ Token.source after) [token] := by
  let whole := String.ofList (Token.source before ++ gap.toList ++ Token.source after)
  have htext : whole.toList = Token.source before ++ gap.toList ++ Token.source after :=
    String.toList_ofList
  have hblank : Text.isBlankLine whole = true := by
    refine Text.isBlankLine_iff.2 fun c hc => ?_
    rw [htext, List.append_assoc, List.mem_append, List.mem_append] at hc
    rcases hc with hc | hc | hc
    · exact hbefore.isBlank hwf c hc
    · exact Text.isBlankLine_iff.1 hgap c hc
    · exact hafter.isBlank hwf' c hc
  have hwhole : whole ≠ "" := by
    intro hempty
    rw [hempty] at htext
    have hnil := (List.append_eq_nil_iff.1 htext.symm).1
    exact hne (String.toList_eq_nil_iff.1 (List.append_eq_nil_iff.1 hnil).2)
  rw [← htext]
  exact exists_gap hblank hwhole

/-- Two bodies with blanks between them make up one body. The cases are those of either
    body being nothing but white space. -/
theorem Grammar.Body.exists_join (h : Body tokens es) (hwf : ∀ token ∈ tokens, token.WellFormed)
    (h' : Body tokens' es') (hwf' : ∀ token ∈ tokens', token.WellFormed)
    (hgap : Text.isBlankLine gap = true) (hne : gap ≠ "") :
    ∃ joined, Body joined (es ++ es') ∧
      TokensOf (Token.source tokens ++ gap.toList ++ Token.source tokens') joined := by
  cases h with
  | empty hfirst =>
    cases h' with
    | empty hsecond =>
      obtain ⟨token, hspace, htext⟩ := exists_space_between hfirst hwf hsecond hwf' hgap hne
      exact ⟨[token], .empty (.space hspace), htext⟩
    | items hbefore hitems hafter =>
      simp only [List.forall_mem_append] at hwf'
      obtain ⟨token, hspace, htext⟩ := exists_space_between hfirst hwf hbefore hwf'.1.1 hgap hne
      refine ⟨_, .items (.space hspace) hitems hafter, ?_⟩
      have hall := (htext.append (.source_self hwf'.1.2)).append (.source_self hwf'.2)
      simpa only [Token.source_append, List.append_assoc] using hall
  | @items before items after _ hbefore hitems hafter =>
    simp only [List.forall_mem_append] at hwf
    have hfront : TokensOf (Token.source before ++ Token.source items) (before ++ items) :=
      (TokensOf.source_self hwf.1.1).append (.source_self hwf.1.2)
    cases h' with
    | empty hsecond =>
      obtain ⟨token, hspace, htext⟩ := exists_space_between hafter hwf.2 hsecond hwf' hgap hne
      rw [List.append_nil]
      refine ⟨_, .items hbefore hitems (.space hspace), ?_⟩
      simpa only [Token.source_append, List.append_assoc] using hfront.append htext
    | items hbefore' hitems' hafter' =>
      simp only [List.forall_mem_append] at hwf'
      obtain ⟨token, hspace, htext⟩ :=
        exists_space_between hafter hwf.2 hbefore' hwf'.1.1 hgap hne
      refine ⟨_, .items hbefore (hitems.append hspace hitems') hafter', ?_⟩
      have hback := (htext.append (.source_self hwf'.1.2)).append (.source_self hwf'.2)
      simpa [List.append_assoc] using hfront.append hback

-- ============================================================================
-- The whole is read and run
-- ============================================================================

/-- Two texts that are read are read one after the other if blanks stand between them. -/
theorem readSource_joined {a b : String}
    (ha : (readSource a : Except (Fault (Value η)) (List Expr)) = .ok es)
    (hb : (readSource b : Except (Fault (Value η)) (List Expr)) = .ok es')
    (hgap : Text.isBlankLine gap = true) (hne : gap ≠ "") :
    (readSource (a ++ gap ++ b) : Except (Fault (Value η)) (List Expr)) = .ok (es ++ es') := by
  obtain ⟨tokens, htokens, hread⟩ := readSource_eq_ok_iff.1 ha
  obtain ⟨tokens', htokens', hread'⟩ := readSource_eq_ok_iff.1 hb
  obtain ⟨hsource, hwf, -⟩ := tokenize_eq_ok_iff.1 htokens
  obtain ⟨hsource', hwf', -⟩ := tokenize_eq_ok_iff.1 htokens'
  obtain ⟨hbody, hdepth⟩ := (Reached.fresh tokens).sound hread
  obtain ⟨hbody', hdepth'⟩ := (Reached.fresh tokens').sound hread'
  rw [List.nil_append] at hbody hbody'
  obtain ⟨joined, hjoined, htext⟩ := hbody.exists_join hwf hbody' hwf' hgap hne
  rw [hsource, hsource', ← String.toList_append, ← String.toList_append] at htext
  refine readSource_eq_ok_iff.2 ⟨joined, ?_, ?_⟩
  · exact (hjoined.munched htext.wellFormed).tokenize htext.source.symm
  · rw [hjoined.readAll fun e he => (List.mem_append.1 he).elim (hdepth e) (hdepth' e)]

/-- Code that is put together runs as its two parts do, one after the other. -/
theorem Session.evalWithin_joined [Host η] {a b : String}
    (ha : (readSource a : Except (Fault (Value η)) (List Expr)) = .ok es)
    (hb : (readSource b : Except (Fault (Value η)) (List Expr)) = .ok es')
    (hgap : Text.isBlankLine gap = true) (hne : gap ≠ "") (session : Session) (limit : Nat) :
    (session.evalWithin limit (a ++ gap ++ b) : Run (Value η) (List (Value η))) =
      (session.evalWithin limit a >>= fun values =>
        session.evalWithin limit b >>= fun values' => pure (values ++ values')) := by
  rw [session.evalWithin_of_readSource (readSource_joined ha hb hgap hne),
    session.evalWithin_of_readSource ha, session.evalWithin_of_readSource hb, List.mapM_append]

/-- A line of several expressions is as good as several lines. Two texts that are read,
    with blanks between them, are read as the expressions of the first and those of the
    second. In every state of every session the whole then does what the first text does
    and, unless that ends with a fault, what the second does after it: the values are
    those of both in order, the fault is the first that comes up, and the store is the one
    that is left there. -/
theorem joined_code_runs_in_order [Host η] {a b gap : String} {first second : List Expr}
    (ha : (readSource a : Except (Fault (Value η)) (List Expr)) = .ok first)
    (hb : (readSource b : Except (Fault (Value η)) (List Expr)) = .ok second)
    (hgap : Text.isBlankLine gap = true) (hne : gap ≠ "") :
    (readSource (a ++ gap ++ b) : Except (Fault (Value η)) (List Expr)) =
      .ok (first ++ second) ∧
    ∀ session : Session,
      session.evalWithin maxDepth = (session.eval : String → Run (Value η) (List (Value η))) ∧
      ∀ (limit : Nat) (s : Store (Value η)),
        (session.evalWithin limit (a ++ gap ++ b)).outcome s =
          match (session.evalWithin limit a).outcome s with
          | (.error fault, t) => (.error fault, t)
          | (.ok values, t) =>
            match (session.evalWithin limit b).outcome t with
            | (.error fault, u) => (.error fault, u)
            | (.ok values', u) => (.ok (values ++ values'), u) := by
  refine ⟨readSource_joined ha hb hgap hne, fun session => ⟨rfl, fun limit s => ?_⟩⟩
  rw [session.evalWithin_joined ha hb hgap hne, Run.outcome_bind]
  rcases (session.evalWithin limit a : Run (Value η) (List (Value η))).outcome s with ⟨r, t⟩
  cases r with
  | error fault => rfl
  | ok values =>
    simp only [Run.outcome_bind]
    rcases (session.evalWithin limit b : Run (Value η) (List (Value η))).outcome t with ⟨r', u⟩
    cases r' <;> rfl

/-- A text that ends with a blank and one that begins with some, put together by more of
    them: the second fails after it has bound a name, and all that was bound stays. -/
theorem joined_code_stops_at_first_fault :
    let a := " (set a 1) "
    let b := "  (set b 2) gone (set a 3)"
    let read (source : String) : Except (Fault (Value Empty)) (List Expr) := readSource source
    let first : List Expr := [.list [.sym "set", .sym "a", .int 1]]
    let second : List Expr := [.list [.sym "set", .sym "b", .int 2], .sym "gone",
      .list [.sym "set", .sym "a", .int 3]]
    let start := Session.start (Store.empty : Store (Value Empty))
    let outcome := (start.1.eval (a ++ "\n\t" ++ b)).outcome start.2
    read a = .ok first ∧ read b = .ok second ∧ Text.isBlankLine "\n\t" = true ∧
      read (a ++ "\n\t" ++ b) = .ok (first ++ second) ∧
      outcome.1 = .error (.unbound "gone") ∧
      outcome.2.get? 0 "a" = some (.int 1) ∧ outcome.2.get? 0 "b" = some (.int 2) := by
  intro a b read first second start outcome
  have ha : read a = .ok first := by decide +kernel
  have hb : read b = .ok second := by decide +kernel
  have hgap : Text.isBlankLine "\n\t" = true := by decide
  obtain ⟨hread, hrun⟩ := joined_code_runs_in_order ha hb hgap (by decide)
  have hwhole : outcome = _ := (hrun start.1).2 maxDepth start.2
  rw [hwhole]
  exact ⟨ha, hb, hgap, hread, by decide +kernel, by decide +kernel, by decide +kernel⟩

end LineLisp
