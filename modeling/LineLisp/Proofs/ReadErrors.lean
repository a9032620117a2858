/-
  LineLisp.Proofs.ReadErrors

  Where reading fails. Tokens are viable if more tokens behind them can make them
  read. As long as the reader goes on, the tokens behind it are viable, since the
  lists that are open can be closed at any time; and a token that it refuses makes
  viable tokens unviable for good. So an error points at the first token that cannot
  be right, and if there is none, at the innermost list that is not closed.
-/
import LineLisp.Proofs.Reading

namespace LineLisp

open Grammar

variable {limit room : Nat} {single : Bool} {level level' parent : Level}
  {outer outer' others : List Level} {token closing : Token}
  {tokens before rest more : List Token} {e : Expr} {es : List Expr} {error : ReadError}

-- ============================================================================
-- Viable tokens and unclosed lists
-- ============================================================================

/-- Tokens that read, with room for this many open lists, once the right tokens are
    put behind them. -/
def Viable (limit : Nat) (tokens : List Token) : Prop :=
  ∃ (more : List Token) (es : List Expr), (Expr.readAll limit (tokens ++ more)).1 = .ok es

/-- Tokens behind which an expression may stand. -/
def ExpectsExpression (limit : Nat) (tokens : List Token) : Prop :=
  ∃ (piece : List Token) (e : Expr), Expression piece e ∧ Viable limit (tokens ++ piece)

/-- The unclosed lists of some tokens on top of some that were open before, the
    innermost first, each as the tokens from its opening parenthesis on. A closing
    parenthesis closes the innermost. -/
def unclosedOver (unclosed : List (List Token)) : List Token → List (List Token)
  | [] => unclosed
  | token :: rest =>
    match token.kind with
    | .openParen => unclosedOver ((token :: rest) :: unclosed) rest
    | .closeParen => unclosedOver unclosed.tail rest
    | .space | .symbol | .string | .number => unclosedOver unclosed rest

/-- The lists that some tokens open and do not close, the innermost first. -/
def unclosedLists (tokens : List Token) : List (List Token) :=
  unclosedOver [] tokens

theorem Viable.of_append (h : Viable limit (tokens ++ rest)) : Viable limit tokens := by
  obtain ⟨more, es, hread⟩ := h
  rw [List.append_assoc] at hread
  exact ⟨rest ++ more, es, hread⟩

-- ============================================================================
-- Open lists can be closed
-- ============================================================================

/-- Closing all open lists makes the tokens read. -/
theorem Reached.readAll_closed (h : Reached limit tokens level outer)
    (hclosing : closing.kind = .closeParen) :
    ∃ es, (Expr.readAll limit (tokens ++ List.replicate outer.length closing)).1 = .ok es := by
  induction outer generalizing tokens level with
  | nil =>
    cases h with
    | outermost hopened hfits =>
      refine ⟨level.items.reverse, ?_⟩
      rw [List.length_nil, List.replicate_zero, List.append_nil,
        hopened.body.readAll fun e he => hfits e (List.mem_reverse.1 he)]
  | cons parent others ih =>
    rw [List.length_cons, List.replicate_succ, List.append_cons]
    exact ih (h.closeList hclosing)

theorem Reached.viable (h : Reached limit tokens level outer) : Viable limit tokens :=
  ⟨List.replicate outer.length ⟨.closeParen, ")"⟩, h.readAll_closed rfl⟩

-- ============================================================================
-- The reader comes by every state that it can reach
-- ============================================================================

theorem Trailing.readLevels (h : Trailing level.spaced tokens) (start : List Token)
    (items : List Expr) (rest : List Token) :
    Expr.readLevels limit single ⟨start, items, false⟩ outer (tokens ++ rest) =
      Expr.readLevels limit single ⟨start, items, level.spaced⟩ outer rest := by
  generalize level.spaced = spaced at h
  cases h with
  | none => rfl
  | space hkind =>
    rw [List.singleton_append, Expr.readLevels_space hkind rfl]
    rfl

/-- The reader takes the tokens of a sequence that goes on. -/
theorem Opened.readLevels (h : Opened tokens level)
    (hroom : ∀ e ∈ level.items, outer.length + e.depth ≤ limit)
    (hopen : (single && outer.isEmpty) = false) (start rest : List Token) :
    Expr.readLevels limit single (.fresh start) outer (tokens ++ rest) =
      Expr.readLevels limit single ⟨start, level.items, level.spaced⟩ outer rest := by
  cases h with
  | empty hitems hafter =>
    rw [hitems]
    exact hafter.readLevels start [] rest
  | @items before tokens after _ hbefore hitems hafter =>
    rw [List.append_assoc, List.append_assoc, Level.fresh]
    obtain ⟨spaced, hfirst⟩ : ∃ spaced,
        Expr.readLevels limit single ⟨start, [], false⟩ outer
            (before ++ (tokens ++ (after ++ rest))) =
          Expr.readLevels limit single ⟨start, [], spaced⟩ outer (tokens ++ (after ++ rest)) :=
      readLevels_gap hbefore start [] _
    have hready : Level.ready ⟨start, [], spaced⟩ = true := rfl
    have hroom' : ∀ e ∈ level.items.reverse, outer.length + e.depth ≤ limit :=
      fun e he => hroom e (List.mem_reverse.1 he)
    rw [hfirst, readLevels_items hitems (fun _ _ _ he => he.readsAs) hready hroom' hopen,
      List.reverse_reverse, List.append_nil]
    exact hafter.readLevels start level.items rest

/-- Two open sequences that were read alike, from tokens that may go on differently. -/
structure SameState (level : Level) (outer : List Level) (level' : Level) (outer' : List Level) :
    Prop where
  items : level'.items = level.items
  spaced : level'.spaced = level.spaced
  length : outer'.length = outer.length

/-- Whatever follows the tokens that lead to a state, and with any more room, the
    reader comes by this state. -/
theorem Reached.readAll (h : Reached limit before level outer) (hroom : limit ≤ room)
    (rest : List Token) :
    ∃ level' outer', SameState level outer level' outer' ∧
      Expr.readAll room (before ++ rest) = Expr.readLevels room false level' outer' rest := by
  induction h generalizing rest with
  | @outermost tokens level hopened hfits =>
    refine ⟨⟨tokens ++ rest, level.items, level.spaced⟩, [], ⟨rfl, rfl, rfl⟩, ?_⟩
    have hfits' : ∀ e ∈ level.items, ([] : List Level).length + e.depth ≤ room := by
      intro e he
      have hfit := hfits e he
      rw [List.length_nil]
      omega
    exact hopened.readLevels hfits' rfl (tokens ++ rest) rest
  | @nested before tokens opening level parent others _ hready hlt hopening hopened hfits ih =>
    obtain ⟨parent', others', ⟨hitems, hspaced, hlength⟩, hread⟩ := ih (opening :: tokens ++ rest)
    have hready' : parent'.ready = true := by rwa [Level.ready, hitems, hspaced]
    have hlt' : others'.length < room := by omega
    have hfits' : ∀ e ∈ level.items, (parent' :: others').length + e.depth ≤ room := by
      intro e he
      have hfit := hfits e he
      rw [List.length_cons]
      omega
    let start : List Token := opening :: (tokens ++ rest)
    refine ⟨⟨start, level.items, level.spaced⟩, parent' :: others', ⟨rfl, rfl, ?_⟩, ?_⟩
    · rw [List.length_cons, List.length_cons, hlength]
    · rw [List.append_assoc, hread, List.cons_append, Expr.readLevels_open hopening hready' hlt',
        hopened.readLevels hfits' rfl]

-- ============================================================================
-- Refused tokens
-- ============================================================================

/-- A number token without a numeral that can be read. -/
def Token.Unreadable (token : Token) : Prop :=
  token.kind = .number ∧ Numeral.read? token.text.toList = none

instance (token : Token) : Decidable token.Unreadable :=
  inferInstanceAs (Decidable (_ ∧ _))

/-- All other tokens but spaces and parentheses are expressions by themselves. -/
theorem Token.exists_atom (hspace : token.kind ≠ .space) (hopen : token.kind ≠ .openParen)
    (hclose : token.kind ≠ .closeParen) (hread : ¬ token.Unreadable) :
    ∃ e, token.atom? = some (.ok e) := by
  cases hkind : token.kind with
  | space => exact absurd hkind hspace
  | openParen => exact absurd hkind hopen
  | closeParen => exact absurd hkind hclose
  | symbol => exact ⟨_, Token.atom?_eq_ok_iff.2 (.inl ⟨hkind, rfl⟩)⟩
  | string => exact ⟨_, Token.atom?_eq_ok_iff.2 (.inr (.inl ⟨hkind, rfl⟩))⟩
  | number =>
    cases hnumeral : Numeral.read? token.text.toList with
    | none => exact absurd ⟨hkind, hnumeral⟩ hread
    | some n => exact ⟨_, Token.atom?_eq_ok_iff.2 (.inr (.inr ⟨hkind, n, hnumeral, rfl⟩))⟩

/-- The tokens that a sequence cannot go on with: a second space, a parenthesis that
    closes nothing, an expression without a space before it, and a number that cannot
    be read. -/
inductive Refuses (level : Level) (outer : List Level) (token : Token) : Prop where
  | space (hkind : token.kind = .space) (hspaced : level.spaced = true)
  | close (hkind : token.kind = .closeParen) (houter : outer = [])
  | joined (hready : level.ready = false) (hspace : token.kind ≠ .space)
    (hclose : token.kind ≠ .closeParen)
  | number (h : token.Unreadable)

theorem tokens_joined (outer : List Level) (tokens : List Token) :
    (Expr.joined outer tokens).tokens = tokens ∧ Expr.joined outer tokens ≠ .missing := by
  unfold Expr.joined
  split
  · exact ⟨rfl, nofun⟩
  · exact ⟨rfl, nofun⟩

namespace Refuses

theorem of_same (h : Refuses level outer token) (hsame : SameState level outer level' outer') :
    Refuses level' outer' token := by
  obtain ⟨hitems, hspaced, hlength⟩ := hsame
  cases h with
  | space hkind hspaced' => exact .space hkind (hspaced.trans hspaced')
  | close hkind houter =>
    subst houter
    exact .close hkind (List.eq_nil_of_length_eq_zero hlength)
  | joined hready hspace hclose =>
    refine .joined ?_ hspace hclose
    rwa [Level.ready, hitems, hspaced]
  | number h => exact .number h

/-- The error at a refused token points at it and all that is left behind it, or at a
    number alone if an expression may stand in its place. -/
theorem readLevels (h : Refuses level outer token) (limit : Nat) (single : Bool)
    (rest : List Token) :
    ∃ error, (Expr.readLevels limit single level outer (token :: rest)).1 = .error error ∧
      error ≠ .missing ∧
      error.tokens =
        if token.Unreadable ∧ level.ready = true then [token] else token :: rest := by
  obtain ⟨hjoined, hjoinedne⟩ := tokens_joined outer (token :: rest)
  obtain ⟨hjoinednil, hjoinednilne⟩ := tokens_joined [] (token :: rest)
  cases h with
  | space hkind hspaced =>
    refine ⟨.unexpected (token :: rest), ?_, by simp, ?_⟩
    · simp [Expr.readLevels, hkind, hspaced]
    · simp [ReadError.tokens, Token.Unreadable, hkind]
  | close hkind houter =>
    subst houter
    cases hready : level.ready with
    | true =>
      refine ⟨.unexpected (token :: rest), ?_, by simp, ?_⟩
      · simp [Expr.readLevels, hkind, hready]
      · simp [ReadError.tokens, Token.Unreadable, hkind]
    | false =>
      refine ⟨Expr.joined [] (token :: rest), ?_, hjoinednilne, ?_⟩
      · simp [Expr.readLevels, hkind, hready]
      · simp [hjoinednil]
  | joined hready hspace hclose =>
    refine ⟨Expr.joined outer (token :: rest), ?_, hjoinedne, ?_⟩
    · cases hkind : token.kind with
      | space => exact absurd hkind hspace
      | closeParen => exact absurd hkind hclose
      | openParen => simp [Expr.readLevels, hkind, hready]
      | symbol | string | number => simp [Expr.readLevels, hkind, hready]
    · simp [hjoined, hready]
  | number hnumber =>
    obtain ⟨hkind, hread⟩ := hnumber
    cases hready : level.ready with
    | true =>
      refine ⟨.badNumber token, ?_, by simp, ?_⟩
      · simp [Expr.readLevels, Token.atom?, hkind, hread, hready]
      · simp [ReadError.tokens, Token.Unreadable, hkind, hread]
    | false =>
      refine ⟨Expr.joined outer (token :: rest), ?_, hjoinedne, ?_⟩
      · simp [Expr.readLevels, hkind, hready]
      · simp [hjoined]

end Refuses

/-- Behind a refused token nothing makes the tokens read, however much room there
    is. -/
theorem Reached.not_viable (h : Reached limit before level outer)
    (hrefuses : Refuses level outer token) (room : Nat) :
    ¬ Viable room (before ++ token :: rest) := by
  rintro ⟨more, es, hread⟩
  obtain ⟨hbody, hdepth⟩ := (Reached.fresh (before ++ token :: rest ++ more)).sound hread
  -- With room for this result and for the state as well, the reader comes by the state.
  have hdepth' : ∀ e ∈ es, e.depth ≤ max limit room :=
    fun e he => Nat.le_trans (hdepth e he) (Nat.le_max_right _ _)
  have hok := hbody.readAll hdepth'
  rw [List.nil_append, List.append_assoc, List.cons_append] at hok
  obtain ⟨level', outer', hsame, hstate⟩ :=
    h.readAll (Nat.le_max_left limit room) (token :: (rest ++ more))
  obtain ⟨error, herror, -⟩ :=
    (hrefuses.of_same hsame).readLevels (max limit room) false (rest ++ more)
  rw [← hstate, hok] at herror
  cases herror

/-- An expression begins neither with a space nor with a closing parenthesis. -/
theorem Grammar.Expression.exists_cons (h : Expression tokens e) :
    ∃ token rest, tokens = token :: rest ∧ token.kind ≠ .space ∧ token.kind ≠ .closeParen := by
  cases h with
  | @symbol token hkind => exact ⟨token, [], rfl, by simp [hkind], by simp [hkind]⟩
  | @string token hkind => exact ⟨token, [], rfl, by simp [hkind], by simp [hkind]⟩
  | @number token _ hkind _ => exact ⟨token, [], rfl, by simp [hkind], by simp [hkind]⟩
  | @list token closing body _ hkind _ _ =>
    exact ⟨token, body ++ [closing], rfl, by simp [hkind], by simp [hkind]⟩

/-- An expression may stand where its sequence is ready for one, and nowhere else. -/
theorem Reached.expectsExpression_iff (h : Reached limit before level outer) :
    ExpectsExpression limit before ↔ level.ready = true := by
  constructor
  · rintro ⟨piece, e, hpiece, hviable⟩
    obtain ⟨token, rest, rfl, hspace, hclose⟩ := hpiece.exists_cons
    cases hready : level.ready with
    | true => rfl
    | false => exact absurd hviable (h.not_viable (.joined hready hspace hclose) limit)
  · intro hready
    have hsymbol : Expression [⟨.symbol, "x"⟩] (.sym "x") := .symbol rfl
    have hdepth : outer.length + (Expr.sym "x").depth ≤ limit := by
      rw [Expr.depth]
      exact h.length_le
    exact ⟨_, _, hsymbol, (h.push hready hsymbol hdepth).viable⟩

-- ============================================================================
-- Where the reader stops
-- ============================================================================

/-- The beginnings of the open lists, the innermost first. -/
def starts (level : Level) : List Level → List (List Token)
  | [] => []
  | parent :: others => level.start :: starts parent others

theorem length_starts (level : Level) (outer : List Level) :
    (starts level outer).length = outer.length := by
  induction outer generalizing level with
  | nil => rfl
  | cons parent others ih => rw [starts, List.length_cons, List.length_cons, ih]

theorem starts_space (level : Level) (outer : List Level) :
    starts level.space outer = starts level outer := by
  cases outer <;> rfl

/-- The open lists do not depend on what was read in the innermost. -/
theorem starts_push (level : Level) (e : Expr) (outer : List Level) :
    starts (level.push e) outer = starts level outer := by
  cases outer <;> rfl

/-- How the reader comes to an error, other than a lack of room: either the tokens end
    in an open list, or it refuses a token in a state that it has reached. -/
inductive Stops (limit : Nat) (before : List Token) (level : Level) (outer : List Level)
    (error : ReadError) : List Token → Prop where
  | atEnd {tokens : List Token} {level' : Level} {outer' : List Level}
    (h : Reached limit (before ++ tokens) level' outer') (hopen : outer' ≠ [])
    (herror : error = .unclosed level'.start)
    (hstarts : unclosedOver (starts level outer) tokens = starts level' outer') :
    Stops limit before level outer error tokens
  | atToken {read rest : List Token} {token : Token} {level' : Level} {outer' : List Level}
    (h : Reached limit (before ++ read) level' outer') (hrefuses : Refuses level' outer' token)
    (herror : (Expr.readLevels limit false level' outer' (token :: rest)).1 = .error error) :
    Stops limit before level outer error (read ++ token :: rest)

/-- A token that the reader takes comes before the place where it stops. -/
theorem Stops.cons (h : Stops limit (before ++ [token]) level' outer' error rest)
    (hstarts : unclosedOver (starts level outer) (token :: rest) =
      unclosedOver (starts level' outer') rest) :
    Stops limit before level outer error (token :: rest) := by
  cases h with
  | atEnd h hopen herror hends =>
    rw [List.append_assoc] at h
    exact .atEnd h hopen herror (hstarts.trans hends)
  | @atToken read rest next _ _ h hrefuses herror =>
    rw [List.append_assoc] at h
    show Stops limit before level outer error ((token :: read) ++ next :: rest)
    exact .atToken h hrefuses herror

/-- An error at the next token is one at the end of no tokens. -/
theorem Stops.here (h : Reached limit before level outer) (hrefuses : Refuses level outer token)
    (herror : (Expr.readLevels limit false level outer (token :: rest)).1 = .error error) :
    Stops limit before level outer error (token :: rest) := by
  rw [← List.append_nil before] at h
  show Stops limit before level outer error ([] ++ token :: rest)
  exact .atToken h hrefuses herror

/-- From a state that it can reach, the reader ends with a result, with a lack of room
    or by stopping. The induction is on the tokens; each of them is taken, or there is
    the error. -/
theorem Reached.stops (h : Reached limit before level outer)
    (hread : (Expr.readLevels limit false level outer tokens).1 = .error error)
    (hroom : error ≠ .tooDeep) : Stops limit before level outer error tokens := by
  induction tokens generalizing before level outer with
  | nil =>
    rw [← List.append_nil before] at h
    cases outer with
    | nil => cases hread
    | cons parent others =>
      exact .atEnd h (List.cons_ne_nil _ _) (Except.error.inj hread).symm rfl
  | cons token rest ih =>
    cases hkind : token.kind with
    | space =>
      cases hspaced : level.spaced with
      | true => exact .here h (.space hkind hspaced) hread
      | false =>
        rw [Expr.readLevels_space hkind hspaced] at hread
        refine (ih (h.space hspaced hkind) hread).cons ?_
        rw [unclosedOver, hkind, starts_space]
    | closeParen =>
      cases outer with
      | nil => exact .here h (.close hkind rfl) hread
      | cons parent others =>
        rw [Expr.readLevels_close hkind, Bool.false_and] at hread
        refine (ih (h.closeList hkind) hread).cons ?_
        rw [unclosedOver, hkind, starts_push]
        rfl
    | openParen =>
      have hspace : token.kind ≠ .space := by simp [hkind]
      have hclose : token.kind ≠ .closeParen := by simp [hkind]
      cases hready : level.ready with
      | false => exact .here h (.joined hready hspace hclose) hread
      | true =>
        by_cases hlt : outer.length < limit
        · rw [Expr.readLevels_open hkind hready hlt] at hread
          refine (ih (h.openList hready hlt hkind _) hread).cons ?_
          rw [unclosedOver, hkind]
          rfl
        · simp only [Expr.readLevels, hkind, hready, hlt, if_true, if_false] at hread
          exact absurd (Except.error.inj hread).symm hroom
    | symbol | string | number =>
      have hspace : token.kind ≠ .space := by simp [hkind]
      have hopen : token.kind ≠ .openParen := by simp [hkind]
      have hclose : token.kind ≠ .closeParen := by simp [hkind]
      cases hready : level.ready with
      | false => exact .here h (.joined hready hspace hclose) hread
      | true =>
        by_cases hnumber : token.Unreadable
        · exact .here h (.number hnumber) hread
        · obtain ⟨e, hatom⟩ := Token.exists_atom hspace hopen hclose hnumber
          rw [Expr.readLevels_atom hatom hready, Bool.false_and] at hread
          have hdepth : outer.length + e.depth ≤ limit := by
            rw [Token.depth_of_atom? hatom]
            exact h.length_le
          refine (ih (h.push hready (.of_atom? hatom) hdepth) hread).cons ?_
          rw [unclosedOver, hkind, starts_push]

-- ============================================================================
-- The theorem
-- ============================================================================

/-- Reading came to the end in a list that is not closed: the tokens are viable, the
    error points at the innermost unclosed list, and as many closing parentheses as
    there are unclosed lists make the tokens read. -/
structure Unfinished (limit : Nat) (tokens : List Token) (error : ReadError) : Prop where
  viable : Viable limit tokens
  innermost : ∃ list, (unclosedLists tokens).head? = some list ∧ error = .unclosed list
  completes : ∀ closing : Token, closing.kind = .closeParen →
    ∃ es, (Expr.readAll limit
      (tokens ++ List.replicate (unclosedLists tokens).length closing)).1 = .ok es

/-- Reading failed at the first token that cannot be right: the tokens before it are
    viable, with it they are not, however much room there is, and the error points at
    it and all that is left, or at it alone if it is a number that cannot be read in a
    place where an expression may stand. -/
structure FailsAt (limit : Nat) (before : List Token) (token : Token) (rest : List Token)
    (error : ReadError) : Prop where
  viable : Viable limit before
  not_viable : ∀ room, ¬ Viable room (before ++ [token])
  number : token.Unreadable → ExpectsExpression limit before → error.tokens = [token]
  other : ¬ (token.Unreadable ∧ ExpectsExpression limit before) → error.tokens = token :: rest

theorem Reached.failsAt (h : Reached limit before level outer)
    (hrefuses : Refuses level outer token)
    (herror : (Expr.readLevels limit false level outer (token :: rest)).1 = .error error) :
    error ≠ .missing ∧ FailsAt limit before token rest error := by
  obtain ⟨error', herror', hmissing, hpoints⟩ := hrefuses.readLevels limit false rest
  obtain rfl : error' = error := Except.error.inj (herror'.symm.trans herror)
  have hexpects_iff := h.expectsExpression_iff
  refine ⟨hmissing, h.viable, h.not_viable hrefuses, fun hnumber hexpects => ?_, fun hother => ?_⟩
  · rw [hpoints, if_pos ⟨hnumber, hexpects_iff.1 hexpects⟩]
  · rw [hpoints, if_neg fun hboth => hother ⟨hboth.1, hexpects_iff.2 hboth.2⟩]

theorem Reached.unfinished (h : Reached limit tokens level outer) (hopen : outer ≠ [])
    (hstarts : unclosedLists tokens = starts level outer) :
    Unfinished limit tokens (.unclosed level.start) where
  viable := h.viable
  innermost := by
    obtain ⟨parent, others, rfl⟩ := List.exists_cons_of_ne_nil hopen
    exact ⟨level.start, by rw [hstarts]; rfl, rfl⟩
  completes closing hclosing := by
    rw [hstarts, length_starts]
    exact h.readAll_closed hclosing

/-- Errors are found at the earliest token. Tokens that do not read, though there is
    room, either end too early or fail at one of them, and not both; that an expression
    is missing is never the error. -/
theorem read_errors_earliest {limit : Nat} {tokens : List Token} {error : ReadError}
    (hread : (Expr.readAll limit tokens).1 = .error error) (hroom : error ≠ .tooDeep) :
    error ≠ .missing ∧
    (Unfinished limit tokens error ∨
      ∃ before token rest, tokens = before ++ token :: rest ∧
        FailsAt limit before token rest error) ∧
    ¬ (Unfinished limit tokens error ∧
      ∃ before token rest, tokens = before ++ token :: rest ∧
        FailsAt limit before token rest error) := by
  have hstops := (@Reached.fresh limit tokens).stops hread hroom
  have hexclusive : ¬ (Unfinished limit tokens error ∧
      ∃ before token rest, tokens = before ++ token :: rest ∧
        FailsAt limit before token rest error) := by
    rintro ⟨hunfinished, before, token, rest, rfl, hfails⟩
    have hviable := hunfinished.viable
    rw [List.append_cons] at hviable
    exact hfails.not_viable limit hviable.of_append
  cases hstops with
  | atEnd h hopen herror hstarts =>
    rw [List.nil_append] at h
    subst herror
    exact ⟨by simp, .inl (h.unfinished hopen hstarts), hexclusive⟩
  | @atToken read rest token _ _ h hrefuses herror =>
    rw [List.nil_append] at h
    obtain ⟨hmissing, hfails⟩ := h.failsAt hrefuses herror
    exact ⟨hmissing, .inr ⟨read, token, rest, rfl, hfails⟩, hexclusive⟩

/-- A list whose last item is a list that is not closed either, behind one that is: both
    have to be closed. -/
theorem nested_lists_left_open :
    let tokens : List Token :=
      [⟨.openParen, "("⟩, ⟨.openParen, "("⟩, ⟨.closeParen, ")"⟩, ⟨.space, " "⟩,
        ⟨.openParen, "("⟩, ⟨.number, "7"⟩, ⟨.space, " "⟩]
    let innermost : List Token := [⟨.openParen, "("⟩, ⟨.number, "7"⟩, ⟨.space, " "⟩]
    (Expr.readAll 2 tokens).1 = .error (.unclosed innermost) ∧
      unclosedLists tokens = [innermost, tokens] ∧
      Unfinished 2 tokens (.unclosed innermost) := by
  intro tokens innermost
  have hread : (Expr.readAll 2 tokens).1 = .error (.unclosed innermost) := by rfl
  refine ⟨hread, rfl, ?_⟩
  obtain ⟨-, hunfinished | ⟨before, token, rest, hsplit, hfails⟩, -⟩ :=
    read_errors_earliest hread nofun
  · exact hunfinished
  · -- Two closing parentheses make the tokens read, so none of them is at fault.
    have hviable : Viable 2 tokens :=
      ⟨[⟨.closeParen, ")"⟩, ⟨.closeParen, ")"⟩], [.list [.nil, .list [.int 7]]], by rfl⟩
    rw [hsplit, List.append_cons] at hviable
    exact absurd hviable.of_append (hfails.not_viable 2)

end LineLisp
