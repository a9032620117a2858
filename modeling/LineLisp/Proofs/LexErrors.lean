/-
  LineLisp.Proofs.LexErrors

  Where lexing stops. The lexer goes through a text from token to token, and every
  token leaves less of it. So it comes to an end: nothing is left, or no token begins
  where it stands. In that case the way that it has gone is the longest beginning of
  the text that can be cut into tokens. No other way of cutting leads further, since
  a piece that is cut off too early is followed by text that goes on it.
-/
import LineLisp.Proofs.Tokenization

namespace LineLisp

-- ============================================================================
-- Where a token begins
-- ============================================================================

theorem takeRun?_ne_none {p : Char → Bool} {c : Char} {cs : List Char} (h : p c = true) :
    takeRun? p (c :: cs) ≠ none := by
  simp [takeRun?, h]

namespace TokenKind

/-- A kind has a token wherever a piece of its language stands, if not just this piece. -/
theorem Language.take?_ne_none {kind : TokenKind} {piece : List Char} (h : kind.Language piece)
    (rest : List Char) : kind.take? (piece ++ rest) ≠ none := by
  cases kind with
  | space =>
    obtain ⟨hne, hblank⟩ := h
    obtain ⟨c, cs, rfl⟩ := List.exists_cons_of_ne_nil hne
    exact takeRun?_ne_none (hblank c List.mem_cons_self)
  | openParen =>
    obtain rfl : piece = ['('] := h
    exact Option.some_ne_none _
  | closeParen =>
    obtain rfl : piece = [')'] := h
    exact Option.some_ne_none _
  | number =>
    obtain ⟨digits, hne, hdigits, hpiece⟩ := h
    obtain ⟨c, cs, rfl⟩ := List.exists_cons_of_ne_nil hne
    have hdigit : c.isDigit = true := hdigits c List.mem_cons_self
    have hrun : takeRun? Char.isDigit (c :: cs ++ rest) ≠ none := takeRun?_ne_none hdigit
    rcases hpiece with rfl | rfl
    · have hminus : c ≠ '-' := by
        rintro rfl
        exact absurd hdigit (by decide)
      show takeNumber? (c :: (cs ++ rest)) ≠ none
      rwa [takeNumber?_of_ne hminus]
    · show (takeRun? Char.isDigit (c :: cs ++ rest)).map _ ≠ none
      rwa [Ne, Option.map_eq_none_iff]
  | symbol =>
    obtain ⟨c, others, hstart, -, rfl⟩ := h
    show takeSymbol? (c :: (others ++ rest)) ≠ none
    rw [takeSymbol?, if_pos hstart]
    exact Option.some_ne_none _
  | string =>
    obtain ⟨body, hbody, rfl⟩ := h
    show takeString? ('"' :: body ++ ['"'] ++ rest) ≠ none
    rw [takeString?_append hbody]
    exact Option.some_ne_none _

theorem takeFirst?_eq_none_iff {cs : List Char} :
    takeFirst? inOrder cs = none ↔ ∀ kind : TokenKind, kind.take? cs = none := by
  rw [takeFirst?, List.findSome?_eq_none_iff]
  constructor
  · intro h kind
    have hmem : kind ∈ inOrder := by cases kind <;> decide
    exact Option.map_eq_none_iff.1 (h kind hmem)
  · intro h kind _
    rw [h kind]
    rfl

/-- A text that can be cut into tokens and is not empty begins with one. -/
theorem exists_takeFirst? {cs : List Char} {tokens : List Token} (hne : cs ≠ [])
    (h : lexWith inOrder cs = .ok tokens) :
    ∃ kind piece left others, takeFirst? inOrder cs = some (kind, piece, left) ∧
      lexWith inOrder left = .ok others := by
  cases hfirst : takeFirst? inOrder cs with
  | none =>
    rw [lexWith_eq_error hne hfirst] at h
    cases h
  | some first =>
    obtain ⟨kind, piece, left⟩ := first
    rw [lexWith_eq_map hfirst] at h
    cases hleft : lexWith inOrder left with
    | error fault =>
      rw [hleft] at h
      cases h
    | ok others => exact ⟨kind, piece, left, others, rfl, hleft⟩

end TokenKind

-- ============================================================================
-- Strings
-- ============================================================================

/-- Behind an opening quotation mark a closing one can be reached, through characters that
    may stand in a string and through escaped quotation marks and backslashes. -/
def ClosesString (after : List Char) : Prop :=
  ∃ body others, StringBody body ∧ after = body ++ '"' :: others

theorem takeString?_eq_none_iff {after : List Char} :
    takeString? ('"' :: after) = none ↔ ¬ ClosesString after := by
  constructor
  · rintro hnone ⟨body, others, hbody, rfl⟩
    have hsome : takeString? ('"' :: body ++ ['"'] ++ others) =
        some ('"' :: body ++ ['"'], others) := takeString?_append hbody
    rw [List.append_assoc, List.singleton_append, List.cons_append, hnone] at hsome
    cases hsome
  · intro hopen
    cases htake : takeStringRest? after with
    | none =>
      rw [takeString?, htake]
      rfl
    | some cut =>
      obtain ⟨piece, rest⟩ := cut
      obtain ⟨body, hbody, rfl⟩ := takeStringRest?_sound htake
      refine absurd ⟨body, rest, hbody, ?_⟩ hopen
      rw [(takeStringRest?_cut htake).2, List.append_assoc, List.singleton_append]

/-- At a quotation mark no token begins unless a string does. -/
theorem takeFirst?_quote_eq_none_iff {after : List Char} :
    TokenKind.takeFirst? TokenKind.inOrder ('"' :: after) = none ↔ ¬ ClosesString after := by
  rw [TokenKind.takeFirst?_eq_none_iff, ← takeString?_eq_none_iff]
  constructor
  · exact fun h => h .string
  · intro h kind
    by_cases hkind : kind = .string
    · subst hkind
      exact h
    · have hquote : TokenKind.string.starts '"' = true := rfl
      refine TokenKind.take?_eq_none (Bool.eq_false_iff.2 fun hstart => hkind ?_)
      exact TokenKind.starts_unique hstart hquote

-- ============================================================================
-- The way of the lexer
-- ============================================================================

/-- From a text the lexer comes to what is left of it over some tokens, which it recognises
    one after the other. -/
inductive Recognizes : List Char → List Token → List Char → Prop where
  | start (text : List Char) : Recognizes text [] text
  | token {text piece left rest : List Char} {kind : TokenKind} {tokens : List Token}
    (h : TokenKind.takeFirst? TokenKind.inOrder text = some (kind, piece, left))
    (hleft : Recognizes left tokens rest) :
    Recognizes text (⟨kind, String.ofList piece⟩ :: tokens) rest

namespace Recognizes

variable {text rest : List Char} {tokens : List Token}

/-- No character is lost on the way. -/
theorem source_append (h : Recognizes text tokens rest) : text = Token.source tokens ++ rest := by
  induction h with
  | start text => rfl
  | @token text piece left rest kind tokens htake _ ih =>
    have hcut := (TokenKind.take?_cut (TokenKind.take?_of_takeFirst? htake).2).2
    rw [Token.source_cons, String.toList_ofList, List.append_assoc, ← ih]
    exact hcut

/-- Every token leaves less of the text. -/
theorem length_add_le (h : Recognizes text tokens rest) :
    tokens.length + rest.length ≤ text.length := by
  induction h with
  | start text => simp
  | token htake _ ih =>
    have hlt := TokenKind.length_lt_of_takeFirst? htake
    rw [List.length_cons]
    omega

theorem lexWith_eq_map (h : Recognizes text tokens rest) :
    lexWith TokenKind.inOrder text = (lexWith TokenKind.inOrder rest).map (tokens ++ ·) := by
  induction h with
  | start text => cases lexWith TokenKind.inOrder text <;> rfl
  | @token text piece left rest kind tokens htake _ ih =>
    rw [LineLisp.lexWith_eq_map htake, ih]
    cases lexWith TokenKind.inOrder rest <;> rfl

theorem munched (h : Recognizes text tokens rest) : Munched tokens := by
  induction h with
  | start text => exact ⟨nofun, .nil⟩
  | @token text piece left rest kind tokens htake hleft ih =>
    obtain ⟨hlanguage, hstop⟩ := TokenKind.take?_sound (TokenKind.take?_of_takeFirst? htake).2
    refine ih.cons ?_ fun c hc => hstop c ?_
    · rwa [Token.WellFormed, String.toList_ofList]
    · rw [hleft.source_append, List.head?_append, Option.mem_def.1 hc]
      rfl

/-- Tokens that are apart are recognised one after the other, if what stands behind the
    last one does not go on it. -/
theorem of_munched (h : Munched tokens)
    (hrest : ∀ token ∈ tokens.getLast?, ∀ c ∈ rest.head?, token.kind.continues c = false) :
    Recognizes (Token.source tokens ++ rest) tokens rest := by
  induction tokens with
  | nil => exact .start rest
  | cons token tokens ih =>
    have hstop : ∀ c ∈ (Token.source tokens ++ rest).head?, token.kind.continues c = false := by
      intro c hc
      cases tokens with
      | nil => exact hrest token rfl c hc
      | cons next tokens =>
        have hnext := (h.tail.wellFormed next List.mem_cons_self).exists_cons
        obtain ⟨d, ds, htext, -⟩ := hnext
        refine h.continues_eq_false c ?_
        rw [Token.source_cons, htext] at hc ⊢
        exact hc
    have hlast : ∀ t ∈ tokens.getLast?, ∀ c ∈ rest.head?, t.kind.continues c = false := by
      intro t ht
      refine hrest t ?_
      rw [List.getLast?_cons, Option.mem_def.1 ht]
      rfl
    have hmem : token.kind ∈ TokenKind.inOrder := by cases token.kind <;> decide
    have htake := TokenKind.takeFirst?_append hmem (h.wellFormed token List.mem_cons_self) hstop
    have hway := Recognizes.token htake (ih h.tail hlast)
    rw [String.ofList_toList, ← List.append_assoc] at hway
    exact hway

/-- The lexer comes to an end, since what is left gets shorter. -/
theorem exists_end (text : List Char) :
    ∃ tokens rest, Recognizes text tokens rest ∧
      (rest = [] ∨ TokenKind.takeFirst? TokenKind.inOrder rest = none) := by
  induction hlen : text.length using Nat.strongRecOn generalizing text with
  | ind n ih =>
    cases hfirst : TokenKind.takeFirst? TokenKind.inOrder text with
    | none => exact ⟨[], text, .start text, .inr hfirst⟩
    | some first =>
      obtain ⟨kind, piece, left⟩ := first
      have hlt : left.length < n := hlen ▸ TokenKind.length_lt_of_takeFirst? hfirst
      obtain ⟨tokens, rest, hway, hend⟩ := ih left.length hlt left rfl
      exact ⟨_, rest, .token hfirst hway, hend⟩

/-- Where no token begins any more, no other way of cutting has led further. The induction
    is on the way of the lexer: at each of its tokens the other way has the same token, or
    ends within it. -/
theorem prefix_source (h : Recognizes text tokens rest)
    (hstop : TokenKind.takeFirst? TokenKind.inOrder rest = none) {other : List Char}
    {others : List Token} (hpre : other <+: text)
    (hother : lexWith TokenKind.inOrder other = .ok others) : other <+: Token.source tokens := by
  induction h generalizing other others with
  | start text =>
    by_cases hne : other = []
    · rw [hne]
      exact List.nil_prefix
    · obtain ⟨kind, piece, left, -, htake, -⟩ := TokenKind.exists_takeFirst? hne hother
      have hkind := (TokenKind.take?_of_takeFirst? htake).2
      have hlanguage := (TokenKind.take?_sound hkind).1
      obtain ⟨more, rfl⟩ := hpre
      rw [(TokenKind.take?_cut hkind).2, List.append_assoc] at hstop
      exact absurd (TokenKind.takeFirst?_eq_none_iff.1 hstop kind) (hlanguage.take?_ne_none _)
  | @token text piece left rest kind tokens htake hleft ih =>
    by_cases hne : other = []
    · rw [hne]
      exact List.nil_prefix
    obtain ⟨kind', piece', left', others', htake', hothers'⟩ :=
      TokenKind.exists_takeFirst? hne hother
    have hcut := (TokenKind.take?_of_takeFirst? htake).2
    have hcut' := (TokenKind.take?_of_takeFirst? htake').2
    obtain ⟨hlanguage, hends⟩ := TokenKind.take?_sound hcut
    obtain ⟨hlanguage', hends'⟩ := TokenKind.take?_sound hcut'
    have htext : text = piece ++ left := (TokenKind.take?_cut hcut).2
    have hothertext : other = piece' ++ left' := (TokenKind.take?_cut hcut').2
    subst htext hothertext
    have hpiece : piece' <+: piece ++ left := (List.prefix_append piece' left').trans hpre
    obtain ⟨rfl, more, rfl⟩ := hlanguage.longest hends hlanguage' hpiece
    rw [Token.source_cons, String.toList_ofList]
    rw [List.append_assoc, List.prefix_append_right_inj] at hpre
    rw [List.append_assoc, List.prefix_append_right_inj]
    cases more with
    | nil => exact ih hstop hpre hothers'
    | cons c more =>
      -- The other way stops within the token: whatever came next there would go on it.
      cases left' with
      | nil => exact List.nil_prefix
      | cons d left' =>
        obtain ⟨rfl, -⟩ := List.cons_prefix_cons.1 hpre
        have hgoes := hlanguage'.continues hlanguage
        rw [hends' d rfl] at hgoes
        cases hgoes

end Recognizes

-- ============================================================================
-- The theorem
-- ============================================================================

/-- Lexing of a text stops at a remainder behind some tokens: no kind has a token there, and
    the text of the tokens is cut into just them and is the longest beginning of the text
    that can be cut at all. -/
structure StopsBehind (source : String) (tokens : List Token) (rest : List Char) : Prop where
  error : tokenize source = .error ⟨String.ofList rest⟩
  nonempty : rest ≠ []
  split : source.toList = Token.source tokens ++ rest
  accepted : tokenize (String.ofList (Token.source tokens)) = .ok tokens
  longest : ∀ (start : String) (others : List Token), start.toList <+: source.toList →
    tokenize start = .ok others → start.toList <+: Token.source tokens
  noToken : ∀ kind : TokenKind, kind.take? rest = none

theorem Recognizes.tokenize_eq_ok {source : String} {tokens : List Token}
    (h : Recognizes source.toList tokens []) : tokenize source = .ok tokens := by
  rw [tokenize, h.lexWith_eq_map, lexWith_nil]
  exact congrArg Except.ok (List.append_nil tokens)

theorem Recognizes.stopsBehind {source : String} {tokens : List Token} {rest : List Char}
    (h : Recognizes source.toList tokens rest) (hne : rest ≠ [])
    (hstop : TokenKind.takeFirst? TokenKind.inOrder rest = none) :
    StopsBehind source tokens rest where
  error := by
    rw [tokenize, h.lexWith_eq_map, lexWith_eq_error hne hstop]
    rfl
  nonempty := hne
  split := h.source_append
  accepted := h.munched.tokenize String.toList_ofList
  longest _ _ hpre hother := h.prefix_source hstop hpre hother
  noToken := TokenKind.takeFirst?_eq_none_iff.1 hstop

/-- The lexer stops at a quotation mark behind tokens if and only if no closing one can be
    reached from there. -/
theorem tokenize_quote_iff {source : String} {before : List Token} {after : List Char}
    (h : Recognizes source.toList before ('"' :: after)) :
    tokenize source = .error ⟨String.ofList ('"' :: after)⟩ ↔ ¬ ClosesString after := by
  constructor
  · rintro herror hclosed
    obtain ⟨⟨kind, piece, left⟩, htake⟩ := Option.ne_none_iff_exists'.1
      (mt takeFirst?_quote_eq_none_iff.1 (not_not_intro hclosed))
    -- What the lexer stops at would stand behind the string and so be shorter.
    have hlt := TokenKind.length_lt_of_takeFirst? htake
    obtain ⟨tokens, rest, hway, hend⟩ := Recognizes.exists_end left
    have hlen := hway.length_add_le
    rw [tokenize, h.lexWith_eq_map, LineLisp.lexWith_eq_map htake, hway.lexWith_eq_map] at herror
    by_cases hne : rest = []
    · subst hne
      rw [lexWith_nil] at herror
      cases herror
    · rw [lexWith_eq_error hne (hend.resolve_left hne)] at herror
      have hrest : String.ofList rest = String.ofList ('"' :: after) :=
        congrArg LexError.remainder (Except.error.inj herror)
      rw [String.ofList_inj.1 hrest] at hlen
      omega
  · intro hopen
    exact (h.stopsBehind (List.cons_ne_nil _ _) (takeFirst?_quote_eq_none_iff.2 hopen)).error

/-- Lex errors point at the longest good beginning. On every text the lexer comes to an end:
    it has all of the text as tokens, or it stops behind the longest beginning that can be
    cut, at a remainder where no token begins. On its way it takes at least one character
    for each token. A string is refused from its opening quotation mark on if and only if
    no closing one can be reached. -/
theorem lex_errors_follow_longest_prefix (source : String) :
    (∃ tokens rest, Recognizes source.toList tokens rest ∧
      (rest = [] ∧ tokenize source = .ok tokens ∨ StopsBehind source tokens rest)) ∧
    (∀ tokens rest, Recognizes source.toList tokens rest →
      tokens.length + rest.length ≤ source.length ∧
        ∀ (kind : TokenKind) (piece left : List Char),
          kind.take? rest = some (piece, left) → piece ≠ []) ∧
    ∀ (before : String) (tokens : List Token) (after : List Char),
      tokenize before = .ok tokens → source.toList = before.toList ++ '"' :: after →
        (tokenize source = .error ⟨String.ofList ('"' :: after)⟩ ↔ ¬ ClosesString after) := by
  refine ⟨?_, fun tokens rest hway => ⟨?_, ?_⟩, fun before tokens after hbefore hsource => ?_⟩
  · obtain ⟨tokens, rest, hway, hend⟩ := Recognizes.exists_end source.toList
    refine ⟨tokens, rest, hway, ?_⟩
    by_cases hne : rest = []
    · subst hne
      exact .inl ⟨rfl, hway.tokenize_eq_ok⟩
    · exact .inr (hway.stopsBehind hne (hend.resolve_left hne))
  · rw [← String.length_toList]
    exact hway.length_add_le
  · exact fun kind piece left htake => (TokenKind.take?_cut htake).1
  · obtain ⟨hbeforeText, hmunched⟩ := Munched.of_lexWith hbefore
    have hway : Recognizes source.toList tokens ('"' :: after) := by
      rw [hsource, ← hbeforeText]
      refine .of_munched hmunched fun token _ c hc => ?_
      obtain rfl : '"' = c := Option.some.inj hc
      cases token.kind <;> decide
    exact tokenize_quote_iff hway

/-- Behind a string with an escaped quotation mark, one with a backslash before a letter: the
    second is refused from its opening quotation mark on, and the five tokens before it stay. -/
theorem open_string_refused_from_its_quotation_mark :
    let source : String := "(x-1 \"\\\"\" \"b\\c\""
    let before : String := "(x-1 \"\\\"\" "
    let tokens : List Token :=
      [⟨.openParen, "("⟩, ⟨.symbol, "x-1"⟩, ⟨.space, " "⟩, ⟨.string, "\"\\\"\""⟩, ⟨.space, " "⟩]
    tokenize before = .ok tokens ∧ Recognizes source.toList tokens "\"b\\c\"".toList ∧
      StopsBehind source tokens "\"b\\c\"".toList ∧ ¬ ClosesString "b\\c\"".toList := by
  intro source before tokens
  have hbefore : tokenize before = .ok tokens := by decide +kernel
  have herror : tokenize source = .error ⟨"\"b\\c\""⟩ := by decide +kernel
  have hsource : source.toList = before.toList ++ '"' :: "b\\c\"".toList := by decide +kernel
  obtain ⟨⟨others, rest, hway, hend⟩, -, hquote⟩ := lex_errors_follow_longest_prefix source
  rcases hend with ⟨-, hok⟩ | hstops
  · rw [herror] at hok
    cases hok
  · have hrest : rest = "\"b\\c\"".toList := by
      have heq : String.ofList rest = "\"b\\c\"" :=
        congrArg LexError.remainder (Except.error.inj (hstops.error.symm.trans herror))
      rw [← heq, String.toList_ofList]
    subst hrest
    have htext : Token.source others = before.toList :=
      List.append_cancel_right (hstops.split.symm.trans hsource)
    have hothers : tokenize before = .ok others := by
      have haccepted := hstops.accepted
      rwa [htext, String.ofList_toList] at haccepted
    obtain rfl : others = tokens := Except.ok.inj (hothers.symm.trans hbefore)
    exact ⟨hbefore, hway, hstops, (hquote before tokens _ hbefore hsource).1 herror⟩

end LineLisp
