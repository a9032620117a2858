/-
  LineLisp.Proofs.Tokenization

  The tokens that a text is cut into. What is taken at the start of a text is in
  the language of its kind and ends where the text behind it does not go on the
  token. So cutting a text yields the one list of tokens in which each is in its
  language and no two neighbours fuse, and each token is the longest piece, of any
  kind, that the text goes on with at its place.
-/
import LineLisp.Proofs.Munch
import Mathlib.Data.List.TakeWhile

namespace LineLisp

-- ============================================================================
-- What is taken is in its language
-- ============================================================================

section

variable {p : Char → Bool} {cs piece rest : List Char}

theorem takeRun?_sound (h : takeRun? p cs = some (piece, rest)) :
    piece ≠ [] ∧ (∀ c ∈ piece, p c = true) ∧ ∀ c ∈ rest.head?, p c = false := by
  have hne : piece ≠ [] := (takeRun?_cut h).1
  unfold takeRun? at h
  split at h
  · cases h
  · obtain ⟨rfl, rfl⟩ := Prod.mk.inj (Option.some.inj h)
    refine ⟨hne, fun c hc => List.mem_takeWhile_imp hc, fun c hc => ?_⟩
    have hhead := List.head?_dropWhile_not p cs
    rw [Option.mem_def.1 hc] at hhead
    exact hhead

theorem takeNumber?_sound (h : takeNumber? cs = some (piece, rest)) :
    TokenKind.number.Language piece ∧ ∀ c ∈ rest.head?, c.isDigit = false := by
  unfold takeNumber? at h
  split at h
  · obtain ⟨⟨digits, others⟩, hrun, heq⟩ := Option.map_eq_some_iff.1 h
    obtain ⟨rfl, rfl⟩ := Prod.mk.inj heq
    obtain ⟨hne, hdigits, hrest⟩ := takeRun?_sound hrun
    exact ⟨⟨digits, hne, hdigits, .inr rfl⟩, hrest⟩
  · obtain ⟨hne, hdigits, hrest⟩ := takeRun?_sound h
    exact ⟨⟨piece, hne, hdigits, .inl rfl⟩, hrest⟩

theorem takeSymbol?_sound (h : takeSymbol? cs = some (piece, rest)) :
    TokenKind.symbol.Language piece ∧ ∀ c ∈ rest.head?, isSymbolPart c = false := by
  unfold takeSymbol? at h
  split at h
  · cases h
  · next c cs =>
    split at h
    · next hstart =>
      obtain ⟨rfl, rfl⟩ := Prod.mk.inj (Option.some.inj h)
      refine ⟨⟨c, _, hstart, fun d hd => List.mem_takeWhile_imp hd, rfl⟩, fun d hd => ?_⟩
      have hhead := List.head?_dropWhile_not isSymbolPart cs
      rw [Option.mem_def.1 hd] at hhead
      exact hhead
    · cases h

/-- The rest of a string is a body with its closing quotation mark. -/
theorem takeStringRest?_sound (h : takeStringRest? cs = some (piece, rest)) :
    ∃ body, StringBody body ∧ piece = body ++ ['"'] := by
  fun_induction takeStringRest? cs generalizing piece rest with
  | case1 => cases h
  | case2 cs =>
    obtain ⟨rfl, rfl⟩ := Prod.mk.inj (Option.some.inj h)
    exact ⟨[], .nil, rfl⟩
  | case3 c cs hc ih =>
    obtain ⟨⟨tail, others⟩, hcut, heq⟩ := Option.map_eq_some_iff.1 h
    obtain ⟨rfl, rfl⟩ := Prod.mk.inj heq
    obtain ⟨body, hbody, rfl⟩ := ih hcut
    rcases hc with rfl | rfl
    · exact ⟨'\\' :: '"' :: body, .quote hbody, rfl⟩
    · exact ⟨'\\' :: '\\' :: body, .backslash hbody, rfl⟩
  | case4 => cases h
  | case5 => cases h
  | case6 c cs hquote _ hbackslash ih =>
    obtain ⟨⟨tail, others⟩, hcut, heq⟩ := Option.map_eq_some_iff.1 h
    obtain ⟨rfl, rfl⟩ := Prod.mk.inj heq
    obtain ⟨body, hbody, rfl⟩ := ih hcut
    exact ⟨c :: body, .char hquote hbackslash hbody, rfl⟩

theorem takeString?_sound (h : takeString? cs = some (piece, rest)) :
    TokenKind.string.Language piece := by
  unfold takeString? at h
  split at h
  · obtain ⟨⟨tail, others⟩, hcut, heq⟩ := Option.map_eq_some_iff.1 h
    obtain ⟨rfl, rfl⟩ := Prod.mk.inj heq
    obtain ⟨body, hbody, rfl⟩ := takeStringRest?_sound hcut
    exact ⟨body, hbody, rfl⟩
  · cases h

theorem takeChar?_sound {c : Char} (h : takeChar? c cs = some (piece, rest)) : piece = [c] := by
  unfold takeChar? at h
  split at h
  · cases h
  · split at h
    · next heq =>
      obtain ⟨rfl, rfl⟩ := Prod.mk.inj (Option.some.inj h)
      rw [heq]
    · cases h

/-- What is taken is in the language of its kind, and the text behind it does not
    go on it. -/
theorem TokenKind.take?_sound {kind : TokenKind} (h : kind.take? cs = some (piece, rest)) :
    kind.Language piece ∧ ∀ c ∈ rest.head?, kind.continues c = false := by
  cases kind with
  | space =>
    obtain ⟨hne, hblank, hrest⟩ := takeRun?_sound h
    exact ⟨⟨hne, hblank⟩, hrest⟩
  | openParen => exact ⟨takeChar?_sound h, fun _ _ => rfl⟩
  | closeParen => exact ⟨takeChar?_sound h, fun _ _ => rfl⟩
  | number => exact takeNumber?_sound h
  | symbol => exact takeSymbol?_sound h
  | string => exact ⟨takeString?_sound h, fun _ _ => rfl⟩

end

-- ============================================================================
-- The longest piece
-- ============================================================================

namespace TokenKind

/-- Where a piece of a language goes on to a longer one, the character in between
    goes on a token of this kind. -/
theorem Language.continues {kind : TokenKind} {piece more : List Char} {c : Char}
    (h : kind.Language piece) (hlong : kind.Language (piece ++ c :: more)) :
    kind.continues c = true := by
  obtain ⟨d, ds, rfl, -⟩ := h.exists_cons
  -- Of kinds that nothing goes on, the shorter piece would be taken, and the longer one too.
  have hexact (hnone : ∀ c, kind.continues c = false) : kind.continues c = true := by
    have hends (rest : List Char) : ∀ e ∈ rest.head?, kind.continues e = false :=
      fun e _ => hnone e
    have hshort := take?_append h (hends (c :: more))
    have hwhole := take?_append hlong (hends [])
    rw [List.append_nil, hshort] at hwhole
    cases (Prod.mk.inj (Option.some.inj hwhole)).2
  cases kind with
  | space => exact hlong.2 c (by simp)
  | openParen => exact hexact fun _ => rfl
  | closeParen => exact hexact fun _ => rfl
  | string => exact hexact fun _ => rfl
  | number =>
    obtain ⟨digits, -, hdigits, heq | heq⟩ := hlong
    · exact hdigits c (by simp [← heq])
    · obtain ⟨-, htail⟩ := List.cons.inj heq
      exact hdigits c (by simp [← htail])
  | symbol =>
    obtain ⟨e, others, -, hothers, heq⟩ := hlong
    obtain ⟨-, htail⟩ := List.cons.inj heq
    exact hothers c (by simp [← htail])

/-- Of all pieces at the start of a text that are in the language of some kind, the
    longest is the one that the text behind it does not go on. -/
theorem Language.longest {kind kind' : TokenKind} {piece rest other : List Char}
    (h : kind.Language piece) (hrest : ∀ c ∈ rest.head?, kind.continues c = false)
    (hother : kind'.Language other) (hpre : other <+: piece ++ rest) :
    kind' = kind ∧ other <+: piece := by
  have hkind : kind' = kind := by
    obtain ⟨c, cs, rfl, hstart⟩ := h.exists_cons
    obtain ⟨d, ds, rfl, hstart'⟩ := hother.exists_cons
    obtain ⟨rfl, -⟩ := List.cons_prefix_cons.1 hpre
    exact starts_unique hstart' hstart
  subst hkind
  refine ⟨rfl, ?_⟩
  rcases List.prefix_or_prefix_of_prefix hpre (List.prefix_append piece rest) with hle | hge
  · exact hle
  · obtain ⟨more, rfl⟩ := hge
    cases more with
    | nil => simp
    | cons c more =>
      obtain ⟨others, hothers⟩ := (List.prefix_append_right_inj piece).1 hpre
      have hhead : c ∈ rest.head? := by simp [← hothers]
      have hgoes := h.continues hother
      rw [hrest c hhead] at hgoes
      cases hgoes

end TokenKind

-- ============================================================================
-- Neighbours
-- ============================================================================

namespace Token

/-- Neighbours that would be read as one longer token: two spaces, a symbol and a
    symbol or number behind it, and a number with a number behind it that begins
    with a digit. -/
def Fuses (token next : Token) : Prop :=
  (token.kind = .space ∧ next.kind = .space) ∨
  (token.kind = .symbol ∧ (next.kind = .symbol ∨ next.kind = .number)) ∨
  (token.kind = .number ∧ next.kind = .number ∧ next.text.toList.head?.any Char.isDigit = true)

instance (token next : Token) : Decidable (token.Fuses next) :=
  inferInstanceAs (Decidable (_ ∨ _ ∨ _))

example : ¬ Fuses ⟨.number, "1"⟩ ⟨.number, "-2"⟩ ∧ Fuses ⟨.symbol, "a"⟩ ⟨.number, "-2"⟩ := by
  decide

/-- A token is apart from one behind it unless they fuse. -/
theorem apart_iff {token next : Token} (h : next.WellFormed) :
    token.Apart next ↔ ¬ token.Fuses next := by
  obtain ⟨c, cs, htext, hstart⟩ := h.exists_cons
  have hapart : token.Apart next ↔ token.kind.continues c = false := by
    simp [Apart, htext]
  -- The character tells the kind of the second token.
  have hkind {kind : TokenKind} (hk : kind.starts c = true) : next.kind = kind :=
    TokenKind.starts_unique hstart hk
  rw [hapart, ← Bool.not_eq_true, not_iff_not]
  cases htoken : token.kind with
  | openParen => simp [TokenKind.continues, Fuses, htoken]
  | closeParen => simp [TokenKind.continues, Fuses, htoken]
  | string => simp [TokenKind.continues, Fuses, htoken]
  | space =>
    have hiff : TokenKind.space.continues c = true ↔ next.kind = .space :=
      ⟨fun hblank => hkind hblank, fun hnext => by rwa [hnext] at hstart⟩
    simp [hiff, Fuses, htoken]
  | number =>
    have hiff : TokenKind.number.continues c = true ↔
        next.kind = .number ∧ c.isDigit = true := by
      refine ⟨fun hdigit => ⟨hkind ?_, hdigit⟩, fun hnext => hnext.2⟩
      exact Bool.or_eq_true_iff.2 (.inl hdigit)
    simp [hiff, Fuses, htoken, htext]
  | symbol =>
    have hiff : TokenKind.symbol.continues c = true ↔
        next.kind = .symbol ∨ next.kind = .number := by
      constructor
      · intro hgoes
        rcases TokenKind.starts_of_continues hgoes with hsymbol | ⟨-, hnumber⟩
        · exact .inl (hkind hsymbol)
        · exact .inr (hkind hnumber)
      · intro hnext
        have hpart : isSymbolStart c = true ∨ (c.isDigit = true ∨ c = '-') := by
          rcases hnext with hnext | hnext
          · rw [hnext] at hstart
            exact .inl hstart
          · rw [hnext] at hstart
            exact .inr (by simpa [TokenKind.starts] using hstart)
        simp only [isSymbolStart, Bool.or_eq_true, beq_iff_eq] at hpart
        simp only [TokenKind.continues, isSymbolPart, Char.isAlphanum, Bool.or_eq_true, beq_iff_eq]
        tauto
    simp [hiff, Fuses, htoken]

end Token

-- ============================================================================
-- Tokenizations
-- ============================================================================

/-- A text as a row of tokens: their texts make it up, each is in the language of
    its kind, and no two neighbours fuse. -/
structure Tokenization (text : List Char) (tokens : List Token) : Prop where
  source : Token.source tokens = text
  wellFormed : ∀ token ∈ tokens, token.WellFormed
  unfused : tokens.IsChain fun token next => ¬ token.Fuses next

theorem munched_iff {tokens : List Token} :
    Munched tokens ↔ (∀ token ∈ tokens, token.WellFormed) ∧
      tokens.IsChain fun token next => ¬ token.Fuses next := by
  constructor
  · rintro ⟨hwf, hapart⟩
    exact ⟨hwf, hapart.imp_of_mem_imp fun _ _ _ hnext h => (Token.apart_iff (hwf _ hnext)).1 h⟩
  · rintro ⟨hwf, hunfused⟩
    exact ⟨hwf, hunfused.imp_of_mem_imp fun _ _ _ hnext h => (Token.apart_iff (hwf _ hnext)).2 h⟩

/-- One more token in front, which the text behind it does not go on. -/
theorem Munched.cons {token : Token} {tokens : List Token} (h : Munched tokens)
    (htoken : token.WellFormed)
    (hrest : ∀ c ∈ (Token.source tokens).head?, token.kind.continues c = false) :
    Munched (token :: tokens) where
  wellFormed := List.forall_mem_cons.2 ⟨htoken, h.wellFormed⟩
  apart := by
    refine List.isChain_cons.2 ⟨fun next hnext c hc => hrest c ?_, h.apart⟩
    obtain ⟨others, rfl⟩ := List.head?_eq_some_iff.1 (Option.mem_def.1 hnext)
    rw [Token.source_cons, List.head?_append, Option.mem_def.1 hc]
    rfl

/-- Whatever the order of the kinds, a text that can be cut is cut into tokens with
    its text, each in its language and apart from the one behind it. -/
theorem Munched.of_lexWith {order : List TokenKind} {cs : List Char} {tokens : List Token}
    (h : LineLisp.lexWith order cs = .ok tokens) : Token.source tokens = cs ∧ Munched tokens := by
  induction hlen : cs.length using Nat.strongRecOn generalizing cs tokens with
  | ind n ih =>
    by_cases hne : cs = []
    · subst hne
      rw [lexWith_nil] at h
      obtain rfl : [] = tokens := Except.ok.inj h
      exact ⟨rfl, nofun, .nil⟩
    · cases hfirst : TokenKind.takeFirst? order cs with
      | none =>
        rw [lexWith_eq_error hne hfirst] at h
        cases h
      | some first =>
        obtain ⟨kind, piece, rest⟩ := first
        have hlt : rest.length < n := hlen ▸ TokenKind.length_lt_of_takeFirst? hfirst
        have htake : kind.take? cs = some (piece, rest) := (TokenKind.take?_of_takeFirst? hfirst).2
        obtain ⟨hlanguage, hstop⟩ := TokenKind.take?_sound htake
        rw [lexWith_eq_map hfirst] at h
        cases hrest : LineLisp.lexWith order rest with
        | error fault =>
          rw [hrest] at h
          cases h
        | ok others =>
          rw [hrest] at h
          obtain rfl : ⟨kind, String.ofList piece⟩ :: others = tokens := Except.ok.inj h
          obtain ⟨hsource, hmunched⟩ := ih rest.length hlt hrest rfl
          have htext : (String.ofList piece).toList = piece := String.toList_ofList
          refine ⟨?_, hmunched.cons ?_ ?_⟩
          · rw [Token.source_cons, htext, hsource, (TokenKind.take?_cut htake).2]
          · rw [Token.WellFormed, htext]
            exact hlanguage
          · rw [hsource]
            exact hstop

theorem tokenize_eq_ok_iff {source : String} {tokens : List Token} :
    tokenize source = .ok tokens ↔ Tokenization source.toList tokens := by
  constructor
  · intro h
    obtain ⟨hsource, hmunched⟩ := Munched.of_lexWith h
    obtain ⟨hwf, hunfused⟩ := munched_iff.1 hmunched
    exact ⟨hsource, hwf, hunfused⟩
  · rintro ⟨hsource, hwf, hunfused⟩
    exact (munched_iff.2 ⟨hwf, hunfused⟩).tokenize hsource.symm

/-- In a row of tokens that are apart, each is the longest piece of any language that
    the text goes on with at its place. -/
theorem Munched.longest {before after : List Token} {token : Token}
    (h : Munched (before ++ token :: after)) {kind : TokenKind} {piece : List Char}
    (hpiece : kind.Language piece) (hpre : piece <+: Token.source (token :: after)) :
    kind = token.kind ∧ piece <+: token.text.toList := by
  have htail : Munched (token :: after) :=
    ⟨fun t ht => h.wellFormed t (List.mem_append_right before ht), h.apart.right_of_append⟩
  have htoken : token.kind.Language token.text.toList :=
    htail.wellFormed token List.mem_cons_self
  exact htoken.longest htail.continues_eq_false hpiece hpre

-- ============================================================================
-- The theorem
-- ============================================================================

/-- Lexing is cutting by the longest piece. A text is cut into some tokens if and only
    if they are a tokenization of it; there is no other tokenization; and at the place
    of each token no longer piece, and no piece of another kind, can be cut off. -/
theorem lexing_cuts_longest_pieces (source : String) :
    (∀ tokens : List Token,
      tokenize source = .ok tokens ↔ Tokenization source.toList tokens) ∧
    (∀ tokens tokens' : List Token, Tokenization source.toList tokens →
      Tokenization source.toList tokens' → tokens = tokens') ∧
    (∀ (before after : List Token) (token : Token),
      tokenize source = .ok (before ++ token :: after) →
        ∀ (kind : TokenKind) (piece : List Char), kind.Language piece →
          piece <+: Token.source (token :: after) →
            kind = token.kind ∧ piece <+: token.text.toList) := by
  refine ⟨fun tokens => tokenize_eq_ok_iff, fun tokens tokens' h h' => ?_, ?_⟩
  · have heq : Except.ok tokens = Except.ok tokens' :=
      (tokenize_eq_ok_iff.2 h).symm.trans (tokenize_eq_ok_iff.2 h')
    exact Except.ok.inj heq
  · intro before after token h kind piece hpiece hpre
    exact (Munched.of_lexWith h).2.longest hpiece hpre

/-- Two numbers without a space, a number before a symbol that goes on with a hyphen,
    and a string with an escaped quotation mark: the one way to cut them. -/
theorem joined_numbers_cut_apart :
    let source : String := "1-2ab-3\"\\\"\"4"
    let tokens : List Token :=
      [⟨.number, "1"⟩, ⟨.number, "-2"⟩, ⟨.symbol, "ab-3"⟩, ⟨.string, "\"\\\"\""⟩, ⟨.number, "4"⟩]
    (tokenize source).toOption = some tokens ∧ Tokenization source.toList tokens ∧
      ∀ tokens', Tokenization source.toList tokens' → tokens' = tokens := by
  intro source tokens
  have hlex : tokenize source = .ok tokens := by decide +kernel
  have htokens := ((lexing_cuts_longest_pieces source).1 tokens).1 hlex
  refine ⟨by rw [hlex]; rfl, htokens, fun tokens' h => ?_⟩
  exact (lexing_cuts_longest_pieces source).2.1 tokens' tokens h htokens

end LineLisp
