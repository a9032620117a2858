/-
  LineLisp.Proofs.Munch

  Tokens as pieces of text. Every kind of token has a language, and the first
  character of a piece already tells its kind. A token that is begun goes on as
  long as the characters that come next allow, so a list of tokens is what its
  text is cut into if each token is in its language and none would go on into the
  next one.
-/
import LineLisp.Token.Lexer
import Mathlib.Data.List.Chain

namespace LineLisp

-- ============================================================================
-- The languages of tokens
-- ============================================================================

/-- What may stand between the quotation marks of a string. -/
inductive StringBody : List Char → Prop where
  | nil : StringBody []
  | char {c : Char} {cs : List Char} (hquote : c ≠ '"') (hbackslash : c ≠ '\\')
    (h : StringBody cs) : StringBody (c :: cs)
  | quote {cs : List Char} (h : StringBody cs) : StringBody ('\\' :: '"' :: cs)
  | backslash {cs : List Char} (h : StringBody cs) : StringBody ('\\' :: '\\' :: cs)

namespace TokenKind

/-- The texts that tokens of a kind may have. -/
def Language : TokenKind → List Char → Prop
  | space, cs => cs ≠ [] ∧ ∀ c ∈ cs, Text.isBlank c = true
  | openParen, cs => cs = ['(']
  | closeParen, cs => cs = [')']
  | number, cs =>
    ∃ digits : List Char, digits ≠ [] ∧ (∀ c ∈ digits, c.isDigit = true) ∧
      (cs = digits ∨ cs = '-' :: digits)
  | symbol, cs =>
    ∃ (c : Char) (others : List Char), isSymbolStart c = true ∧
      (∀ d ∈ others, isSymbolPart d = true) ∧ cs = c :: others
  | string, cs => ∃ body : List Char, StringBody body ∧ cs = '"' :: body ++ ['"']

/-- The characters that a token of a kind begins with. -/
def starts : TokenKind → Char → Bool
  | space, c => Text.isBlank c
  | openParen, c => c == '('
  | closeParen, c => c == ')'
  | number, c => c.isDigit || c == '-'
  | symbol, c => isSymbolStart c
  | string, c => c == '"'

/-- The characters that a token of a kind takes if they come next behind it. -/
def continues : TokenKind → Char → Bool
  | space, c => Text.isBlank c
  | number, c => c.isDigit
  | symbol, c => isSymbolPart c
  | openParen, _ | closeParen, _ | string, _ => false

end TokenKind

-- ============================================================================
-- First characters
-- ============================================================================

theorem toNat_of_isDigit {c : Char} (h : c.isDigit = true) : 48 ≤ c.toNat ∧ c.toNat ≤ 57 :=
  Char.isDigit_iff_toNat.1 h

theorem toNat_of_isAlpha {c : Char} (h : c.isAlpha = true) :
    (65 ≤ c.toNat ∧ c.toNat ≤ 90) ∨ (97 ≤ c.toNat ∧ c.toNat ≤ 122) := by
  have hcase : c.isUpper = true ∨ c.isLower = true := Bool.or_eq_true_iff.1 h
  rcases hcase with hupper | hlower
  · obtain ⟨hlow, hhigh⟩ : 'A'.val ≤ c.val ∧ c.val ≤ 'Z'.val := of_decide_eq_true hupper
    exact .inl ⟨UInt32.le_iff_toNat_le.1 hlow, UInt32.le_iff_toNat_le.1 hhigh⟩
  · obtain ⟨hlow, hhigh⟩ := Bool.and_eq_true_iff.1 hlower
    have hlow' : 'a'.val ≤ c.val := of_decide_eq_true hlow
    have hhigh' : c.val ≤ 'z'.val := of_decide_eq_true hhigh
    exact .inr ⟨UInt32.le_iff_toNat_le.1 hlow', UInt32.le_iff_toNat_le.1 hhigh'⟩

theorem toNat_of_isSymbolStart {c : Char} (h : isSymbolStart c = true) :
    (65 ≤ c.toNat ∧ c.toNat ≤ 90) ∨ c.toNat = 95 ∨ (97 ≤ c.toNat ∧ c.toNat ≤ 122) := by
  simp only [isSymbolStart, Bool.or_eq_true, beq_iff_eq] at h
  rcases h with halpha | rfl
  · have hcode := toNat_of_isAlpha halpha
    omega
  · exact .inr (.inl rfl)

namespace TokenKind

/-- Where in the character table the first characters of each kind stand. -/
theorem toNat_of_starts {kind : TokenKind} {c : Char} (h : kind.starts c = true) :
    match kind with
    | space => c.toNat ≤ 0x20 ∨ 0x85 ≤ c.toNat
    | openParen => c.toNat = 40
    | closeParen => c.toNat = 41
    | number => (48 ≤ c.toNat ∧ c.toNat ≤ 57) ∨ c.toNat = 45
    | symbol => (65 ≤ c.toNat ∧ c.toNat ≤ 90) ∨ c.toNat = 95 ∨ (97 ≤ c.toNat ∧ c.toNat ≤ 122)
    | string => c.toNat = 34 := by
  cases kind with
  | space => exact Text.toNat_of_isBlank h
  | openParen =>
    obtain rfl : c = '(' := by simpa [starts] using h
    rfl
  | closeParen =>
    obtain rfl : c = ')' := by simpa [starts] using h
    rfl
  | number =>
    simp only [starts, Bool.or_eq_true, beq_iff_eq] at h
    rcases h with hdigit | rfl
    · exact .inl (toNat_of_isDigit hdigit)
    · exact .inr rfl
  | symbol => exact toNat_of_isSymbolStart h
  | string =>
    obtain rfl : c = '"' := by simpa [starts] using h
    rfl

/-- The first character of a token tells its kind. -/
theorem starts_unique {kind kind' : TokenKind} {c : Char} (h : kind.starts c = true)
    (h' : kind'.starts c = true) : kind = kind' := by
  have hcode := toNat_of_starts h
  have hcode' := toNat_of_starts h'
  cases kind <;> cases kind' <;> first | rfl | (simp only at hcode hcode'; omega)

/-- What goes on a token begins a token of the same kind, or a number behind a
    symbol. -/
theorem starts_of_continues {kind : TokenKind} {c : Char} (h : kind.continues c = true) :
    kind.starts c = true ∨ (kind = symbol ∧ number.starts c = true) := by
  cases kind with
  | space => exact .inl h
  | number =>
    left
    simp only [starts, Bool.or_eq_true]
    exact .inl h
  | symbol =>
    simp only [continues, isSymbolPart, Char.isAlphanum, Bool.or_eq_true] at h
    simp only [starts, isSymbolStart, Bool.or_eq_true, true_and]
    rcases h with ((halpha | hdigit) | hunderscore) | hhyphen
    · exact .inl (.inl halpha)
    · exact .inr (.inl hdigit)
    · exact .inl (.inr hunderscore)
    · exact .inr (.inr hhyphen)
  | openParen => cases h
  | closeParen => cases h
  | string => cases h

theorem Language.exists_cons {kind : TokenKind} {piece : List Char} (h : kind.Language piece) :
    ∃ c cs, piece = c :: cs ∧ kind.starts c = true := by
  cases kind with
  | space =>
    obtain ⟨hne, hblank⟩ := h
    obtain ⟨c, cs, rfl⟩ := List.exists_cons_of_ne_nil hne
    exact ⟨c, cs, rfl, hblank c List.mem_cons_self⟩
  | openParen => exact ⟨'(', [], h, rfl⟩
  | closeParen => exact ⟨')', [], h, rfl⟩
  | number =>
    obtain ⟨digits, hne, hdigits, rfl | rfl⟩ := h
    · obtain ⟨c, cs, rfl⟩ := List.exists_cons_of_ne_nil hne
      have hdigit : c.isDigit = true := hdigits c List.mem_cons_self
      exact ⟨c, cs, rfl, by simp [starts, hdigit]⟩
    · exact ⟨'-', digits, rfl, rfl⟩
  | symbol =>
    obtain ⟨c, others, hstart, -, rfl⟩ := h
    exact ⟨c, others, rfl, hstart⟩
  | string =>
    obtain ⟨body, -, rfl⟩ := h
    exact ⟨'"', body ++ ['"'], rfl, rfl⟩

end TokenKind

-- ============================================================================
-- What is taken at the start of a text
-- ============================================================================

section

variable {p : Char → Bool} {piece rest body : List Char}

theorem takeWhile_eq_nil_of_head? (h : ∀ c ∈ rest.head?, p c = false) : rest.takeWhile p = [] := by
  cases rest with
  | nil => rfl
  | cons c cs => rw [List.takeWhile_cons_of_neg (by simp [h c rfl])]

theorem dropWhile_eq_self_of_head? (h : ∀ c ∈ rest.head?, p c = false) :
    rest.dropWhile p = rest := by
  cases rest with
  | nil => rfl
  | cons c cs => rw [List.dropWhile_cons_of_neg (by simp [h c rfl])]

theorem takeRun?_append (hne : piece ≠ []) (hpiece : ∀ c ∈ piece, p c = true)
    (hrest : ∀ c ∈ rest.head?, p c = false) :
    takeRun? p (piece ++ rest) = some (piece, rest) := by
  have htake : (piece ++ rest).takeWhile p = piece := by
    rw [List.takeWhile_append_of_pos hpiece, takeWhile_eq_nil_of_head? hrest, List.append_nil]
  have hdrop : (piece ++ rest).dropWhile p = rest := by
    rw [List.dropWhile_append_of_pos hpiece, dropWhile_eq_self_of_head? hrest]
  rw [takeRun?, htake, hdrop, if_neg (by simpa using hne)]

theorem takeRun?_eq_none {c : Char} {cs : List Char} (h : p c = false) :
    takeRun? p (c :: cs) = none := by
  simp [takeRun?, h]

theorem takeNumber?_of_ne {c : Char} {cs : List Char} (h : c ≠ '-') :
    takeNumber? (c :: cs) = takeRun? Char.isDigit (c :: cs) := by
  unfold takeNumber?
  split
  · next heq => exact absurd (List.cons.inj heq).1 h
  · rfl

theorem takeNumber?_append (hne : piece ≠ []) (hdigits : ∀ c ∈ piece, c.isDigit = true)
    (hrest : ∀ c ∈ rest.head?, c.isDigit = false) :
    takeNumber? (piece ++ rest) = some (piece, rest) := by
  obtain ⟨c, cs, rfl⟩ := List.exists_cons_of_ne_nil hne
  have hminus : c ≠ '-' := by
    rintro rfl
    exact absurd (hdigits '-' List.mem_cons_self) (by decide)
  rw [List.cons_append, takeNumber?_of_ne hminus, ← List.cons_append]
  exact takeRun?_append hne hdigits hrest

theorem takeSymbol?_append {c : Char} {others : List Char} (hstart : isSymbolStart c = true)
    (hothers : ∀ d ∈ others, isSymbolPart d = true)
    (hrest : ∀ d ∈ rest.head?, isSymbolPart d = false) :
    takeSymbol? (c :: others ++ rest) = some (c :: others, rest) := by
  have htake : (others ++ rest).takeWhile isSymbolPart = others := by
    rw [List.takeWhile_append_of_pos hothers, takeWhile_eq_nil_of_head? hrest, List.append_nil]
  have hdrop : (others ++ rest).dropWhile isSymbolPart = rest := by
    rw [List.dropWhile_append_of_pos hothers, dropWhile_eq_self_of_head? hrest]
  rw [List.cons_append, takeSymbol?, if_pos hstart, htake, hdrop]

/-- A string ends at the first quotation mark that is not part of its body. -/
theorem takeStringRest?_append (h : StringBody body) :
    takeStringRest? (body ++ '"' :: rest) = some (body ++ ['"'], rest) := by
  induction h with
  | nil => rfl
  | @char c cs hquote hbackslash h ih =>
    rw [List.cons_append, takeStringRest?, ih, if_neg hbackslash]
    · rfl
    · exact fun heq => hquote heq
    · exact fun _ _ heq => absurd heq hbackslash
  | quote h ih => simp [takeStringRest?, ih]
  | backslash h ih => simp [takeStringRest?, ih]

theorem takeString?_append (h : StringBody body) :
    takeString? ('"' :: body ++ ['"'] ++ rest) = some ('"' :: body ++ ['"'], rest) := by
  rw [List.append_assoc, List.singleton_append, List.cons_append, takeString?,
    takeStringRest?_append h]
  rfl

end

namespace TokenKind

/-- A piece in the language of a kind is taken as a whole, unless the text behind it
    goes on the token. -/
theorem take?_append {kind : TokenKind} {piece rest : List Char} (h : kind.Language piece)
    (hrest : ∀ c ∈ rest.head?, kind.continues c = false) :
    kind.take? (piece ++ rest) = some (piece, rest) := by
  cases kind with
  | space => exact takeRun?_append h.1 h.2 hrest
  | openParen =>
    obtain rfl : piece = ['('] := h
    rfl
  | closeParen =>
    obtain rfl : piece = [')'] := h
    rfl
  | number =>
    obtain ⟨digits, hne, hdigits, rfl | rfl⟩ := h
    · exact takeNumber?_append hne hdigits hrest
    · show takeNumber? ('-' :: (digits ++ rest)) = some ('-' :: digits, rest)
      rw [takeNumber?, takeRun?_append hne hdigits hrest]
      rfl
  | symbol =>
    obtain ⟨c, others, hstart, hothers, rfl⟩ := h
    exact takeSymbol?_append hstart hothers hrest
  | string =>
    obtain ⟨body, hbody, rfl⟩ := h
    exact takeString?_append hbody

/-- A kind has no token at a character that none of its tokens begins with. -/
theorem take?_eq_none {kind : TokenKind} {c : Char} {cs : List Char}
    (h : kind.starts c = false) : kind.take? (c :: cs) = none := by
  cases kind with
  | space => exact takeRun?_eq_none h
  | openParen =>
    have hne : c ≠ '(' := by simpa [starts] using h
    show takeChar? '(' (c :: cs) = none
    rw [takeChar?, if_neg hne]
  | closeParen =>
    have hne : c ≠ ')' := by simpa [starts] using h
    show takeChar? ')' (c :: cs) = none
    rw [takeChar?, if_neg hne]
  | number =>
    have hne : c.isDigit = false ∧ c ≠ '-' := by simpa [starts] using h
    show takeNumber? (c :: cs) = none
    rw [takeNumber?_of_ne hne.2]
    exact takeRun?_eq_none hne.1
  | symbol =>
    have hne : ¬ isSymbolStart c = true := by simpa [starts] using h
    show takeSymbol? (c :: cs) = none
    rw [takeSymbol?, if_neg hne]
  | string =>
    have hne : c ≠ '"' := by simpa [starts] using h
    show takeString? (c :: cs) = none
    unfold takeString?
    split
    · next heq => exact absurd (List.cons.inj heq).1 hne
    · rfl

/-- Whatever the order in which the kinds are tried, the one that the first character
    tells is the one that is found. -/
theorem takeFirst?_append {order : List TokenKind} {kind : TokenKind} {piece rest : List Char}
    (hmem : kind ∈ order) (h : kind.Language piece)
    (hrest : ∀ c ∈ rest.head?, kind.continues c = false) :
    takeFirst? order (piece ++ rest) = some (kind, piece, rest) := by
  induction order with
  | nil => cases hmem
  | cons k order ih =>
    by_cases hk : k = kind
    · subst hk
      simp [takeFirst?, take?_append h hrest]
    · have hmem' : kind ∈ order := by simpa [Ne.symm hk] using hmem
      obtain ⟨c, cs, rfl, hstart⟩ := h.exists_cons
      have hnone : k.take? (c :: (cs ++ rest)) = none := by
        refine take?_eq_none (Bool.eq_false_iff.2 fun hstart' => hk ?_)
        exact starts_unique hstart' hstart
      have hfirst := ih hmem'
      simp only [takeFirst?, List.findSome?_cons, List.cons_append, hnone] at hfirst ⊢
      exact hfirst

end TokenKind

-- ============================================================================
-- Lists of tokens
-- ============================================================================

namespace Token

/-- A token whose text is in the language of its kind. -/
def WellFormed (token : Token) : Prop :=
  token.kind.Language token.text.toList

/-- A token that does not go on into the one behind it. -/
def Apart (token next : Token) : Prop :=
  ∀ c ∈ next.text.toList.head?, token.kind.continues c = false

end Token

/-- Two kinds of token that could be read as one token if they are neighbours. -/
def TokenKind.mayFuse : TokenKind → TokenKind → Bool
  | space, space | symbol, symbol | symbol, number | number, number => true
  | _, _ => false

namespace TokenKind

theorem mayFuse_space_left {kind : TokenKind} (h : kind ≠ space) : mayFuse space kind = false := by
  cases kind <;> first | rfl | exact absurd rfl h

theorem mayFuse_space_right {kind : TokenKind} (h : kind ≠ space) : mayFuse kind space = false := by
  cases kind <;> first | rfl | exact absurd rfl h

@[simp] theorem mayFuse_openParen (kind : TokenKind) : mayFuse openParen kind = false := by
  cases kind <;> rfl

@[simp] theorem mayFuse_closeParen (kind : TokenKind) : mayFuse kind closeParen = false := by
  cases kind <;> rfl

end TokenKind

/-- Tokens of kinds that cannot be read as one are apart. -/
theorem Token.apart_of_mayFuse {token next : Token} (h : next.WellFormed)
    (hkinds : TokenKind.mayFuse token.kind next.kind = false) : token.Apart next := by
  intro c hc
  obtain ⟨d, ds, hnext, hstart⟩ := h.exists_cons
  obtain rfl : d = c := by simpa [hnext] using hc
  refine Bool.eq_false_iff.2 fun hgoes => ?_
  rcases TokenKind.starts_of_continues hgoes with hsame | ⟨hsymbol, hnumber⟩
  · have hkind := TokenKind.starts_unique hsame hstart
    rw [← hkind] at hkinds
    cases hk : token.kind <;> simp [hk, TokenKind.mayFuse, TokenKind.continues] at hkinds hgoes
  · have hkind := TokenKind.starts_unique hnumber hstart
    rw [hsymbol, ← hkind] at hkinds
    cases hkinds

/-- Tokens that their text is cut into: each in its language, and apart from the one
    behind it. -/
structure Munched (tokens : List Token) : Prop where
  wellFormed : ∀ token ∈ tokens, token.WellFormed
  apart : tokens.IsChain Token.Apart

namespace Munched

theorem tail {token : Token} {tokens : List Token} (h : Munched (token :: tokens)) :
    Munched tokens :=
  ⟨fun t ht => h.wellFormed t (List.mem_cons_of_mem _ ht), h.apart.tail⟩

/-- The text behind the first token does not go on that token. -/
theorem continues_eq_false {token : Token} {tokens : List Token} (h : Munched (token :: tokens)) :
    ∀ c ∈ (Token.source tokens).head?, token.kind.continues c = false := by
  cases tokens with
  | nil => simp
  | cons next tokens =>
    have hnext : next.WellFormed := h.wellFormed next (by simp)
    have hapart : token.Apart next := (List.isChain_cons_cons.1 h.apart).1
    obtain ⟨c, cs, htext, -⟩ := hnext.exists_cons
    intro d hd
    rw [Token.source_cons, htext, List.cons_append, List.head?_cons] at hd
    refine hapart d ?_
    rw [htext]
    exact hd

theorem lexWith {order : List TokenKind} (horder : ∀ kind, kind ∈ order) {tokens : List Token}
    (h : Munched tokens) : lexWith order (Token.source tokens) = .ok tokens := by
  induction tokens with
  | nil => rw [Token.source_nil, lexWith_nil]
  | cons token tokens ih =>
    have hfirst := TokenKind.takeFirst?_append (horder token.kind)
      (h.wellFormed token List.mem_cons_self) h.continues_eq_false
    rw [Token.source_cons, lexWith_eq_map hfirst, ih h.tail]
    show Except.ok ((⟨token.kind, String.ofList token.text.toList⟩ : Token) :: tokens) = _
    rw [String.ofList_toList]

/-- The text of tokens that are each in its language and apart is cut into them. -/
theorem tokenize {source : String} {tokens : List Token} (h : Munched tokens)
    (hsource : source.toList = Token.source tokens) : tokenize source = .ok tokens := by
  rw [LineLisp.tokenize, hsource]
  exact h.lexWith fun kind => by cases kind <;> decide

end Munched

end LineLisp
