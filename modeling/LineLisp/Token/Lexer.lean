/-
  LineLisp.Token.Lexer

  Cutting source text into tokens. At each place the kinds of token are tried
  in a fixed order, and the first kind that fits takes the longest piece it
  can. A text where no kind fits is refused, with all that was left of it.

    * blanks in a row are one token;
    * a number is an optional minus sign and ASCII digits;
    * a symbol is a letter or an underscore, then letters, digits, underscores
      and hyphens, all of them ASCII;
    * a string runs from a quotation mark to the next one, where a backslash
      may stand only before a quotation mark or another backslash, and takes
      the meaning of either away.
-/
import LineLisp.Text.Blank
import LineLisp.Token.Basic

namespace LineLisp

/-- A character that a symbol may begin with. -/
def isSymbolStart (c : Char) : Bool :=
  c.isAlpha || c == '_'

/-- A character that a symbol may go on with. -/
def isSymbolPart (c : Char) : Bool :=
  c.isAlphanum || c == '_' || c == '-'

/-- A piece taken from the start of a text, and the text behind it. -/
abbrev Cut := List Char × List Char

/-- The run of characters of a class at the start of a text, when there is
    one. -/
def takeRun? (p : Char → Bool) (cs : List Char) : Option Cut :=
  if (cs.takeWhile p).isEmpty then none else some (cs.takeWhile p, cs.dropWhile p)

/-- The number at the start of a text. -/
def takeNumber? : List Char → Option Cut
  | '-' :: cs => (takeRun? Char.isDigit cs).map fun (digits, rest) => ('-' :: digits, rest)
  | cs => takeRun? Char.isDigit cs

/-- The symbol at the start of a text. -/
def takeSymbol? : List Char → Option Cut
  | [] => none
  | c :: cs =>
    if isSymbolStart c then some (c :: cs.takeWhile isSymbolPart, cs.dropWhile isSymbolPart)
    else none

/-- The rest of a string behind its opening quotation mark, the closing one
    included. There is none where a backslash stands before any other
    character, or where the text ends too early. -/
def takeStringRest? : List Char → Option Cut
  | [] => none
  | '"' :: cs => some (['"'], cs)
  | '\\' :: c :: cs =>
    if c = '"' ∨ c = '\\' then
      (takeStringRest? cs).map fun (piece, rest) => ('\\' :: c :: piece, rest)
    else none
  | c :: cs =>
    if c = '\\' then none
    else (takeStringRest? cs).map fun (piece, rest) => (c :: piece, rest)

/-- The string at the start of a text, quotation marks included. -/
def takeString? : List Char → Option Cut
  | '"' :: cs => (takeStringRest? cs).map fun (piece, rest) => ('"' :: piece, rest)
  | _ => none

/-- A given character at the start of a text. -/
def takeChar? (c : Char) : List Char → Option Cut
  | [] => none
  | d :: cs => if d = c then some ([d], cs) else none

namespace TokenKind

/-- The token of a kind at the start of a text: as long as the kind allows. -/
def take? : TokenKind → List Char → Option Cut
  | space => takeRun? Text.isBlank
  | openParen => takeChar? '('
  | closeParen => takeChar? ')'
  | number => takeNumber?
  | symbol => takeSymbol?
  | string => takeString?

/-- The kinds in the order in which they are tried. -/
def inOrder : List TokenKind :=
  [space, openParen, closeParen, number, symbol, string]

/-- The first kind of a list that has a token at the start of a text, with that
    token. -/
def takeFirst? (order : List TokenKind) (cs : List Char) : Option (TokenKind × Cut) :=
  order.findSome? fun kind => (kind.take? cs).map fun cut => (kind, cut)

end TokenKind

-- ============================================================================
-- Every cut is a proper one
-- ============================================================================

theorem takeRun?_cut {p : Char → Bool} {cs piece rest : List Char}
    (h : takeRun? p cs = some (piece, rest)) : piece ≠ [] ∧ cs = piece ++ rest := by
  unfold takeRun? at h
  split at h
  · exact absurd h (by simp)
  · next hne =>
    obtain ⟨rfl, rfl⟩ := Prod.mk.inj (Option.some.inj h)
    exact ⟨by simpa using hne, List.takeWhile_append_dropWhile.symm⟩

theorem takeNumber?_cut {cs piece rest : List Char}
    (h : takeNumber? cs = some (piece, rest)) : piece ≠ [] ∧ cs = piece ++ rest := by
  unfold takeNumber? at h
  split at h
  · obtain ⟨⟨digits, others⟩, hcut, heq⟩ := Option.map_eq_some_iff.1 h
    obtain ⟨rfl, rfl⟩ := Prod.mk.inj heq
    exact ⟨by simp, by simp [(takeRun?_cut hcut).2]⟩
  · exact takeRun?_cut h

theorem takeSymbol?_cut {cs piece rest : List Char}
    (h : takeSymbol? cs = some (piece, rest)) : piece ≠ [] ∧ cs = piece ++ rest := by
  unfold takeSymbol? at h
  split at h
  · exact absurd h (by simp)
  · split at h
    · obtain ⟨rfl, rfl⟩ := Prod.mk.inj (Option.some.inj h)
      exact ⟨by simp, by simp⟩
    · exact absurd h (by simp)

theorem takeStringRest?_cut {cs piece rest : List Char}
    (h : takeStringRest? cs = some (piece, rest)) : piece ≠ [] ∧ cs = piece ++ rest := by
  fun_induction takeStringRest? cs generalizing piece rest with
  | case1 => exact absurd h (by simp)
  | case2 cs =>
    obtain ⟨rfl, rfl⟩ := Prod.mk.inj (Option.some.inj h)
    exact ⟨by simp, by simp⟩
  | case3 c cs hc ih =>
    obtain ⟨⟨tail, others⟩, hcut, heq⟩ := Option.map_eq_some_iff.1 h
    obtain ⟨rfl, rfl⟩ := Prod.mk.inj heq
    exact ⟨by simp, by simp [(ih hcut).2]⟩
  | case4 => exact absurd h (by simp)
  | case5 => exact absurd h (by simp)
  | case6 c cs _ _ hc ih =>
    obtain ⟨⟨tail, others⟩, hcut, heq⟩ := Option.map_eq_some_iff.1 h
    obtain ⟨rfl, rfl⟩ := Prod.mk.inj heq
    exact ⟨by simp, by simp [(ih hcut).2]⟩

theorem takeString?_cut {cs piece rest : List Char}
    (h : takeString? cs = some (piece, rest)) : piece ≠ [] ∧ cs = piece ++ rest := by
  unfold takeString? at h
  split at h
  · obtain ⟨⟨tail, others⟩, hcut, heq⟩ := Option.map_eq_some_iff.1 h
    obtain ⟨rfl, rfl⟩ := Prod.mk.inj heq
    exact ⟨by simp, by simp [(takeStringRest?_cut hcut).2]⟩
  · exact absurd h (by simp)

theorem takeChar?_cut {c : Char} {cs piece rest : List Char}
    (h : takeChar? c cs = some (piece, rest)) : piece ≠ [] ∧ cs = piece ++ rest := by
  unfold takeChar? at h
  split at h
  · exact absurd h (by simp)
  · split at h
    · obtain ⟨rfl, rfl⟩ := Prod.mk.inj (Option.some.inj h)
      exact ⟨by simp, by simp⟩
    · exact absurd h (by simp)

/-- A token is never empty, and nothing is lost behind it. -/
theorem TokenKind.take?_cut {kind : TokenKind} {cs piece rest : List Char}
    (h : kind.take? cs = some (piece, rest)) : piece ≠ [] ∧ cs = piece ++ rest := by
  cases kind with
  | space => exact takeRun?_cut h
  | openParen => exact takeChar?_cut h
  | closeParen => exact takeChar?_cut h
  | number => exact takeNumber?_cut h
  | symbol => exact takeSymbol?_cut h
  | string => exact takeString?_cut h

/-- The first token is one of the kind it is given as. -/
theorem TokenKind.take?_of_takeFirst? {order : List TokenKind} {cs : List Char}
    {kind : TokenKind} {cut : Cut} (h : takeFirst? order cs = some (kind, cut)) :
    kind ∈ order ∧ kind.take? cs = some cut := by
  obtain ⟨k, hk, hmap⟩ := List.exists_of_findSome?_eq_some h
  obtain ⟨c, hc, heq⟩ := Option.map_eq_some_iff.1 hmap
  obtain ⟨rfl, rfl⟩ := Prod.mk.inj heq
  exact ⟨hk, hc⟩

/-- What is left behind a token is shorter. -/
theorem TokenKind.length_lt_of_takeFirst? {order : List TokenKind} {cs piece rest : List Char}
    {kind : TokenKind} (h : takeFirst? order cs = some (kind, piece, rest)) :
    rest.length < cs.length := by
  obtain ⟨hne, rfl⟩ := take?_cut (take?_of_takeFirst? h).2
  have hpos := List.length_pos_iff.2 hne
  simp only [List.length_append]
  omega

-- ============================================================================
-- Lexing
-- ============================================================================

/-- A text that cannot be cut into tokens: all of it from the place on where no
    token begins. -/
structure LexError where
  remainder : String
  deriving DecidableEq, Repr

/-- Cuts a text into tokens, with the kinds tried in a given order. -/
def lexWith (order : List TokenKind) (cs : List Char) : Except LexError (List Token) :=
  if cs = [] then .ok []
  else match _h : TokenKind.takeFirst? order cs with
    | none => .error ⟨String.ofList cs⟩
    | some (kind, piece, rest) =>
      (lexWith order rest).map fun tokens => ⟨kind, String.ofList piece⟩ :: tokens
termination_by cs.length
decreasing_by exact TokenKind.length_lt_of_takeFirst? _h

/-- Cuts source text into tokens. -/
def tokenize (source : String) : Except LexError (List Token) :=
  lexWith TokenKind.inOrder source.toList

@[simp] theorem lexWith_nil (order : List TokenKind) : lexWith order [] = .ok [] := by
  rw [lexWith, if_pos rfl]

/-- Lexing fails where no kind has a token. -/
theorem lexWith_eq_error {order : List TokenKind} {cs : List Char} (hne : cs ≠ [])
    (h : TokenKind.takeFirst? order cs = none) :
    lexWith order cs = .error ⟨String.ofList cs⟩ := by
  rw [lexWith, if_neg hne]
  split
  · rfl
  · next hsome => exact absurd (h.symm.trans hsome) (by simp)

/-- Lexing goes on behind the first token. -/
theorem lexWith_eq_map {order : List TokenKind} {cs piece rest : List Char} {kind : TokenKind}
    (h : TokenKind.takeFirst? order cs = some (kind, piece, rest)) :
    lexWith order cs =
      (lexWith order rest).map fun tokens => ⟨kind, String.ofList piece⟩ :: tokens := by
  have hne : cs ≠ [] := by
    rintro rfl
    have := TokenKind.length_lt_of_takeFirst? h
    simp at this
  rw [lexWith, if_neg hne]
  split
  · next hnone => exact absurd (h.symm.trans hnone) (by simp)
  · next hsome =>
    obtain ⟨rfl, hcut⟩ := Prod.mk.inj (Option.some.inj (h.symm.trans hsome))
    obtain ⟨rfl, rfl⟩ := Prod.mk.inj hcut
    rfl

end LineLisp
