/-
  LineLisp.Proofs.KindOrder

  The order in which the kinds of token are tried. At a place of a text no two kinds have
  a token, since the first character tells the kind, and the token of a kind is the
  longest piece of its language there. So the first kind of a list that has a token is
  the only one, wherever it stands in the list, and a text is lexed alike in every order.
-/
import LineLisp.Proofs.LexErrors

namespace LineLisp

variable {order order' : List TokenKind} {kind kind' : TokenKind} {cut cut' : Cut}
  {text piece rest other : List Char}

namespace TokenKind

-- ============================================================================
-- The token of a kind
-- ============================================================================

/-- The longest beginning of a text that is in the language of a kind. -/
structure LongestPiece (kind : TokenKind) (text piece rest : List Char) : Prop where
  split : text = piece ++ rest
  nonempty : piece ≠ []
  language : kind.Language piece
  longest : ∀ other, kind.Language other → other <+: text → other <+: piece

theorem LongestPiece.of_take? (h : kind.take? text = some (piece, rest)) :
    kind.LongestPiece text piece rest := by
  obtain ⟨hne, hsplit⟩ := take?_cut h
  obtain ⟨hlanguage, hrest⟩ := take?_sound h
  refine ⟨hsplit, hne, hlanguage, fun other hother hpre => ?_⟩
  rw [hsplit] at hpre
  exact (hlanguage.longest hrest hother hpre).2

theorem LongestPiece.unique {piece' rest' : List Char} (h : kind.LongestPiece text piece rest)
    (h' : kind.LongestPiece text piece' rest') : piece' = piece ∧ rest' = rest := by
  have hpre : piece <+: text := ⟨rest, h.split.symm⟩
  have hpre' : piece' <+: text := ⟨rest', h'.split.symm⟩
  have hle : piece' <+: piece := h.longest piece' h'.language hpre'
  have hge : piece <+: piece' := h'.longest piece h.language hpre
  obtain rfl : piece' = piece := hle.eq_of_length_le hge.length_le
  exact ⟨rfl, List.append_cancel_left (h'.split.symm.trans h.split)⟩

/-- A kind has no token just where no piece of its language stands. -/
theorem take?_eq_none_iff :
    kind.take? text = none ↔ ∀ piece, kind.Language piece → ¬ piece <+: text := by
  constructor
  · rintro hnone piece hpiece ⟨rest, rfl⟩
    exact hpiece.take?_ne_none rest hnone
  · intro hno
    cases htake : kind.take? text with
    | none => rfl
    | some cut =>
      obtain ⟨piece, rest⟩ := cut
      have hlongest := LongestPiece.of_take? htake
      exact absurd ⟨rest, hlongest.split.symm⟩ (hno piece hlongest.language)

/-- What a kind has at the start of a text is the longest piece of its language there. -/
theorem take?_eq_some_iff :
    kind.take? text = some (piece, rest) ↔ kind.LongestPiece text piece rest := by
  refine ⟨LongestPiece.of_take?, fun h => ?_⟩
  have hsome : kind.take? text ≠ none := by
    rw [h.split]
    exact h.language.take?_ne_none rest
  obtain ⟨⟨piece', rest'⟩, htake⟩ := Option.ne_none_iff_exists'.1 hsome
  obtain ⟨rfl, rfl⟩ := h.unique (.of_take? htake)
  exact htake

/-- Of a kind that no character goes on, no piece is the beginning of another one. -/
theorem Language.eq_of_prefix (hends : ∀ c, kind.continues c = false) (h : kind.Language piece)
    (hother : kind.Language other) (hpre : other <+: piece) : other = piece := by
  obtain ⟨more, rfl⟩ := hpre
  cases more with
  | nil => exact (List.append_nil other).symm
  | cons c more =>
    have hgoes := hother.continues h
    rw [hends c] at hgoes
    cases hgoes

/-- At a place of a text at most one kind has a token. -/
theorem eq_of_take? (h : kind.take? text = some cut) (h' : kind'.take? text = some cut') :
    kind = kind' := by
  obtain ⟨hsplit', -, hlanguage', -⟩ := LongestPiece.of_take? h'
  obtain ⟨hlanguage, hrest⟩ := take?_sound h
  have hpre : cut'.1 <+: cut.1 ++ cut.2 := by
    rw [← (take?_cut h).2]
    exact ⟨cut'.2, hsplit'.symm⟩
  exact (hlanguage.longest hrest hlanguage' hpre).1.symm

-- ============================================================================
-- The first kind of a list
-- ============================================================================

/-- The first kind that has a token is the one that has a token. -/
theorem takeFirst?_eq_some_iff :
    takeFirst? order text = some (kind, cut) ↔ kind ∈ order ∧ kind.take? text = some cut := by
  refine ⟨take?_of_takeFirst?, fun ⟨hmem, htake⟩ => ?_⟩
  have hsome : takeFirst? order text ≠ none := by
    intro hnone
    have hthis := List.findSome?_eq_none_iff.1 hnone kind hmem
    rw [htake] at hthis
    cases hthis
  obtain ⟨⟨kind', cut'⟩, hfirst⟩ := Option.ne_none_iff_exists'.1 hsome
  have htake' := (take?_of_takeFirst? hfirst).2
  obtain rfl := eq_of_take? htake htake'
  obtain rfl : cut = cut' := Option.some.inj (htake.symm.trans htake')
  exact hfirst

theorem takeFirst?_congr (h : ∀ kind, kind ∈ order ↔ kind ∈ order') (text : List Char) :
    takeFirst? order text = takeFirst? order' text := by
  refine Option.ext fun ⟨kind, cut⟩ => ?_
  rw [takeFirst?_eq_some_iff, takeFirst?_eq_some_iff, h kind]

end TokenKind

/-- Lexing depends on the kinds that are tried and not on their order. -/
theorem lexWith_congr (h : ∀ kind, kind ∈ order ↔ kind ∈ order') (text : List Char) :
    lexWith order text = lexWith order' text := by
  induction hlen : text.length using Nat.strongRecOn generalizing text with
  | ind n ih =>
    by_cases hne : text = []
    · rw [hne, lexWith_nil, lexWith_nil]
    · have hsame := TokenKind.takeFirst?_congr h text
      cases hfirst : TokenKind.takeFirst? order text with
      | none => rw [lexWith_eq_error hne hfirst, lexWith_eq_error hne (hsame ▸ hfirst)]
      | some first =>
        obtain ⟨kind, piece, rest⟩ := first
        have hlt : rest.length < n := hlen ▸ TokenKind.length_lt_of_takeFirst? hfirst
        have hfirst' : TokenKind.takeFirst? order' text = some (kind, piece, rest) := hsame ▸ hfirst
        rw [lexWith_eq_map hfirst, lexWith_eq_map hfirst', ih rest.length hlt rest rfl]

-- ============================================================================
-- The theorem
-- ============================================================================

/-- The order in which the kinds of token are tried does not matter. Whatever text is left at
    a place: at most one kind has a token there; a kind has the longest piece of its language
    that stands there, which is not empty, and nothing if there is none; for a string there is
    only one such piece. So in every order of the kinds a text has the same tokens or the
    same error. -/
theorem order_of_kinds_does_not_matter :
    (∀ text : List Char,
      (∀ (kind kind' : TokenKind) (cut cut' : Cut),
        kind.take? text = some cut → kind'.take? text = some cut' → kind = kind') ∧
      (∀ (kind : TokenKind) (piece rest : List Char),
        kind.take? text = some (piece, rest) ↔ kind.LongestPiece text piece rest) ∧
      (∀ kind : TokenKind, kind.take? text = none ↔
        ∀ piece, kind.Language piece → ¬ piece <+: text) ∧
      (∀ piece piece' : List Char, TokenKind.string.Language piece → piece <+: text →
        TokenKind.string.Language piece' → piece' <+: text → piece' = piece)) ∧
    ∀ order : List TokenKind, order.Perm TokenKind.inOrder →
      ∀ source : String, lexWith order source.toList = tokenize source := by
  refine ⟨fun text => ⟨fun kind kind' cut cut' h h' => ?_, fun kind piece rest => ?_,
    fun kind => ?_, fun piece piece' h hpre h' hpre' => ?_⟩, fun order hperm source => ?_⟩
  · exact TokenKind.eq_of_take? h h'
  · exact TokenKind.take?_eq_some_iff
  · exact TokenKind.take?_eq_none_iff
  · have hends : ∀ c, TokenKind.string.continues c = false := fun _ => rfl
    rcases List.prefix_or_prefix_of_prefix hpre hpre' with hle | hge
    · exact (h'.eq_of_prefix hends h hle).symm
    · exact h.eq_of_prefix hends h' hge
  · exact lexWith_congr (fun kind => hperm.mem_iff) source.toList

/-- Strings tried first and spaces last, on a text with joined numbers, an escaped backslash
    and a string that is left open. -/
theorem kinds_tried_in_reverse :
    let order : List TokenKind := [.string, .symbol, .number, .closeParen, .openParen, .space]
    let source : String := "a-5 12ab\"\\\\\"\"x"
    let left : List Char := "\"\\\\\"\"x".toList
    order.Perm TokenKind.inOrder ∧ tokenize source = .error ⟨"\"x"⟩ ∧
      lexWith order source.toList = .error ⟨"\"x"⟩ ∧
      TokenKind.string.take? left = some ("\"\\\\\"".toList, "\"x".toList) ∧
      (∀ (kind : TokenKind) (cut : Cut), kind.take? left = some cut → kind = .string) ∧
      ∀ piece, TokenKind.string.Language piece → piece <+: left → piece = "\"\\\\\"".toList := by
  intro order source left
  have hperm : order.Perm TokenKind.inOrder := by decide
  have hlex : tokenize source = .error ⟨"\"x"⟩ := by decide +kernel
  have htake : TokenKind.string.take? left = some ("\"\\\\\"".toList, "\"x".toList) := by
    decide +kernel
  obtain ⟨hplace, horder⟩ := order_of_kinds_does_not_matter
  obtain ⟨honly, hlongest, -, hstring⟩ := hplace left
  have hpiece := (hlongest .string _ _).1 htake
  have hpre : "\"\\\\\"".toList <+: left := ⟨_, hpiece.split.symm⟩
  refine ⟨hperm, hlex, (horder order hperm source).trans hlex, htake, fun kind cut hkind => ?_,
    fun piece h hpre' => ?_⟩
  · exact honly kind .string cut _ hkind htake
  · exact hstring _ piece hpiece.language hpre h hpre'

end LineLisp
