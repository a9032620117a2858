/-
  LineLisp.Token.Basic

  Tokens: the pieces that a line of source text is cut into. White space is a
  token like any other, since neighbouring expressions have to be separated.
-/

namespace LineLisp

/-- The kinds of token. -/
inductive TokenKind where
  | space
  | openParen
  | closeParen
  | number
  | symbol
  | string
  deriving DecidableEq, Repr

/-- A piece of source text with its kind. -/
structure Token where
  kind : TokenKind
  text : String
  deriving DecidableEq, Repr

namespace Token

/-- A token as messages show it: its text in square brackets. -/
def shown (token : Token) : String :=
  "[" ++ token.text ++ "]"

/-- Several tokens as messages show them. -/
def shownAll (tokens : List Token) : String :=
  " ".intercalate (tokens.map shown)

/-- The text that a list of tokens was cut from. -/
def source (tokens : List Token) : List Char :=
  tokens.flatMap fun token => token.text.toList

-- ============================================================================
-- Lemmas
-- ============================================================================

@[simp] theorem source_nil : source [] = [] := rfl

@[simp] theorem source_cons (token : Token) (tokens : List Token) :
    source (token :: tokens) = token.text.toList ++ source tokens := rfl

@[simp] theorem source_append (xs ys : List Token) :
    source (xs ++ ys) = source xs ++ source ys := by
  simp [source]

end Token

end LineLisp
