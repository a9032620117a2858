/-
  LineLisp.Token.Cursor

  A place in a list of tokens. Readers that start at a cursor leave it where
  they stopped.
-/
import LineLisp.Token.Basic

namespace LineLisp

/-- A list of tokens with a place in it, counted from its beginning. -/
structure Cursor where
  tokens : List Token
  position : Nat
  deriving DecidableEq, Repr

namespace Cursor

/-- The cursor at the beginning of tokens. -/
def start (tokens : List Token) : Cursor := ⟨tokens, 0⟩

/-- The tokens from the cursor on. -/
def rest (c : Cursor) : List Token := c.tokens.drop c.position

/-- The token at the cursor. -/
def peek? (c : Cursor) : Option Token := c.rest.head?

/-- The token at the cursor, and the cursor behind it. -/
def advance? (c : Cursor) : Option (Token × Cursor) :=
  c.peek?.map fun token => (token, { c with position := c.position + 1 })

/-- Moves behind the token at the cursor if it is of the given kind, and tells
    whether it was. -/
def skip (c : Cursor) (kind : TokenKind) : Bool × Cursor :=
  match c.peek? with
  | some token =>
    if token.kind = kind then (true, { c with position := c.position + 1 }) else (false, c)
  | none => (false, c)

/-- The cursor at which these of its tokens are left. -/
def leaving (c : Cursor) (left : List Token) : Cursor :=
  { c with position := c.tokens.length - left.length }

-- ============================================================================
-- Lemmas
-- ============================================================================

@[simp] theorem rest_start (tokens : List Token) : (start tokens).rest = tokens := rfl

theorem rest_leaving {c : Cursor} {left : List Token} (h : left <:+ c.tokens) :
    (c.leaving left).rest = left := by
  obtain ⟨read, hread⟩ := h
  simp [leaving, rest, ← hread]

end Cursor

end LineLisp
