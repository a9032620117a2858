/-
  LineLisp.Expr.Reader

  Reading expressions from tokens. The reader goes through the tokens once and
  keeps the lists that are still open, the innermost one at hand:

    * white space may stand before the first and behind the last expression of
      a sequence, and one space token has to stand between two neighbours;
    * a parenthesis opens a list or closes the innermost one;
    * any other token is an expression by itself.

  The sequence at the outside is kept like a list that is never closed. A bound
  on the number of lists that may be open at once stands for the room that the
  reader has. Whatever the outcome, the tokens that were not consumed are given
  back, so that reading can go on from there.
-/
import LineLisp.Expr.Basic
import LineLisp.Numeral
import LineLisp.Token.Cursor

namespace LineLisp

/-- Why tokens do not read as expressions. -/
inductive ReadError where
  /-- An expression was wanted and no token was left. -/
  | missing
  /-- A number token does not hold a numeral that can be read. -/
  | badNumber (token : Token)
  /-- No expression begins at the first of these tokens. -/
  | unexpected (rest : List Token)
  /-- The list that these tokens begin with is not closed. -/
  | unclosed (opening : List Token)
  /-- No space parts the first of these tokens from the item before it. -/
  | joinedItems (rest : List Token)
  /-- No space parts the first of these tokens from the expression before it,
      outside of all lists. -/
  | joinedExprs (rest : List Token)
  /-- More lists are open at once than there is room for. -/
  | tooDeep
  deriving DecidableEq, Repr

namespace ReadError

/-- The tokens that an error points at. -/
def tokens : ReadError → List Token
  | .missing => []
  | .badNumber token => [token]
  | .unexpected rest => rest
  | .unclosed opening => opening
  | .joinedItems rest => rest
  | .joinedExprs rest => rest
  | .tooDeep => []

/-- The wording of an error. -/
def message : ReadError → String
  | .missing => "unexpected end of tokens while expecting an expression"
  | .badNumber token => "failed to parse token " ++ token.shown ++ " as int"
  | .unexpected rest => "unexpected token at " ++ Token.shownAll rest
  | .unclosed opening => "unmatched parens: tokens: " ++ Token.shownAll opening
  | .joinedItems rest => "expected whitespace between list elements at " ++ Token.shownAll rest
  | .joinedExprs rest => "expected whitespace between expressions at " ++ Token.shownAll rest
  | .tooDeep => "maximum recursion depth exceeded"

end ReadError

/-- The text between the first and the last character of a text. -/
def innerText (text : String) : String :=
  String.ofList (text.toList.drop 1).dropLast

/-- What a token stands for by itself: nothing if it is white space or a
    parenthesis, else an expression or the reason why it is none. -/
def Token.atom? (token : Token) : Option (Except ReadError Expr) :=
  match token.kind with
  | .symbol => some (.ok (.sym token.text))
  | .string => some (.ok (.str (innerText token.text)))
  | .number =>
    match Numeral.read? token.text.toList with
    | some n => some (.ok (.int n))
    | none => some (.error (.badNumber token))
  | .space | .openParen | .closeParen => none

/-- A sequence of expressions that is being read: the tokens from its beginning
    on, which for a list is its opening parenthesis; the expressions read so
    far, the last one first; and whether a space was read behind them. -/
structure Level where
  start : List Token
  items : List Expr
  spaced : Bool

namespace Level

/-- A sequence at its beginning. -/
def fresh (start : List Token) : Level := ⟨start, [], false⟩

/-- Whether an expression may begin here. -/
def ready (level : Level) : Bool := level.items.isEmpty || level.spaced

/-- A sequence with a space behind its expressions. -/
def space (level : Level) : Level := { level with spaced := true }

/-- A sequence with one more expression. -/
def push (level : Level) (e : Expr) : Level :=
  { level with items := e :: level.items, spaced := false }

end Level

namespace Expr

/-- The outcome of reading, and the tokens that were not consumed. -/
abbrev ReadResult (α : Type) := Except ReadError α × List Token

/-- The error where an expression begins without a space before it: outside of
    all lists, or among the items of one. -/
def joined (outer : List Level) (tokens : List Token) : ReadError :=
  if outer.isEmpty then .joinedExprs tokens else .joinedItems tokens

/-- Reads on in the innermost open sequence, with the sequences around it from
    the inside out. The outermost sequence ends with the tokens or, if only a
    single expression is wanted, with its first expression. -/
def readLevels (limit : Nat) (single : Bool) (level : Level) (outer : List Level) :
    List Token → ReadResult (List Expr)
  | [] =>
    if outer.isEmpty then (.ok level.items.reverse, [])
    else (.error (.unclosed level.start), [])
  | token :: rest =>
    match token.kind with
    | .space =>
      if level.spaced then (.error (.unexpected (token :: rest)), token :: rest)
      else readLevels limit single level.space outer rest
    | .closeParen =>
      match outer with
      | parent :: others =>
        let e := .list level.items.reverse
        if single && others.isEmpty then (.ok [e], rest)
        else readLevels limit single (parent.push e) others rest
      | [] =>
        if level.ready then (.error (.unexpected (token :: rest)), token :: rest)
        else (.error (joined [] (token :: rest)), token :: rest)
    | .openParen =>
      if level.ready then
        if outer.length < limit then
          readLevels limit single (.fresh (token :: rest)) (level :: outer) rest
        else (.error .tooDeep, rest)
      else (.error (joined outer (token :: rest)), token :: rest)
    | .symbol | .string | .number =>
      if level.ready then
        match token.atom? with
        | some (.ok e) =>
          if single && outer.isEmpty then (.ok [e], rest)
          else readLevels limit single (level.push e) outer rest
        | some (.error error) => (.error error, rest)
        | none => (.error (.unexpected (token :: rest)), token :: rest)
      else (.error (joined outer (token :: rest)), token :: rest)

/-- The first of the expressions that were read. -/
def firstRead : ReadResult (List Expr) → ReadResult Expr
  | (.ok (e :: _), rest) => (.ok e, rest)
  | (.ok [], rest) => (.error .missing, rest)
  | (.error error, rest) => (.error error, rest)

/-- The sequence that a single expression makes up: white space may not stand
    before it. -/
def singleLevel (tokens : List Token) : Level := ⟨tokens, [], true⟩

/-- Reads the expression that the tokens begin with. -/
def readOne (limit : Nat) (tokens : List Token) : ReadResult Expr :=
  firstRead (readLevels limit true (singleLevel tokens) [] tokens)

/-- Reads the items of a list up to its closing parenthesis, behind a first
    token that counts as the opening one, whatever it is. -/
def readList? (limit : Nat) : List Token → Option (ReadResult Expr)
  | [] => none
  | token :: rest =>
    let tokens := token :: rest
    some (firstRead (readLevels limit true (.fresh tokens) [singleLevel tokens] rest))

/-- Reads all expressions of the tokens, of which there may be none. -/
def readAll (limit : Nat) (tokens : List Token) : ReadResult (List Expr) :=
  readLevels limit false (.fresh tokens) [] tokens

/-- The number of lists that may be open at once when source text is read. -/
def maxNesting : Nat := 490

end Expr

-- ============================================================================
-- Reading at a cursor
-- ============================================================================

namespace Cursor

/-- Reads the expression at a cursor. -/
def readOne (limit : Nat) (c : Cursor) : Except ReadError Expr × Cursor :=
  let (outcome, left) := Expr.readOne limit c.rest
  (outcome, c.leaving left)

/-- Reads the items of a list behind the token at a cursor, if there is one. -/
def readList? (limit : Nat) (c : Cursor) : Option (Except ReadError Expr × Cursor) :=
  (Expr.readList? limit c.rest).map fun (outcome, left) => (outcome, c.leaving left)

/-- Reads all expressions from a cursor on. -/
def readAll (limit : Nat) (c : Cursor) : Except ReadError (List Expr) × Cursor :=
  let (outcome, left) := Expr.readAll limit c.rest
  (outcome, c.leaving left)

end Cursor

end LineLisp
