/-
  LineLisp.Expr.Dump

  Dumps of expressions: a notation that names the kind and the parts of every
  piece, for logs and for looking at what was read.
-/
import LineLisp.Expr.Printer
import LineLisp.Text.Quoted

namespace LineLisp

/-- A sequence in a dump: in parentheses, with a comma also behind a single
    item. -/
def dumpSequence : List String → String
  | [] => "()"
  | [item] => "(" ++ item ++ ",)"
  | items => "(" ++ ", ".intercalate items ++ ")"

namespace Expr

mutual

/-- The dump of an expression, with integers of any length. -/
def dump : Expr → String
  | .int n => "Integer(value=" ++ Numeral.text n ++ ")"
  | .sym name => "Symbol(name=" ++ Text.quoted name ++ ")"
  | .str contents => "StringLiteral(value=" ++ Text.quoted contents ++ ")"
  | .list items => "SList(items=" ++ dumpSequence (dumps items) ++ ")"
  | .hole => "None"

/-- The dump of each expression of a list. -/
def dumps : List Expr → List String
  | [] => []
  | e :: es => dump e :: dumps es

end

/-- The dump of an expression, when all of its integers can be written. -/
def dump? (e : Expr) : Option String :=
  if e.fits then some e.dump else none

@[simp] theorem dumps_eq_map (es : List Expr) : dumps es = es.map dump := by
  induction es with
  | nil => rfl
  | cons e es ih => simp [dumps, ih]

end Expr

end LineLisp
