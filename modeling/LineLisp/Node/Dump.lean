/-
  LineLisp.Node.Dump

  Dumps of nodes, in the notation of the dumps of expressions.
-/
import LineLisp.Expr.Dump
import LineLisp.Node.Basic

namespace LineLisp

/-- The dump of a datum, with integers of any length. -/
def Expr.dumpDatum (datum : Expr) : String :=
  "Datum(expr=" ++ datum.dump ++ ")"

namespace Node

mutual

/-- The dump of a node, with integers of any length. -/
def dump : Node → String
  | .literal datum => "LiteralNode(value=" ++ datum.dumpDatum ++ ")"
  | .lookup name => "LookupNode(name=" ++ Text.quoted name ++ ")"
  | .branch c t e =>
    "IfNode(cond=" ++ dump c ++ ", then=" ++ dump t ++ ", orelse=" ++ dump e ++ ")"
  | .assign name value =>
    "SetNode(name=" ++ Text.quoted name ++ ", value=" ++ dump value ++ ")"
  | .lambda params body =>
    "LambdaNode(params=" ++ dumpSequence (params.map Text.quoted) ++ ", body="
      ++ dumpSequence (dumps body) ++ ")"
  | .apply function args =>
    "ApplicationNode(func=" ++ dump function ++ ", args=" ++ dumpSequence (dumps args) ++ ")"
  | .hole => "None"

/-- The dump of each node of a list. -/
def dumps : List Node → List String
  | [] => []
  | n :: ns => dump n :: dumps ns

end

mutual

/-- Whether every integer in a node has a numeral of bounded length. -/
def fits : Node → Bool
  | .literal datum => datum.fits
  | .lookup _ => true
  | .branch c t e => fits c && fits t && fits e
  | .assign _ value => fits value
  | .lambda _ body => fitsAll body
  | .apply function args => fits function && fitsAll args
  | .hole => true

/-- Whether every integer in a list of nodes has a numeral of bounded length. -/
def fitsAll : List Node → Bool
  | [] => true
  | n :: ns => fits n && fitsAll ns

end

/-- The dump of a node, when all of its integers can be written. -/
def dump? (n : Node) : Option String :=
  if n.fits then some n.dump else none

end Node

end LineLisp
