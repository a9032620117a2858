/-
  LineLisp.Expr.Printer

  The source text of an expression.
-/
import LineLisp.Expr.Basic
import LineLisp.Written

namespace LineLisp.Expr

mutual

/-- The source text of an expression: strings keep their raw contents, and the
    items of a list have one space between them. -/
def text : Expr → String
  | .int n => Numeral.text n
  | .sym name => name
  | .str contents => "\"" ++ contents ++ "\""
  | .list items => "(" ++ " ".intercalate (texts items) ++ ")"
  | .hole => "None"

/-- The source text of each expression of a list. -/
def texts : List Expr → List String
  | [] => []
  | e :: es => text e :: texts es

end

mutual

/-- Whether every integer in an expression has a numeral of bounded length. -/
def fits : Expr → Bool
  | .int n => Numeral.fits n
  | .sym _ => true
  | .str _ => true
  | .list items => fitsAll items
  | .hole => true

/-- Whether every integer in a list of expressions has a numeral of bounded
    length. -/
def fitsAll : List Expr → Bool
  | [] => true
  | e :: es => fits e && fitsAll es

end

instance : Written Expr := ⟨text, fits⟩

-- ============================================================================
-- Lemmas
-- ============================================================================

@[simp] theorem texts_eq_map (es : List Expr) : texts es = es.map text := by
  induction es with
  | nil => rfl
  | cons e es ih => simp [texts, ih]

@[simp] theorem fitsAll_eq_all (es : List Expr) : fitsAll es = es.all fits := by
  induction es with
  | nil => rfl
  | cons e es ih => simp [fitsAll, ih]

theorem text_list (items : List Expr) :
    text (.list items) = "(" ++ " ".intercalate (items.map text) ++ ")" := by
  simp [text]

theorem fits_list {items : List Expr} :
    fits (.list items) = true ↔ ∀ e ∈ items, fits e = true := by
  simp [fits]

end LineLisp.Expr
