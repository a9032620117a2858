/-
  LineLisp.Proofs.Grammar

  The grammar of expressions over tokens, with the expressions that it derives:

    body       ::=  space? | space? items space?
    items      ::=  expression | expression space items
    expression ::=  symbol | string | number | '(' body ')'

  A source text is a body, and so is what stands between two parentheses. A
  number token counts if it holds a numeral that can be read. Tokens are taken as
  they are, so the grammar also speaks of lists that no text is cut into.
-/
import LineLisp.Expr.Reader

namespace LineLisp

-- ============================================================================
-- Nesting
-- ============================================================================

namespace Expr

mutual

/-- The number of lists around the innermost place of an expression. -/
def depth : Expr → Nat
  | .list items => depthAll items + 1
  | .int _ | .sym _ | .str _ | .hole => 0

/-- The depth of the deepest of some expressions. -/
def depthAll : List Expr → Nat
  | [] => 0
  | e :: es => max e.depth (depthAll es)

end

theorem depthAll_le_iff {es : List Expr} {n : Nat} :
    depthAll es ≤ n ↔ ∀ e ∈ es, e.depth ≤ n := by
  induction es with
  | nil => simp [depthAll]
  | cons e es ih =>
    rw [depthAll, Nat.max_le, ih, List.forall_mem_cons]

end Expr

/-- The tokens that are an expression by themselves, with this expression. -/
theorem Token.atom?_eq_ok_iff {token : Token} {e : Expr} :
    token.atom? = some (.ok e) ↔
      (token.kind = .symbol ∧ e = .sym token.text) ∨
      (token.kind = .string ∧ e = .str (innerText token.text)) ∨
      (token.kind = .number ∧ ∃ n, Numeral.read? token.text.toList = some n ∧ e = .int n) := by
  unfold Token.atom?
  cases hkind : token.kind with
  | number => cases hread : Numeral.read? token.text.toList <;> simp [eq_comm]
  | symbol => simp [eq_comm]
  | string => simp [eq_comm]
  | space => simp
  | openParen => simp
  | closeParen => simp

theorem Token.depth_of_atom? {token : Token} {e : Expr} (h : token.atom? = some (.ok e)) :
    e.depth = 0 := by
  rcases atom?_eq_ok_iff.1 h with ⟨-, rfl⟩ | ⟨-, rfl⟩ | ⟨-, n, -, rfl⟩
  · rw [Expr.depth]
  · rw [Expr.depth]
  · rw [Expr.depth]

-- ============================================================================
-- The grammar
-- ============================================================================

namespace Grammar

/-- One token of white space, or none. -/
inductive Gap : List Token → Prop where
  | none : Gap []
  | space {token : Token} (h : token.kind = .space) : Gap [token]

mutual

/-- The tokens of one expression. -/
inductive Expression : List Token → Expr → Prop where
  | symbol {token : Token} (h : token.kind = .symbol) : Expression [token] (.sym token.text)
  | string {token : Token} (h : token.kind = .string) :
    Expression [token] (.str (innerText token.text))
  | number {token : Token} {n : Int} (h : token.kind = .number)
    (hread : Numeral.read? token.text.toList = some n) : Expression [token] (.int n)
  | list {opening closing : Token} {tokens : List Token} {items : List Expr}
    (hopening : opening.kind = .openParen) (hbody : Body tokens items)
    (hclosing : closing.kind = .closeParen) :
    Expression (opening :: tokens ++ [closing]) (.list items)

/-- The tokens of one or more expressions, one space token between neighbours. -/
inductive Items : List Token → List Expr → Prop where
  | last {tokens : List Token} {e : Expr} (h : Expression tokens e) : Items tokens [e]
  | more {tokens rest : List Token} {token : Token} {e : Expr} {es : List Expr}
    (h : Expression tokens e) (hspace : token.kind = .space) (hrest : Items rest es) :
    Items (tokens ++ token :: rest) (e :: es)

/-- The tokens of any number of expressions, with white space around them. -/
inductive Body : List Token → List Expr → Prop where
  | empty {tokens : List Token} (h : Gap tokens) : Body tokens []
  | items {before tokens after : List Token} {es : List Expr} (hbefore : Gap before)
    (h : Items tokens es) (hafter : Gap after) : Body (before ++ tokens ++ after) es

end

/-- What a token stands for by itself is what the grammar derives from it. -/
theorem Expression.of_atom? {token : Token} {e : Expr} (h : token.atom? = some (.ok e)) :
    Expression [token] e := by
  rcases Token.atom?_eq_ok_iff.1 h with ⟨hkind, rfl⟩ | ⟨hkind, rfl⟩ | ⟨hkind, n, hread, rfl⟩
  · exact .symbol hkind
  · exact .string hkind
  · exact .number hkind hread

theorem Items.ne_nil {tokens : List Token} {es : List Expr} (h : Items tokens es) : es ≠ [] := by
  cases h with
  | last _ => exact List.cons_ne_nil _ _
  | more _ _ _ => exact List.cons_ne_nil _ _

/-- Items go on with others behind a space. -/
theorem Items.append {tokens rest : List Token} {token : Token} {es es' : List Expr}
    (h : Items tokens es) (hspace : token.kind = .space) (hrest : Items rest es') :
    Items (tokens ++ token :: rest) (es ++ es') := by
  induction es generalizing tokens with
  | nil => exact absurd rfl h.ne_nil
  | cons e es ih =>
    cases h with
    | last hfirst => exact .more hfirst hspace hrest
    | more hfirst hspace' hothers =>
      rw [List.append_assoc, List.cons_append]
      exact .more hfirst hspace' (ih hothers)

end Grammar

end LineLisp
