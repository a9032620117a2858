/-
  LineLisp.Proofs.SourceText

  What source text holds. The tokens of a text are in their languages, so an expression
  that was read is readable: its names are symbols, its strings can stand in quotation
  marks and its integers have numerals of bounded length. Its lists are nested no deeper
  than the reader has room for. Conversely, the text of such an expression reads as this
  expression.
-/
import LineLisp.Proofs.RoundTrip
import LineLisp.Proofs.Tokenization

namespace LineLisp

open Grammar

variable {η : Type} {tokens : List Token} {source : String} {e : Expr} {es exprs : List Expr}

-- ============================================================================
-- What was read is readable
-- ============================================================================

/-- Every item has tokens of its own among those of the items. -/
theorem Grammar.Items.exists_expression (h : Items tokens es) (he : e ∈ es) :
    ∃ piece ⊆ tokens, Expression piece e := by
  induction es generalizing tokens with
  | nil => cases he
  | cons first es ih =>
    cases h with
    | last hfirst =>
      obtain rfl := List.mem_singleton.1 he
      exact ⟨tokens, List.Subset.refl _, hfirst⟩
    | @more tokens rest token _ _ hfirst _ hrest =>
      rcases List.mem_cons.1 he with rfl | he
      · exact ⟨tokens, List.subset_append_left _ _, hfirst⟩
      · obtain ⟨piece, hpiece, hexpr⟩ := ih hrest he
        refine ⟨piece, fun t ht => ?_, hexpr⟩
        exact List.mem_append_right _ (List.mem_cons_of_mem _ (hpiece ht))

theorem Grammar.Body.exists_expression (h : Body tokens es) (he : e ∈ es) :
    ∃ piece ⊆ tokens, Expression piece e := by
  cases h with
  | empty _ => cases he
  | items _ hitems _ =>
    obtain ⟨piece, hpiece, hexpr⟩ := hitems.exists_expression he
    refine ⟨piece, fun t ht => ?_, hexpr⟩
    exact List.mem_append_left _ (List.mem_append_right _ (hpiece ht))

theorem toList_innerText {text : String} {body : List Char}
    (h : text.toList = '"' :: body ++ ['"']) : (innerText text).toList = body := by
  rw [innerText, h, List.cons_append, List.drop_succ_cons, List.drop_zero, List.dropLast_concat,
    String.toList_ofList]

/-- What the grammar derives from tokens that are in their languages is readable. -/
theorem Grammar.Expression.readable (h : Expression tokens e)
    (hwf : ∀ token ∈ tokens, token.WellFormed) : e.Readable := by
  induction e generalizing tokens with
  | int n =>
    cases h with
    | number _ hread => exact .int (Numeral.fits_of_read?_eq_some hread)
  | sym name =>
    cases h with
    | @symbol token hkind =>
      have htoken : token.kind.Language token.text.toList := hwf token List.mem_cons_self
      rw [hkind] at htoken
      exact .sym htoken
  | str contents =>
    cases h with
    | @string token hkind =>
      have htoken : token.kind.Language token.text.toList := hwf token List.mem_cons_self
      rw [hkind] at htoken
      obtain ⟨body, hbody, htext⟩ := htoken
      exact .str (by rwa [toList_innerText htext])
  | hole => cases h
  | list items ih =>
    cases h with
    | list _ hbody _ =>
      refine .list fun e he => ?_
      obtain ⟨piece, hpiece, hexpr⟩ := hbody.exists_expression he
      refine ih e he hexpr fun token htoken => hwf token ?_
      exact List.mem_append_left _ (List.mem_cons_of_mem _ (hpiece htoken))

theorem readSource_eq_ok_iff :
    (readSource source : Except (Fault (Value η)) (List Expr)) = .ok exprs ↔
      ∃ tokens, tokenize source = .ok tokens ∧
        (Expr.readAll Expr.maxNesting tokens).1 = .ok exprs := by
  unfold readSource
  cases htokens : tokenize source with
  | error error => simp
  | ok tokens => cases hread : (Expr.readAll Expr.maxNesting tokens).1 <;> simp [hread]

/-- Expressions that stand in source text: readable, and nested no deeper than the reader
    has room for. -/
structure Expr.Sourced (e : Expr) : Prop where
  readable : e.Readable
  depth_le : e.depth ≤ Expr.maxNesting

theorem sourced_of_readSource
    (h : (readSource source : Except (Fault (Value η)) (List Expr)) = .ok exprs) :
    ∀ e ∈ exprs, e.Sourced := by
  obtain ⟨tokens, htokens, hread⟩ := readSource_eq_ok_iff.1 h
  obtain ⟨hbody, hdepth⟩ := (Reached.fresh tokens).sound hread
  intro e he
  obtain ⟨piece, hpiece, hexpr⟩ := hbody.exists_expression he
  refine ⟨hexpr.readable fun token htoken => ?_, hdepth e he⟩
  exact (tokenize_eq_ok_iff.1 htokens).wellFormed token (hpiece htoken)

-- ============================================================================
-- What is readable is read
-- ============================================================================

/-- The text of an expression that can stand in source text reads as this expression. -/
theorem Expr.Sourced.readSource_text (h : e.Sourced) :
    (readSource e.text : Except (Fault (Value η)) (List Expr)) = .ok [e] := by
  obtain ⟨tokens, htokens, hread⟩ := exists_tokenize_text h.readable
  refine readSource_eq_ok_iff.2 ⟨tokens, htokens, ?_⟩
  rw [hread Expr.maxNesting h.depth_le]

theorem Expr.Readable.ne_hole (h : e.Readable) : e ≠ .hole := by
  rintro rfl
  cases h

/-- All integers of a readable expression can be written. -/
theorem Expr.Readable.fits (h : e.Readable) : e.fits = true := by
  induction h with
  | int hfits => rwa [Expr.fits]
  | sym _ => rw [Expr.fits]
  | str _ => rw [Expr.fits]
  | list _ ih => exact Expr.fits_list.2 ih

end LineLisp
