/-
  LineLisp.Proofs.RoundTrip

  Reading undoes printing. The grammar puts a space or a parenthesis between any
  two neighbours that could be read as one token, so tokens that it derives
  expressions from are what their text is cut into. The text of an expression is
  the text of such tokens, and so is any layout of several expressions with
  blanks between them; therefore both read back as what they were made from.
-/
import LineLisp.Proofs.Munch
import LineLisp.Proofs.Reading
import LineLisp.Session

namespace LineLisp

open Grammar

variable {tokens before after rest : List Token} {opening closing token : Token} {e : Expr}
  {es : List Expr}

-- ============================================================================
-- The grammar keeps tokens apart
-- ============================================================================

/-- Neighbours of kinds that cannot be read as one token. -/
def KindsApart (token next : Token) : Prop :=
  TokenKind.mayFuse token.kind next.kind = false

/-- Tokens in which no two neighbours can fuse, with no space at either end. -/
structure Solid (tokens : List Token) : Prop where
  ne_nil : tokens ≠ []
  chain : tokens.IsChain KindsApart
  head : ∀ token ∈ tokens.head?, token.kind ≠ .space
  last : ∀ token ∈ tokens.getLast?, token.kind ≠ .space

namespace Solid

theorem singleton (h : token.kind ≠ .space) : Solid [token] where
  ne_nil := List.cons_ne_nil _ _
  chain := .singleton token
  head := by simpa using h
  last := by simpa using h

theorem append_space (h : Solid tokens) (hspace : token.kind = .space) (hrest : Solid rest) :
    Solid (tokens ++ token :: rest) where
  ne_nil := by simp
  chain := by
    refine h.chain.append (List.isChain_cons.2 ⟨fun next hnext => ?_, hrest.chain⟩) ?_
    · rw [KindsApart, hspace]
      exact TokenKind.mayFuse_space_left (hrest.head next hnext)
    · intro last hlast next hnext
      obtain rfl : token = next := by simpa using hnext
      rw [KindsApart, hspace]
      exact TokenKind.mayFuse_space_right (h.last last hlast)
  head := by
    intro first hfirst
    rw [List.head?_append_of_ne_nil _ h.ne_nil] at hfirst
    exact h.head first hfirst
  last := by
    intro last hlast
    have hne : token :: rest ≠ [] := List.cons_ne_nil _ _
    rw [List.getLast?_append_of_ne_nil _ hne, List.getLast?_cons_of_ne_nil hrest.ne_nil] at hlast
    exact hrest.last last hlast

/-- White space at either end does not make neighbours that can fuse. -/
theorem chain_of_gaps (h : Solid tokens) (hbefore : Gap before) (hafter : Gap after) :
    (before ++ tokens ++ after).IsChain KindsApart := by
  have hright : (tokens ++ after).IsChain KindsApart := by
    cases hafter with
    | none =>
      rw [List.append_nil]
      exact h.chain
    | @space gap hspace =>
      refine h.chain.append (.singleton gap) fun last hlast next hnext => ?_
      obtain rfl : gap = next := by simpa using hnext
      rw [KindsApart, hspace]
      exact TokenKind.mayFuse_space_right (h.last last hlast)
  rw [List.append_assoc]
  cases hbefore with
  | none => exact hright
  | @space gap hspace =>
    rw [List.singleton_append]
    refine List.isChain_cons.2 ⟨fun next hnext => ?_, hright⟩
    rw [List.head?_append_of_ne_nil _ h.ne_nil] at hnext
    rw [KindsApart, hspace]
    exact TokenKind.mayFuse_space_left (h.head next hnext)

end Solid

/-- No token fuses with a parenthesis around it. -/
theorem solid_list (h : tokens.IsChain KindsApart) (hopening : opening.kind = .openParen)
    (hclosing : closing.kind = .closeParen) : Solid (opening :: tokens ++ [closing]) where
  ne_nil := by simp
  chain := by
    refine List.IsChain.append (List.isChain_cons.2 ⟨fun next _ => ?_, h⟩) (.singleton closing) ?_
    · rw [KindsApart, hopening]
      exact TokenKind.mayFuse_openParen next.kind
    · intro last _ next hnext
      obtain rfl : closing = next := by simpa using hnext
      rw [KindsApart, hclosing]
      exact TokenKind.mayFuse_closeParen last.kind
  head := by simp [hopening]
  last := by
    intro last hlast
    rw [List.getLast?_concat] at hlast
    obtain rfl : closing = last := Option.some.inj hlast
    simp [hclosing]

theorem Grammar.Items.solid (h : Items tokens es)
    (hes : ∀ e ∈ es, ∀ tokens, Expression tokens e → Solid tokens) : Solid tokens := by
  induction es generalizing tokens with
  | nil => exact absurd rfl h.ne_nil
  | cons e es ih =>
    obtain ⟨he, hes⟩ := List.forall_mem_cons.1 hes
    cases h with
    | last hfirst => exact he tokens hfirst
    | more hfirst hspace hrest => exact (he _ hfirst).append_space hspace (ih hrest hes)

theorem Grammar.Body.chain (h : Body tokens es)
    (hes : ∀ e ∈ es, ∀ tokens, Expression tokens e → Solid tokens) :
    tokens.IsChain KindsApart := by
  cases h with
  | empty hgap =>
    cases hgap with
    | none => exact .nil
    | space _ => exact .singleton _
  | items hbefore hitems hafter => exact (hitems.solid hes).chain_of_gaps hbefore hafter

theorem Grammar.Expression.solid (h : Expression tokens e) : Solid tokens := by
  induction e generalizing tokens with
  | int n =>
    cases h with
    | number hkind _ => exact .singleton (by simp [hkind])
  | sym name =>
    cases h with
    | symbol hkind => exact .singleton (by simp [hkind])
  | str contents =>
    cases h with
    | string hkind => exact .singleton (by simp [hkind])
  | hole => cases h
  | list items ih =>
    cases h with
    | list hopening hbody hclosing =>
      exact solid_list (hbody.chain fun e he tokens h => ih e he h) hopening hclosing

/-- Tokens from which the grammar derives something are what their text is cut into,
    as soon as each of them is in its language. -/
theorem Grammar.Body.munched (h : Body tokens es) (hwf : ∀ token ∈ tokens, token.WellFormed) :
    Munched tokens where
  wellFormed := hwf
  apart := by
    refine (h.chain fun e _ tokens he => he.solid).imp_of_mem_imp fun token next _ hnext hkinds => ?_
    exact Token.apart_of_mayFuse (hwf next hnext) hkinds

-- ============================================================================
-- Printed expressions
-- ============================================================================

/-- Expressions that source text can hold: names that are symbols, contents that can
    stand in quotation marks, and integers with a numeral of bounded length. -/
inductive Expr.Readable : Expr → Prop where
  | int {n : Int} (h : Numeral.fits n = true) : Readable (.int n)
  | sym {name : String} (h : TokenKind.symbol.Language name.toList) : Readable (.sym name)
  | str {contents : String} (h : StringBody contents.toList) : Readable (.str contents)
  | list {items : List Expr} (h : ∀ e ∈ items, Readable e) : Readable (.list items)

/-- Expressions in order, each with the blanks behind it, after some blanks: a way to
    write them down. -/
def layout (before : String) (rows : List (Expr × String)) : String :=
  before ++ String.join (rows.map fun row => row.1.text ++ row.2)

/-- Layouts with blanks for gaps, of which those between two expressions are not
    empty. -/
structure IsLayout (before : String) (rows : List (Expr × String)) : Prop where
  before_blank : Text.isBlankLine before = true
  gap_blank : ∀ row ∈ rows, Text.isBlankLine row.2 = true
  gap_ne : ∀ row ∈ rows.dropLast, row.2 ≠ ""

/-- Tokens that are each in their language and together have this text. -/
structure TokensOf (text : List Char) (tokens : List Token) : Prop where
  wellFormed : ∀ token ∈ tokens, token.WellFormed
  source : Token.source tokens = text

namespace TokensOf

variable {text text' : List Char}

theorem singleton (h : token.WellFormed) : TokensOf token.text.toList [token] where
  wellFormed := by simpa using h
  source := by rw [Token.source_cons, Token.source_nil, List.append_nil]

theorem append (h : TokensOf text tokens) (hrest : TokensOf text' rest) :
    TokensOf (text ++ text') (tokens ++ rest) where
  wellFormed := by
    intro token htoken
    rcases List.mem_append.1 htoken with htoken | htoken
    · exact h.wellFormed token htoken
    · exact hrest.wellFormed token htoken
  source := by rw [Token.source_append, h.source, hrest.source]

end TokensOf

/-- Blanks are one token, if there are any. -/
theorem exists_gap {gap : String} (h : Text.isBlankLine gap = true) (hne : gap ≠ "") :
    ∃ token : Token, token.kind = .space ∧ TokensOf gap.toList [token] := by
  have hchars : gap.toList ≠ [] := fun hnil => hne (String.toList_eq_nil_iff.1 hnil)
  have hspace : (⟨.space, gap⟩ : Token).WellFormed := ⟨hchars, Text.isBlankLine_iff.1 h⟩
  exact ⟨⟨.space, gap⟩, rfl, .singleton hspace⟩

theorem exists_gap_or_none {gap : String} (h : Text.isBlankLine gap = true) :
    ∃ tokens, Gap tokens ∧ TokensOf gap.toList tokens := by
  by_cases hne : gap = ""
  · subst hne
    exact ⟨[], .none, nofun, rfl⟩
  · obtain ⟨token, hspace, htoken⟩ := exists_gap h hne
    exact ⟨[token], .space hspace, htoken⟩

/-- An expression that has tokens. -/
def Expr.HasTokens (e : Expr) : Prop :=
  ∃ tokens, Expression tokens e ∧ TokensOf e.text.toList tokens

/-- The text of rows, one behind the other. -/
def rowsText (rows : List (Expr × String)) : List Char :=
  rows.flatMap fun row => row.1.text.toList ++ row.2.toList

/-- Rows of expressions that have tokens are items with white space behind them. -/
theorem exists_items {rows : List (Expr × String)} (hne : rows ≠ [])
    (hrows : ∀ row ∈ rows, row.1.HasTokens)
    (hblank : ∀ row ∈ rows, Text.isBlankLine row.2 = true)
    (hgap : ∀ row ∈ rows.dropLast, row.2 ≠ "") :
    ∃ items after, Items items (rows.map Prod.fst) ∧ Gap after ∧
      TokensOf (rowsText rows) (items ++ after) := by
  induction rows with
  | nil => exact absurd rfl hne
  | cons row rows ih =>
    obtain ⟨⟨first, hfirst, hfirsttext⟩, hrows⟩ := List.forall_mem_cons.1 hrows
    obtain ⟨hblankrow, hblank⟩ := List.forall_mem_cons.1 hblank
    cases rows with
    | nil =>
      obtain ⟨after, hafter, haftertext⟩ := exists_gap_or_none hblankrow
      refine ⟨first, after, .last hfirst, hafter, ?_⟩
      rw [rowsText, List.flatMap_singleton]
      exact hfirsttext.append haftertext
    | cons next rows =>
      obtain ⟨hgaprow, hgap⟩ := List.forall_mem_cons.1 hgap
      obtain ⟨token, hspace, htoken⟩ := exists_gap hblankrow hgaprow
      obtain ⟨items, after, hitems, hafter, hrest⟩ := ih (by simp) hrows hblank hgap
      refine ⟨first ++ token :: items, after, .more hfirst hspace hitems, hafter, ?_⟩
      have hrow : TokensOf (row.1.text.toList ++ row.2.toList) (first ++ [token]) :=
        hfirsttext.append htoken
      have htokens : first ++ token :: items ++ after = (first ++ [token]) ++ (items ++ after) := by
        simp
      rw [htokens]
      exact hrow.append hrest

theorem toList_layout (before : String) (rows : List (Expr × String)) :
    (layout before rows).toList = before.toList ++ rowsText rows := by
  rw [layout, String.toList_append, String.toList_join, List.flatMap_map, rowsText]
  congr
  funext row
  exact String.toList_append

/-- The tokens of a layout make up a body. -/
theorem exists_body {before : String} {rows : List (Expr × String)} (h : IsLayout before rows)
    (hrows : ∀ row ∈ rows, row.1.HasTokens) :
    ∃ tokens, Body tokens (rows.map Prod.fst) ∧ TokensOf (layout before rows).toList tokens := by
  obtain ⟨gap, hgap, hgaptext⟩ := exists_gap_or_none h.before_blank
  rw [toList_layout]
  by_cases hne : rows = []
  · subst hne
    refine ⟨gap, .empty hgap, ?_⟩
    rw [rowsText, List.flatMap_nil, List.append_nil]
    exact hgaptext
  · obtain ⟨items, after, hitems, hafter, htext⟩ := exists_items hne hrows h.gap_blank h.gap_ne
    refine ⟨gap ++ items ++ after, .items hgap hitems hafter, ?_⟩
    rw [List.append_assoc]
    exact hgaptext.append htext

/-- The rows in which the items of a list are printed. -/
def printedRows : List Expr → List (Expr × String)
  | [] => []
  | [e] => [(e, "")]
  | e :: next :: es => (e, " ") :: printedRows (next :: es)

theorem map_fst_printedRows (es : List Expr) : (printedRows es).map Prod.fst = es := by
  fun_induction printedRows es with
  | case1 => rfl
  | case2 e => rfl
  | case3 e next es ih => rw [List.map_cons, ih]

theorem layout_printedRows (es : List Expr) :
    layout "" (printedRows es) = " ".intercalate (es.map Expr.text) := by
  rw [layout, String.empty_append]
  fun_induction printedRows es with
  | case1 => rfl
  | case2 e => simp
  | case3 e next es ih =>
    rw [List.map_cons, String.join_cons, ih]
    simp only [List.map_cons, String.intercalate_cons_cons]

theorem isLayout_printedRows (es : List Expr) : IsLayout "" (printedRows es) where
  before_blank := rfl
  gap_blank := by
    fun_induction printedRows es with
    | case1 => nofun
    | case2 e => simp
    | case3 e next es ih =>
      have hspace : Text.isBlankLine " " = true := by decide
      exact List.forall_mem_cons.2 ⟨hspace, ih⟩
  gap_ne := by
    fun_induction printedRows es with
    | case1 => nofun
    | case2 e => nofun
    | case3 e next es ih =>
      have hspace : (e, " ").2 ≠ "" := by simp
      have hne : printedRows (next :: es) ≠ [] := by
        cases es with
        | nil => exact List.cons_ne_nil _ _
        | cons _ _ => exact List.cons_ne_nil _ _
      rw [List.dropLast_cons_of_ne_nil hne]
      exact List.forall_mem_cons.2 ⟨hspace, ih⟩

theorem wellFormed_number (n : Int) : (⟨.number, Numeral.text n⟩ : Token).WellFormed := by
  cases n with
  | ofNat m =>
    refine ⟨Nat.toDigits 10 m, Nat.toDigits_ne_nil, fun c hc => ?_, .inl ?_⟩
    · exact Numeral.isDigit_of_mem_toDigits hc
    · exact Numeral.toList_text_ofNat m
  | negSucc m =>
    refine ⟨Nat.toDigits 10 (m + 1), Nat.toDigits_ne_nil, fun c hc => ?_, .inr ?_⟩
    · exact Numeral.isDigit_of_mem_toDigits hc
    · exact Numeral.toList_text_negSucc m

theorem wellFormed_openParen : (⟨.openParen, "("⟩ : Token).WellFormed := by
  show "(".toList = ['(']
  rfl

theorem wellFormed_closeParen : (⟨.closeParen, ")"⟩ : Token).WellFormed := by
  show ")".toList = [')']
  rfl

theorem toList_quoted (contents : String) :
    ("\"" ++ contents ++ "\"").toList = '"' :: contents.toList ++ ['"'] := by
  simp

theorem innerText_quoted (contents : String) : innerText ("\"" ++ contents ++ "\"") = contents := by
  rw [innerText, toList_quoted, List.cons_append, List.drop_succ_cons, List.drop_zero,
    List.dropLast_concat, String.ofList_toList]

/-- An expression that source text can hold has tokens with its text. -/
theorem Expr.Readable.hasTokens (h : e.Readable) : e.HasTokens := by
  induction e with
  | int n =>
    cases h with
    | int hfits =>
      refine ⟨[⟨.number, Numeral.text n⟩], .number rfl (Numeral.read?_text hfits), ?_⟩
      exact .singleton (wellFormed_number n)
  | sym name =>
    cases h with
    | sym hname =>
      have hwf : (⟨.symbol, name⟩ : Token).WellFormed := hname
      exact ⟨[⟨.symbol, name⟩], .symbol rfl, .singleton hwf⟩
  | str contents =>
    cases h with
    | str hcontents =>
      let token : Token := ⟨.string, "\"" ++ contents ++ "\""⟩
      have hwf : token.WellFormed := ⟨contents.toList, hcontents, toList_quoted contents⟩
      have hexpr : Expression [token] (.str (innerText token.text)) := .string rfl
      rw [innerText_quoted] at hexpr
      exact ⟨[token], hexpr, .singleton hwf⟩
  | hole => cases h
  | list items ih =>
    cases h with
    | list hitems =>
      have hrows : ∀ row ∈ printedRows items, row.1.HasTokens := by
        intro row hrow
        have hmem : row.1 ∈ items := by
          rw [← map_fst_printedRows items]
          exact List.mem_map_of_mem hrow
        exact ih row.1 hmem (hitems row.1 hmem)
      obtain ⟨tokens, hbody, htext⟩ := exists_body (isLayout_printedRows items) hrows
      rw [map_fst_printedRows] at hbody
      rw [layout_printedRows] at htext
      have hopening : TokensOf "(".toList [⟨.openParen, "("⟩] := .singleton wellFormed_openParen
      have hclosing : TokensOf ")".toList [⟨.closeParen, ")"⟩] := .singleton wellFormed_closeParen
      refine ⟨⟨.openParen, "("⟩ :: tokens ++ [⟨.closeParen, ")"⟩], .list rfl hbody rfl, ?_⟩
      rw [Expr.text_list, String.toList_append, String.toList_append]
      exact (hopening.append htext).append hclosing

-- ============================================================================
-- The theorem
-- ============================================================================

/-- Every layout of readable expressions is cut into tokens that read as them, given
    room for their lists. -/
theorem exists_tokenize_layout {before : String} {rows : List (Expr × String)}
    (h : IsLayout before rows) (hrows : ∀ row ∈ rows, row.1.Readable) :
    ∃ tokens, tokenize (layout before rows) = .ok tokens ∧
      ∀ limit, (∀ row ∈ rows, row.1.depth ≤ limit) →
        Expr.readAll limit tokens = (.ok (rows.map Prod.fst), []) := by
  obtain ⟨tokens, hbody, htext⟩ := exists_body h fun row hrow => (hrows row hrow).hasTokens
  have hmunched : Munched tokens := hbody.munched htext.wellFormed
  refine ⟨tokens, hmunched.tokenize htext.source.symm, fun limit hdepth => ?_⟩
  refine hbody.readAll fun e he => ?_
  obtain ⟨row, hrow, rfl⟩ := List.mem_map.1 he
  exact hdepth row hrow

/-- A readable expression by itself is a layout. -/
theorem exists_tokenize_text (h : e.Readable) :
    ∃ tokens, tokenize e.text = .ok tokens ∧
      ∀ limit, e.depth ≤ limit → Expr.readAll limit tokens = (.ok [e], []) := by
  have hlayout : IsLayout "" [(e, "")] := ⟨rfl, by simp, nofun⟩
  obtain ⟨tokens, htokens, hread⟩ := exists_tokenize_layout hlayout (by simpa using h)
  have htext : layout "" [(e, "")] = e.text := by simp [layout]
  rw [htext] at htokens
  exact ⟨tokens, htokens, fun limit hdepth => hread limit (by simpa using hdepth)⟩

/-- Reading undoes printing. The texts of readable expressions, with blanks between
    them and around them, read as these expressions wherever there is room for their
    lists, and as source text in particular; and no two readable expressions have the
    same text. -/
theorem reading_undoes_printing {η : Type} :
    (∀ (before : String) (rows : List (Expr × String)), IsLayout before rows →
      (∀ row ∈ rows, row.1.Readable) →
        (∃ tokens, tokenize (layout before rows) = .ok tokens ∧
          ∀ limit, (∀ row ∈ rows, row.1.depth ≤ limit) →
            Expr.readAll limit tokens = (.ok (rows.map Prod.fst), [])) ∧
        ((∀ row ∈ rows, row.1.depth ≤ Expr.maxNesting) →
          (readSource (layout before rows) : Except (Fault (Value η)) (List Expr)) =
            .ok (rows.map Prod.fst))) ∧
    (∀ e e' : Expr, e.Readable → e'.Readable → e.text = e'.text → e = e') := by
  constructor
  · intro before rows hlayout hrows
    obtain ⟨tokens, htokens, hread⟩ := exists_tokenize_layout hlayout hrows
    refine ⟨⟨tokens, htokens, hread⟩, fun hdepth => ?_⟩
    simp only [readSource, htokens, hread Expr.maxNesting hdepth]
  · intro e e' h h' heq
    obtain ⟨tokens, htokens, hread⟩ := exists_tokenize_text h
    obtain ⟨tokens', htokens', hread'⟩ := exists_tokenize_text h'
    rw [heq, htokens'] at htokens
    obtain rfl : tokens' = tokens := Except.ok.inj htokens
    have hsame := hread (max e.depth e'.depth) (Nat.le_max_left _ _)
    rw [hread' _ (Nat.le_max_right _ _)] at hsame
    exact (List.cons.inj (Except.ok.inj (congrArg Prod.fst hsame))).1.symm

/-- A list with an escaped quotation mark in it and a negative number, on two lines:
    both are read back. -/
theorem escaped_string_reads_back :
    let e : Expr := .list [.sym "a-1", .str "x\\\"y", .list []]
    let rows : List (Expr × String) := [(e, " \n"), (.int (-5), "")]
    let read : Except (Fault (Value Empty)) (List Expr) := readSource (layout "\t" rows)
    layout "\t" rows = "\t(a-1 \"x\\\"y\" ()) \n-5" ∧ IsLayout "\t" rows ∧
      (∀ row ∈ rows, row.1.Readable) ∧ read.toOption = some [e, .int (-5)] := by
  intro e rows read
  have htext : layout "\t" rows = "\t(a-1 \"x\\\"y\" ()) \n-5" := by decide +kernel
  have hlayout : IsLayout "\t" rows := ⟨by decide, by decide, by decide⟩
  have hfits : Numeral.fits (-5) = true :=
    Numeral.fits_iff.2 (Nat.lt_of_lt_of_le (by decide : 5 < Nat.pow 10 1)
      (Numeral.pow_le_bound (by decide)))
  have hparts : ['-', '1'].all isSymbolPart = true := by decide
  have hsym : (Expr.sym "a-1").Readable :=
    .sym ⟨'a', ['-', '1'], by decide, List.all_eq_true.1 hparts, rfl⟩
  have hstr : (Expr.str "x\\\"y").Readable :=
    .str (.char (by decide) (by decide) (.quote (.char (by decide) (by decide) .nil)))
  have he : e.Readable := .list (by simp [hsym, hstr, Expr.Readable.list])
  have hrows : ∀ row ∈ rows, row.1.Readable := by simp [rows, he, Expr.Readable.int hfits]
  have hread : read = .ok [e, .int (-5)] :=
    (reading_undoes_printing.1 "\t" rows hlayout hrows).2 (by decide)
  exact ⟨htext, hlayout, hrows, by rw [hread]; rfl⟩

end LineLisp
