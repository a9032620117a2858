/-
  LineLisp.Proofs.Reading

  The reader accepts exactly the grammar. Where the tokens of an expression come
  next and an expression may begin, the reader takes them and has the expression;
  so whatever the grammar derives is read, as long as there is room for its
  lists. Conversely, what was read of every open sequence is at any time derived
  from the tokens since its beginning, and so is the result at the end.
-/
import LineLisp.Proofs.Grammar

namespace LineLisp

open Grammar

variable {limit : Nat} {single : Bool} {level parent : Level} {outer others : List Level}
  {token opening closing : Token} {tokens before after rest : List Token} {e : Expr}
  {es : List Expr}

-- ============================================================================
-- One token
-- ============================================================================

namespace Expr

theorem readLevels_space (hkind : token.kind = .space) (hspaced : level.spaced = false) :
    readLevels limit single level outer (token :: rest) =
      readLevels limit single level.space outer rest := by
  simp [readLevels, hkind, hspaced]

theorem readLevels_open (hkind : token.kind = .openParen) (hready : level.ready = true)
    (hroom : outer.length < limit) :
    readLevels limit single level outer (token :: rest) =
      readLevels limit single (.fresh (token :: rest)) (level :: outer) rest := by
  simp [readLevels, hkind, hready, hroom]

theorem readLevels_close (hkind : token.kind = .closeParen) :
    readLevels limit single level (parent :: others) (token :: rest) =
      if single && others.isEmpty then (.ok [.list level.items.reverse], rest)
      else readLevels limit single (parent.push (.list level.items.reverse)) others rest := by
  simp [readLevels, hkind]

theorem readLevels_atom (hatom : token.atom? = some (.ok e)) (hready : level.ready = true) :
    readLevels limit single level outer (token :: rest) =
      if single && outer.isEmpty then (.ok [e], rest)
      else readLevels limit single (level.push e) outer rest := by
  rcases Token.atom?_eq_ok_iff.1 hatom with ⟨hkind, -⟩ | ⟨hkind, -⟩ | ⟨hkind, -⟩
  · simp [readLevels, hkind, hready, hatom]
  · simp [readLevels, hkind, hready, hatom]
  · simp [readLevels, hkind, hready, hatom]

end Expr

-- ============================================================================
-- What is derived is read
-- ============================================================================

/-- Where these tokens come next and an expression may begin, the reader takes them
    for this expression. -/
def ReadsAs (tokens : List Token) (e : Expr) : Prop :=
  ∀ (limit : Nat) (single : Bool) (level : Level) (outer : List Level) (rest : List Token),
    level.ready = true → outer.length + e.depth ≤ limit →
      Expr.readLevels limit single level outer (tokens ++ rest) =
        if single && outer.isEmpty then (.ok [e], rest)
        else Expr.readLevels limit single (level.push e) outer rest

theorem readsAs_atom (h : token.atom? = some (.ok e)) : ReadsAs [token] e :=
  fun _ _ _ _ _ hready _ => Expr.readLevels_atom h hready

/-- The reader takes the tokens of items one by one, within a sequence that goes on. -/
theorem readLevels_items (h : Items tokens es)
    (hes : ∀ e ∈ es, ∀ tokens, Expression tokens e → ReadsAs tokens e)
    (hready : level.ready = true) (hroom : ∀ e ∈ es, outer.length + e.depth ≤ limit)
    (hopen : (single && outer.isEmpty) = false) :
    Expr.readLevels limit single level outer (tokens ++ rest) =
      Expr.readLevels limit single ⟨level.start, es.reverse ++ level.items, false⟩ outer rest := by
  induction es generalizing tokens level with
  | nil => exact absurd rfl h.ne_nil
  | cons e es ih =>
    obtain ⟨he, hes⟩ := List.forall_mem_cons.1 hes
    obtain ⟨hroome, hroom⟩ := List.forall_mem_cons.1 hroom
    cases h with
    | last hfirst =>
      rw [he tokens hfirst limit single level outer rest hready hroome, hopen]
      rfl
    | @more tokens others token _ _ hfirst hspace hrest =>
      rw [List.append_assoc, List.cons_append,
        he tokens hfirst limit single level outer _ hready hroome, hopen]
      have hready' : (level.push e).space.ready = true := by simp [Level.ready, Level.space]
      show Expr.readLevels limit single (level.push e) outer (token :: (others ++ rest)) = _
      rw [Expr.readLevels_space hspace rfl, ih hrest hes hready' hroom]
      simp [Level.space, Level.push]

theorem readLevels_gap (h : Gap tokens) (start : List Token) (items : List Expr)
    (rest : List Token) :
    ∃ spaced, Expr.readLevels limit single ⟨start, items, false⟩ outer (tokens ++ rest) =
      Expr.readLevels limit single ⟨start, items, spaced⟩ outer rest := by
  cases h with
  | none => exact ⟨false, rfl⟩
  | space hkind =>
    refine ⟨true, ?_⟩
    rw [List.singleton_append, Expr.readLevels_space hkind rfl]
    rfl

/-- The reader takes the tokens of a body from the beginning of a sequence on. -/
theorem readLevels_body (h : Body tokens es)
    (hes : ∀ e ∈ es, ∀ tokens, Expression tokens e → ReadsAs tokens e)
    (hroom : ∀ e ∈ es, outer.length + e.depth ≤ limit)
    (hopen : (single && outer.isEmpty) = false) (start rest : List Token) :
    ∃ spaced, Expr.readLevels limit single (.fresh start) outer (tokens ++ rest) =
      Expr.readLevels limit single ⟨start, es.reverse, spaced⟩ outer rest := by
  cases h with
  | empty hgap => exact readLevels_gap hgap start [] rest
  | @items before tokens after _ hbefore hitems hafter =>
    rw [List.append_assoc, List.append_assoc, Level.fresh]
    obtain ⟨spaced, hfirst⟩ : ∃ spaced,
        Expr.readLevels limit single ⟨start, [], false⟩ outer (before ++ (tokens ++ (after ++ rest)))
          = Expr.readLevels limit single ⟨start, [], spaced⟩ outer (tokens ++ (after ++ rest)) :=
      readLevels_gap hbefore start [] _
    have hready : Level.ready ⟨start, [], spaced⟩ = true := rfl
    rw [hfirst, readLevels_items hitems hes hready hroom hopen, List.append_nil]
    exact readLevels_gap hafter start es.reverse rest

/-- Whatever tokens an expression has, the reader takes them for it. -/
theorem Grammar.Expression.readsAs (h : Expression tokens e) : ReadsAs tokens e := by
  induction e generalizing tokens with
  | int n =>
    cases h with
    | number hkind hread =>
      exact readsAs_atom (Token.atom?_eq_ok_iff.2 (.inr (.inr ⟨hkind, n, hread, rfl⟩)))
  | sym name =>
    cases h with
    | symbol hkind => exact readsAs_atom (Token.atom?_eq_ok_iff.2 (.inl ⟨hkind, rfl⟩))
  | str contents =>
    cases h with
    | string hkind => exact readsAs_atom (Token.atom?_eq_ok_iff.2 (.inr (.inl ⟨hkind, rfl⟩)))
  | hole => cases h
  | list items ih =>
    cases h with
    | @list opening closing tokens _ hopening hbody hclosing =>
      intro limit single level outer rest hready hroom
      have hlt : outer.length < limit := by
        rw [Expr.depth] at hroom
        omega
      have hinner : ∀ e ∈ items, (level :: outer).length + e.depth ≤ limit := by
        intro e he
        rw [Expr.depth] at hroom
        have hdepth : e.depth ≤ Expr.depthAll items := Expr.depthAll_le_iff.1 (Nat.le_refl _) e he
        rw [List.length_cons]
        omega
      have hopen : (single && (level :: outer).isEmpty) = false := by simp
      obtain ⟨spaced, hread⟩ := readLevels_body hbody (fun e he tokens h => ih e he h) hinner hopen
        (opening :: (tokens ++ closing :: rest)) (closing :: rest)
      rw [List.cons_append, List.cons_append, List.append_assoc, List.singleton_append,
        Expr.readLevels_open hopening hready hlt, hread, Expr.readLevels_close hclosing,
        List.reverse_reverse]

-- ============================================================================
-- What is read is derived
-- ============================================================================

/-- The space behind the expressions of a sequence, if one was read. -/
inductive Trailing : Bool → List Token → Prop where
  | none : Trailing false []
  | space {token : Token} (h : token.kind = .space) : Trailing true [token]

/-- A sequence that was read from these tokens, up to now. -/
inductive Opened : List Token → Level → Prop where
  | empty {tokens : List Token} {level : Level} (hitems : level.items = [])
    (h : Trailing level.spaced tokens) : Opened tokens level
  | items {before tokens after : List Token} {level : Level} (hbefore : Gap before)
    (h : Items tokens level.items.reverse) (hafter : Trailing level.spaced after) :
    Opened (before ++ tokens ++ after) level

theorem Trailing.gap {spaced : Bool} (h : Trailing spaced tokens) : Gap tokens := by
  cases h with
  | none => exact .none
  | space hkind => exact .space hkind

theorem Trailing.append_space (h : Trailing false tokens) (hkind : token.kind = .space) :
    Trailing true (tokens ++ [token]) := by
  cases h with
  | none => exact .space hkind

namespace Opened

theorem fresh (start : List Token) : Opened [] (.fresh start) := .empty rfl .none

theorem body (h : Opened tokens level) : Body tokens level.items.reverse := by
  cases h with
  | empty hitems hgap =>
    rw [hitems]
    exact .empty hgap.gap
  | items hbefore hitems hafter => exact .items hbefore hitems hafter.gap

theorem space (h : Opened tokens level) (hspaced : level.spaced = false)
    (hkind : token.kind = .space) : Opened (tokens ++ [token]) level.space := by
  cases h with
  | empty hitems hgap =>
    rw [hspaced] at hgap
    exact .empty hitems (hgap.append_space hkind)
  | @items before tokens after _ hbefore hitems hafter =>
    rw [hspaced] at hafter
    rw [List.append_assoc]
    exact .items hbefore hitems (hafter.append_space hkind)

theorem push (h : Opened tokens level) (hready : level.ready = true)
    (he : Expression rest e) : Opened (tokens ++ rest) (level.push e) := by
  cases h with
  | empty hitems hgap =>
    have hlast : Items rest (level.push e).items.reverse := by
      rw [Level.push, hitems]
      exact .last he
    have hopened : Opened (tokens ++ rest ++ []) (level.push e) := .items hgap.gap hlast .none
    rwa [List.append_nil] at hopened
  | @items before tokens after _ hbefore hitems hafter =>
    -- Behind items an expression may begin only after a space.
    have hspaced : level.spaced = true := by
      have hne : level.items ≠ [] := fun hnil => hitems.ne_nil (by rw [hnil, List.reverse_nil])
      simpa [Level.ready, hne] using hready
    rw [hspaced] at hafter
    cases hafter with
    | @space token hkind =>
      have hmore : Items (tokens ++ token :: rest) (level.push e).items.reverse := by
        rw [Level.push, List.reverse_cons]
        exact hitems.append hkind (.last he)
      have hopened : Opened (before ++ (tokens ++ token :: rest) ++ []) (level.push e) :=
        .items hbefore hmore .none
      simpa using hopened

end Opened

/-- The open sequences after some tokens: each was read from the tokens since its
    beginning, an expression may begin where a list was opened, and there was room
    for all lists. -/
inductive Reached (limit : Nat) : List Token → Level → List Level → Prop where
  | outermost {tokens : List Token} {level : Level} (h : Opened tokens level)
    (hfits : ∀ e ∈ level.items, e.depth ≤ limit) : Reached limit tokens level []
  | nested {before tokens : List Token} {opening : Token} {level parent : Level}
    {others : List Level} (hparent : Reached limit before parent others)
    (hready : parent.ready = true) (hroom : others.length < limit)
    (hopening : opening.kind = .openParen) (h : Opened tokens level)
    (hfits : ∀ e ∈ level.items, others.length + 1 + e.depth ≤ limit) :
    Reached limit (before ++ opening :: tokens) level (parent :: others)

namespace Reached

theorem fresh (start : List Token) : Reached limit [] (.fresh start) [] :=
  .outermost (.fresh start) nofun

theorem space (h : Reached limit tokens level outer) (hspaced : level.spaced = false)
    (hkind : token.kind = .space) : Reached limit (tokens ++ [token]) level.space outer := by
  cases h with
  | outermost hopened hfits => exact .outermost (hopened.space hspaced hkind) hfits
  | nested hparent hready hroom hopening hopened hfits =>
    rw [List.append_assoc, List.cons_append]
    exact .nested hparent hready hroom hopening (hopened.space hspaced hkind) hfits

theorem push (h : Reached limit tokens level outer) (hready : level.ready = true)
    (he : Expression rest e) (hroom : outer.length + e.depth ≤ limit) :
    Reached limit (tokens ++ rest) (level.push e) outer := by
  cases h with
  | outermost hopened hfits =>
    have he' : e.depth ≤ limit := by simpa using hroom
    exact .outermost (hopened.push hready he) (List.forall_mem_cons.2 ⟨he', hfits⟩)
  | nested hparent hready' hroom' hopening hopened hfits =>
    rw [List.append_assoc, List.cons_append]
    exact .nested hparent hready' hroom' hopening (hopened.push hready he)
      (List.forall_mem_cons.2 ⟨hroom, hfits⟩)

theorem openList (h : Reached limit tokens level outer) (hready : level.ready = true)
    (hroom : outer.length < limit) (hkind : token.kind = .openParen) (start : List Token) :
    Reached limit (tokens ++ [token]) (.fresh start) (level :: outer) :=
  .nested h hready hroom hkind (.fresh start) nofun

theorem closeList (h : Reached limit tokens level (parent :: others))
    (hkind : token.kind = .closeParen) :
    Reached limit (tokens ++ [token]) (parent.push (.list level.items.reverse)) others := by
  cases h with
  | @nested before tokens opening _ _ _ hparent hready hroom hopening hopened hfits =>
    have he : Expression (opening :: tokens ++ [token]) (.list level.items.reverse) :=
      .list hopening hopened.body hkind
    have hdepth : others.length + (Expr.list level.items.reverse).depth ≤ limit := by
      have hitems : Expr.depthAll level.items.reverse ≤ limit - (others.length + 1) := by
        rw [Expr.depthAll_le_iff]
        intro e he
        have hfit := hfits e (List.mem_reverse.1 he)
        omega
      rw [Expr.depth]
      omega
    rw [List.append_assoc]
    exact hparent.push hready he hdepth

end Reached

theorem Reached.length_le (h : Reached limit tokens level outer) : outer.length ≤ limit := by
  cases h with
  | outermost _ _ => exact Nat.zero_le _
  | nested _ _ hroom _ _ _ => exact hroom

/-- What the reader comes to from a state that it can reach is derived from all
    tokens, those before the state included. -/
theorem Reached.sound (h : Reached limit before level outer)
    (hread : (Expr.readLevels limit false level outer tokens).1 = .ok es) :
    Body (before ++ tokens) es ∧ ∀ e ∈ es, e.depth ≤ limit := by
  induction tokens generalizing before level outer with
  | nil =>
    cases h with
    | outermost hopened hfits =>
      obtain rfl : level.items.reverse = es := Except.ok.inj hread
      rw [List.append_nil]
      exact ⟨hopened.body, fun e he => hfits e (List.mem_reverse.1 he)⟩
    | nested _ _ _ _ _ _ => cases hread
  | cons token rest ih =>
    rw [List.append_cons]
    cases hkind : token.kind with
    | space =>
      cases hspaced : level.spaced with
      | true => simp [Expr.readLevels, hkind, hspaced] at hread
      | false =>
        rw [Expr.readLevels_space hkind hspaced] at hread
        exact ih (h.space hspaced hkind) hread
    | closeParen =>
      cases outer with
      | nil => cases hready : level.ready <;> simp [Expr.readLevels, hkind, hready] at hread
      | cons parent others =>
        rw [Expr.readLevels_close hkind, Bool.false_and] at hread
        exact ih (h.closeList hkind) hread
    | openParen =>
      cases hready : level.ready with
      | false => simp [Expr.readLevels, hkind, hready] at hread
      | true =>
        by_cases hroom : outer.length < limit
        · rw [Expr.readLevels_open hkind hready hroom] at hread
          exact ih (h.openList hready hroom hkind _) hread
        · simp [Expr.readLevels, hkind, hready, hroom] at hread
    | symbol | string | number =>
      cases hready : level.ready with
      | false => simp [Expr.readLevels, hkind, hready] at hread
      | true =>
        cases hatom : token.atom? with
        | none => simp [Expr.readLevels, hkind, hready, hatom] at hread
        | some outcome =>
          cases outcome with
          | error fault => simp [Expr.readLevels, hkind, hready, hatom] at hread
          | ok e =>
            rw [Expr.readLevels_atom hatom hready, Bool.false_and] at hread
            have hroom : outer.length + e.depth ≤ limit := by
              rw [Token.depth_of_atom? hatom]
              exact h.length_le
            exact ih (h.push hready (.of_atom? hatom) hroom) hread

-- ============================================================================
-- The theorem
-- ============================================================================

theorem Grammar.Body.readAll (h : Body tokens es) (hdepth : ∀ e ∈ es, e.depth ≤ limit) :
    Expr.readAll limit tokens = (.ok es, []) := by
  have hroom : ∀ e ∈ es, ([] : List Level).length + e.depth ≤ limit := by simpa using hdepth
  obtain ⟨spaced, hread⟩ := readLevels_body h (fun _ _ _ he => he.readsAs) hroom
    (Bool.false_and _) tokens []
  rw [List.append_nil] at hread
  rw [Expr.readAll, hread]
  simp [Expr.readLevels]

/-- The reader accepts exactly the grammar. Some tokens read as some expressions if
    and only if the grammar derives these expressions from them and there is room
    for their lists; and from no tokens are two different sequences of expressions
    derived. -/
theorem reading_accepts_grammar (tokens : List Token) :
    (∀ (limit : Nat) (es : List Expr), (Expr.readAll limit tokens).1 = .ok es ↔
      Body tokens es ∧ ∀ e ∈ es, e.depth ≤ limit) ∧
    (∀ es es' : List Expr, Body tokens es → Body tokens es' → es = es') := by
  constructor
  · intro limit es
    constructor
    · intro hread
      exact (Reached.fresh tokens).sound hread
    · rintro ⟨hbody, hdepth⟩
      rw [hbody.readAll hdepth]
  · -- With room for both, the reader has each of the two as its only result.
    intro es es' h h'
    let limit := max (Expr.depthAll es) (Expr.depthAll es')
    have hdepth : ∀ e ∈ es, e.depth ≤ limit := Expr.depthAll_le_iff.1 (Nat.le_max_left _ _)
    have hdepth' : ∀ e ∈ es', e.depth ≤ limit := Expr.depthAll_le_iff.1 (Nat.le_max_right _ _)
    have hread := h.readAll hdepth
    rw [h'.readAll hdepth'] at hread
    exact (Except.ok.inj (congrArg Prod.fst hread)).symm

/-- Tokens that no text is cut into, with a symbol of two words: they are read as the
    grammar has it, and it has no other expressions for them. -/
theorem uncut_tokens_read :
    let tokens : List Token :=
      [⟨.space, " "⟩, ⟨.openParen, "("⟩, ⟨.space, "\n"⟩, ⟨.symbol, "x y"⟩, ⟨.space, " "⟩,
        ⟨.openParen, "("⟩, ⟨.closeParen, ")"⟩, ⟨.closeParen, ")"⟩, ⟨.space, " "⟩,
        ⟨.number, "-07"⟩]
    let es : List Expr := [.list [.sym "x y", .list []], .int (-7)]
    (Expr.readAll 2 tokens).1.toOption = some es ∧ Body tokens es ∧
      ∀ es', Body tokens es' → es = es' := by
  intro tokens es
  have hread : (Expr.readAll 2 tokens).1 = .ok es := by rfl
  have hbody := (((reading_accepts_grammar tokens).1 2 es).1 hread).1
  refine ⟨by rw [hread]; rfl, hbody, fun es' h => ?_⟩
  exact (reading_accepts_grammar tokens).2 es es' hbody h

end LineLisp
