/-
  LineLisp.Proofs.Slices

  Reading one expression somewhere among tokens. The tokens that the reader takes for it
  are a slice that the grammar derives the expression from, and the grammar knows nothing
  of the tokens around a slice. So the slice reads alone, reads the same wherever it
  stands, and closes the parentheses that it opens. Where there is no expression, the
  reader still stops between its place and the end.
-/
import LineLisp.Proofs.ReadErrors

namespace LineLisp

open Grammar

variable {limit : Nat} {single : Bool} {level : Level} {outer : List Level}
  {token blank opening closing : Token} {tokens read rest slice left xs ys : List Token}
  {e : Expr} {es : List Expr}

-- ============================================================================
-- Balanced parentheses
-- ============================================================================

namespace Token

/-- The number of tokens of a kind. -/
def countOf (kind : TokenKind) (tokens : List Token) : Nat :=
  tokens.countP fun token => token.kind == kind

/-- Tokens that close as many parentheses as they open, and at no place among them have
    closed more than were open. -/
structure Balanced (tokens : List Token) : Prop where
  equal : countOf .closeParen tokens = countOf .openParen tokens
  opened : ∀ n, countOf .closeParen (tokens.take n) ≤ countOf .openParen (tokens.take n)

@[simp] theorem countOf_nil (kind : TokenKind) : countOf kind [] = 0 := rfl

@[simp] theorem countOf_cons (kind : TokenKind) (token : Token) (tokens : List Token) :
    countOf kind (token :: tokens) = countOf kind tokens + if token.kind = kind then 1 else 0 := by
  simp [countOf, List.countP_cons]

@[simp] theorem countOf_append (kind : TokenKind) (xs ys : List Token) :
    countOf kind (xs ++ ys) = countOf kind xs + countOf kind ys :=
  List.countP_append

theorem countOf_le_length (kind : TokenKind) (tokens : List Token) :
    countOf kind tokens ≤ tokens.length :=
  List.countP_le_length

namespace Balanced

theorem nil : Balanced [] := ⟨rfl, fun n => by simp⟩

/-- A token that is no parenthesis. -/
theorem singleton (hopen : token.kind ≠ .openParen) (hclose : token.kind ≠ .closeParen) :
    Balanced [token] where
  equal := by simp [hopen, hclose]
  opened n := by cases n <;> simp [hopen, hclose]

theorem append (hxs : Balanced xs) (hys : Balanced ys) : Balanced (xs ++ ys) where
  equal := by rw [countOf_append, countOf_append, hxs.equal, hys.equal]
  opened n := by
    have hfirst := hxs.opened n
    have hsecond := hys.opened (n - xs.length)
    rw [List.take_append, countOf_append, countOf_append]
    omega

/-- Parentheses around balanced tokens. -/
theorem enclose (h : Balanced tokens) (hopening : opening.kind = .openParen)
    (hclosing : closing.kind = .closeParen) : Balanced (opening :: tokens ++ [closing]) where
  equal := by
    have hequal := h.equal
    simp [hopening, hclosing]
    omega
  opened n := by
    cases n with
    | zero => simp
    | succ n =>
      have hinner := h.opened n
      -- Up to the last token the first one is open, and the last one closes it.
      have hlast : countOf .closeParen ([closing].take (n - tokens.length)) ≤ 1 := by
        refine Nat.le_trans (countOf_le_length _ _) ?_
        rw [List.length_take, List.length_singleton]
        omega
      rw [List.cons_append, List.take_succ_cons, List.take_append]
      simp only [countOf_cons, countOf_append, hopening, if_true, reduceCtorEq, if_false]
      omega

end Balanced

end Token

open Token (Balanced)

theorem Grammar.Gap.balanced (h : Gap tokens) : Balanced tokens := by
  cases h with
  | none => exact .nil
  | space hkind => exact .singleton (by simp [hkind]) (by simp [hkind])

theorem Grammar.Items.balanced (h : Items tokens es)
    (hes : ∀ e ∈ es, ∀ tokens, Expression tokens e → Balanced tokens) : Balanced tokens := by
  induction es generalizing tokens with
  | nil => exact absurd rfl h.ne_nil
  | cons e es ih =>
    obtain ⟨he, hes⟩ := List.forall_mem_cons.1 hes
    cases h with
    | last hfirst => exact he tokens hfirst
    | @more first others token _ _ hfirst hspace hothers =>
      have hgap : Balanced [token] := (Gap.space hspace).balanced
      rw [List.append_cons]
      exact ((he first hfirst).append hgap).append (ih hothers hes)

theorem Grammar.Body.balanced (h : Body tokens es)
    (hes : ∀ e ∈ es, ∀ tokens, Expression tokens e → Balanced tokens) : Balanced tokens := by
  cases h with
  | empty hgap => exact hgap.balanced
  | items hbefore hitems hafter =>
    exact (hbefore.balanced.append (hitems.balanced hes)).append hafter.balanced

/-- An expression closes the parentheses that it opens. -/
theorem Grammar.Expression.balanced (h : Expression tokens e) : Balanced tokens := by
  induction e generalizing tokens with
  | int n =>
    cases h with
    | number hkind _ => exact .singleton (by simp [hkind]) (by simp [hkind])
  | sym name =>
    cases h with
    | symbol hkind => exact .singleton (by simp [hkind]) (by simp [hkind])
  | str contents =>
    cases h with
    | string hkind => exact .singleton (by simp [hkind]) (by simp [hkind])
  | hole => cases h
  | list items ih =>
    cases h with
    | list hopening hbody hclosing =>
      have hinner : Balanced _ := hbody.balanced fun e he tokens h => ih e he h
      exact hinner.enclose hopening hclosing

-- ============================================================================
-- What comes of the next token
-- ============================================================================

/-- The outermost of the open sequences. -/
def Level.outermost (level : Level) : List Level → Level
  | [] => level
  | parent :: others => parent.outermost others

/-- What comes of the next token: it is taken into a sequence, it completes the one
    expression that is wanted, or reading fails at it. -/
inductive NextToken (limit : Nat) (single : Bool) (level : Level) (outer : List Level)
    (token : Token) (rest : List Token) : Prop where
  | taken {level' : Level} {outer' : List Level}
    (hread : Expr.readLevels limit single level outer (token :: rest) =
      Expr.readLevels limit single level' outer' rest)
    (hreached : ∀ before, Reached limit before level outer →
      Reached limit (before ++ [token]) level' outer')
    (hitems : single = true → (level'.outermost outer').items = (level.outermost outer).items)
  | completed {e : Expr}
    (hread : Expr.readLevels limit single level outer (token :: rest) = (.ok [e], rest))
    (hreached : ∀ before, Reached limit before level outer →
      Reached limit (before ++ [token]) ((level.outermost outer).push e) [])
  | failed {error : ReadError} {left : List Token}
    (hread : Expr.readLevels limit single level outer (token :: rest) = (.error error, left))
    (hleft : left <:+ token :: rest)

namespace NextToken

theorem space (hkind : token.kind = .space) : NextToken limit single level outer token rest := by
  cases hspaced : level.spaced with
  | true =>
    have hread : Expr.readLevels limit single level outer (token :: rest) =
        (.error (.unexpected (token :: rest)), token :: rest) := by
      simp [Expr.readLevels, hkind, hspaced]
    exact .failed hread List.suffix_rfl
  | false =>
    refine .taken (Expr.readLevels_space hkind hspaced) (fun _ h => h.space hspaced hkind) ?_
    cases outer <;> exact fun _ => rfl

/-- A token with which an expression ends, in the sequence `inner`. -/
theorem ending {inner : Level} {around : List Level}
    (hread : Expr.readLevels limit single level outer (token :: rest) =
      if single && around.isEmpty then (.ok [e], rest)
      else Expr.readLevels limit single (inner.push e) around rest)
    (hreached : ∀ before, Reached limit before level outer →
      Reached limit (before ++ [token]) (inner.push e) around)
    (houtermost : inner.outermost around = level.outermost outer) :
    NextToken limit single level outer token rest := by
  cases hlast : single && around.isEmpty with
  | true =>
    obtain rfl : around = [] := by simpa using (Bool.and_eq_true_iff.1 hlast).2
    obtain rfl : inner = level.outermost outer := houtermost
    rw [hlast, if_pos rfl] at hread
    exact .completed hread hreached
  | false =>
    rw [hlast, if_neg Bool.false_ne_true] at hread
    refine .taken hread hreached fun hsingle => ?_
    rw [← houtermost]
    cases around with
    | nil => simp [hsingle] at hlast
    | cons _ _ => rfl

theorem close (hkind : token.kind = .closeParen) :
    NextToken limit single level outer token rest := by
  cases outer with
  | nil =>
    obtain ⟨error, hread⟩ : ∃ error, Expr.readLevels limit single level [] (token :: rest) =
        (.error error, token :: rest) := by
      cases hready : level.ready <;> simp [Expr.readLevels, hkind, hready]
    exact .failed hread List.suffix_rfl
  | cons parent others =>
    exact ending (Expr.readLevels_close hkind) (fun _ h => h.closeList hkind) rfl

theorem openList (hkind : token.kind = .openParen) :
    NextToken limit single level outer token rest := by
  cases hready : level.ready with
  | false =>
    have hread : Expr.readLevels limit single level outer (token :: rest) =
        (.error (Expr.joined outer (token :: rest)), token :: rest) := by
      simp [Expr.readLevels, hkind, hready]
    exact .failed hread List.suffix_rfl
  | true =>
    by_cases hroom : outer.length < limit
    · exact .taken (Expr.readLevels_open hkind hready hroom)
        (fun _ h => h.openList hready hroom hkind _) fun _ => rfl
    · have hread : Expr.readLevels limit single level outer (token :: rest) =
          (.error .tooDeep, rest) := by
        simp [Expr.readLevels, hkind, hready, hroom]
      exact .failed hread (List.suffix_cons token rest)

/-- A token that is no space and no parenthesis. -/
theorem word (hspace : token.kind ≠ .space) (hopen : token.kind ≠ .openParen)
    (hclose : token.kind ≠ .closeParen) : NextToken limit single level outer token rest := by
  cases hready : level.ready with
  | false =>
    have hread : Expr.readLevels limit single level outer (token :: rest) =
        (.error (Expr.joined outer (token :: rest)), token :: rest) := by
      cases hkind : token.kind with
      | space => exact absurd hkind hspace
      | openParen => exact absurd hkind hopen
      | closeParen => exact absurd hkind hclose
      | symbol | string | number => simp [Expr.readLevels, hkind, hready]
    exact .failed hread List.suffix_rfl
  | true =>
    by_cases hnumber : token.Unreadable
    · obtain ⟨hkind, hnumeral⟩ := hnumber
      have hread : Expr.readLevels limit single level outer (token :: rest) =
          (.error (.badNumber token), rest) := by
        simp [Expr.readLevels, Token.atom?, hkind, hready, hnumeral]
      exact .failed hread (List.suffix_cons token rest)
    · obtain ⟨e, hatom⟩ := Token.exists_atom hspace hopen hclose hnumber
      have hreached : ∀ before, Reached limit before level outer →
          Reached limit (before ++ [token]) (level.push e) outer := by
        intro before h
        have hdepth : outer.length + e.depth ≤ limit := by
          rw [Token.depth_of_atom? hatom]
          exact h.length_le
        exact h.push hready (.of_atom? hatom) hdepth
      exact ending (Expr.readLevels_atom hatom hready) hreached rfl

theorem exhaustive (limit : Nat) (single : Bool) (level : Level) (outer : List Level)
    (token : Token) (rest : List Token) : NextToken limit single level outer token rest := by
  by_cases hspace : token.kind = .space
  · exact space hspace
  by_cases hopen : token.kind = .openParen
  · exact openList hopen
  by_cases hclose : token.kind = .closeParen
  · exact close hclose
  · exact word hspace hopen hclose

end NextToken

-- ============================================================================
-- Where reading stops
-- ============================================================================

namespace Expr

/-- What is left is an end of the tokens. -/
theorem readLevels_suffix (level : Level) (outer : List Level) (tokens : List Token) :
    (readLevels limit single level outer tokens).2 <:+ tokens := by
  induction tokens generalizing level outer with
  | nil => cases outer <;> exact List.suffix_rfl
  | cons token rest ih =>
    cases NextToken.exhaustive limit single level outer token rest with
    | taken hread _ _ =>
      rw [hread]
      exact (ih _ _).trans (List.suffix_cons token rest)
    | completed hread _ =>
      rw [hread]
      exact List.suffix_cons token rest
    | failed hread hleft =>
      rw [hread]
      exact hleft

theorem firstRead_snd (out : ReadResult (List Expr)) : (firstRead out).2 = out.2 := by
  obtain ⟨_ | es, left⟩ := out
  · rfl
  · cases es <;> rfl

theorem readOne_suffix (tokens : List Token) : (readOne limit tokens).2 <:+ tokens := by
  rw [readOne, firstRead_snd]
  exact readLevels_suffix _ _ tokens

theorem firstRead_eq_ok_iff {out : ReadResult (List Expr)} :
    firstRead out = (.ok e, left) ↔ ∃ es, out = (.ok (e :: es), left) := by
  obtain ⟨_ | es, left'⟩ := out
  · simp [firstRead]
  · cases es <;> simp [firstRead]

end Expr

-- ============================================================================
-- One expression
-- ============================================================================

theorem Grammar.Expression.ne_nil (h : Expression slice e) : slice ≠ [] := by
  obtain ⟨first, others, rfl, -⟩ := h.exists_cons
  exact List.cons_ne_nil first others

/-- The one expression of a sequence behind a space is derived from the tokens behind
    the space. -/
theorem Reached.expression (h : Reached limit (blank :: tokens) level [])
    (hblank : blank.kind = .space) (hitems : level.items = [e]) (hspaced : level.spaced = false) :
    Expression tokens e ∧ e.depth ≤ limit := by
  generalize hall : blank :: tokens = all at h
  cases h with
  | outermost hopened hfits =>
    have hdepth : e.depth ≤ limit := hfits e (by rw [hitems]; exact List.mem_singleton_self e)
    refine ⟨?_, hdepth⟩
    cases hopened with
    | empty hnone _ =>
      rw [hnone] at hitems
      cases hitems
    | @items before piece after _ hbefore hpiece hafter =>
      rw [hspaced] at hafter
      rw [hitems, List.reverse_singleton] at hpiece
      cases hafter with
      | none =>
        rw [List.append_nil] at hall
        cases hpiece with
        | more _ _ hothers => exact absurd rfl hothers.ne_nil
        | last hexpr =>
          cases hbefore with
          | none =>
            obtain ⟨first, others, rfl, hspace, -⟩ := hexpr.exists_cons
            obtain ⟨rfl, -⟩ := List.cons.inj hall
            exact absurd hblank hspace
          | space _ =>
            obtain ⟨-, rfl⟩ := List.cons.inj hall
            exact hexpr

/-- From a sequence behind a space that has no expression yet, the reader of a single
    expression takes the tokens that complete one. The induction is on the tokens; each is
    taken into an open list, or it completes the expression. -/
theorem Reached.expression_of_readLevels (h : Reached limit (blank :: read) level outer)
    (hblank : blank.kind = .space) (hitems : (level.outermost outer).items = [])
    (hread : Expr.readLevels limit true level outer tokens = (.ok (e :: es), left)) :
    ∃ slice, tokens = slice ++ left ∧ Expression (read ++ slice) e ∧ e.depth ≤ limit := by
  induction tokens generalizing read level outer with
  | nil =>
    cases outer with
    | cons parent others => cases hread
    | nil =>
      have hnone : level.items = [] := hitems
      rw [Expr.readLevels, hnone] at hread
      cases hread
  | cons token rest ih =>
    cases NextToken.exhaustive limit true level outer token rest with
    | taken hnext hreached hsame =>
      rw [hnext] at hread
      have hbehind : Reached limit (blank :: (read ++ [token])) _ _ := hreached _ h
      obtain ⟨slice, rfl, hexpr, hdepth⟩ := ih hbehind ((hsame rfl).trans hitems) hread
      rw [List.append_assoc, List.singleton_append] at hexpr
      exact ⟨token :: slice, rfl, hexpr, hdepth⟩
    | @completed e' hnext hreached =>
      rw [hnext] at hread
      obtain ⟨hes, rfl⟩ := Prod.mk.inj hread
      obtain ⟨rfl, -⟩ := List.cons.inj (Except.ok.inj hes)
      have hbehind : Reached limit (blank :: (read ++ [token])) _ _ := hreached _ h
      have hone : ((level.outermost outer).push e').items = [e'] := by rw [Level.push, hitems]
      obtain ⟨hexpr, hdepth⟩ := hbehind.expression hblank hone rfl
      exact ⟨[token], rfl, hexpr, hdepth⟩
    | failed hnext _ =>
      rw [hnext] at hread
      cases hread

/-- The reader of a single expression has what the grammar derives from the tokens in
    front, if there is room for its lists. -/
theorem Expr.readOne_eq_ok_iff :
    Expr.readOne limit tokens = (.ok e, left) ↔
      ∃ slice, tokens = slice ++ left ∧ Expression slice e ∧ e.depth ≤ limit := by
  rw [Expr.readOne, Expr.firstRead_eq_ok_iff]
  constructor
  · rintro ⟨es, hread⟩
    -- No space may stand before the expression, as if one had just been read.
    have hstart : Reached limit [⟨.space, " "⟩] (Expr.singleLevel tokens) [] :=
      .outermost (.empty rfl (.space rfl)) nofun
    exact hstart.expression_of_readLevels rfl rfl hread
  · rintro ⟨slice, rfl, hexpr, hdepth⟩
    have hroom : ([] : List Level).length + e.depth ≤ limit := by simpa using hdepth
    have hready : (Expr.singleLevel (slice ++ left)).ready = true := rfl
    exact ⟨[], hexpr.readsAs limit true _ [] left hready hroom⟩

-- ============================================================================
-- At a cursor
-- ============================================================================

namespace Cursor

variable {c c' : Cursor}

theorem length_rest (c : Cursor) : c.rest.length = c.tokens.length - c.position :=
  List.length_drop

/-- A cursor that leaves these tokens has moved over those in front of them. -/
theorem leaving_eq (hrest : c.rest = read ++ left) (hwithin : c.position ≤ c.tokens.length) :
    c.leaving left = ⟨c.tokens, c.position + read.length⟩ := by
  have hlength := congrArg List.length hrest
  rw [length_rest, List.length_append] at hlength
  have hposition : c.tokens.length - left.length = c.position + read.length := by omega
  rw [leaving, hposition]

/-- Tokens at a cursor are between it and the end. -/
theorem position_add_le (hrest : c.rest = read ++ left) (hwithin : c.position ≤ c.tokens.length) :
    c.position + read.length ≤ c.tokens.length := by
  have hlength := congrArg List.length hrest
  rw [length_rest, List.length_append] at hlength
  omega

theorem position_lt (hrest : c.rest = read ++ left) (hne : read ≠ []) :
    c.position < c.tokens.length := by
  have hpos : 0 < read.length := List.length_pos_iff.2 hne
  have hlength := congrArg List.length hrest
  rw [length_rest, List.length_append] at hlength
  omega

/-- The places that the operations of a cursor lead to from the beginning of some tokens. -/
inductive StreamOf (tokens : List Token) : Cursor → Prop where
  | start : StreamOf tokens (start tokens)
  | advance {c c' : Cursor} {token : Token} (hc : StreamOf tokens c)
    (h : c.advance? = some (token, c')) : StreamOf tokens c'
  | skip {c : Cursor} (kind : TokenKind) (hc : StreamOf tokens c) :
    StreamOf tokens (c.skip kind).2
  | readOne {c : Cursor} (limit : Nat) (hc : StreamOf tokens c) :
    StreamOf tokens (c.readOne limit).2
  | readList {c c' : Cursor} {limit : Nat} {outcome : Except ReadError Expr}
    (hc : StreamOf tokens c) (h : c.readList? limit = some (outcome, c')) : StreamOf tokens c'
  | readAll {c : Cursor} (limit : Nat) (hc : StreamOf tokens c) :
    StreamOf tokens (c.readAll limit).2

theorem position_lt_of_peek? (h : c.peek? = some token) : c.position < c.tokens.length := by
  obtain ⟨others, hrest⟩ := List.head?_eq_some_iff.1 h
  have hsplit : c.rest = [token] ++ others := hrest
  exact position_lt hsplit (List.cons_ne_nil token [])

theorem position_leaving_le (c : Cursor) (left : List Token) :
    (c.leaving left).position ≤ c.tokens.length :=
  Nat.sub_le _ _

/-- No operation leads past the end. -/
theorem StreamOf.within (h : StreamOf tokens c) :
    c.tokens = tokens ∧ c.position ≤ c.tokens.length := by
  induction h with
  | start => exact ⟨rfl, Nat.zero_le _⟩
  | @advance c c' token _ hadvance ih =>
    obtain ⟨next, hpeek, heq⟩ := Option.map_eq_some_iff.1 hadvance
    obtain ⟨-, rfl⟩ := Prod.mk.inj heq
    exact ⟨ih.1, position_lt_of_peek? hpeek⟩
  | @skip c kind _ ih =>
    unfold Cursor.skip
    split
    · next next hpeek =>
      split
      · exact ⟨ih.1, position_lt_of_peek? hpeek⟩
      · exact ih
    · exact ih
  | @readOne c limit _ ih => exact ⟨ih.1, position_leaving_le c _⟩
  | @readList c c' limit outcome _ hread ih =>
    obtain ⟨out, -, heq⟩ := Option.map_eq_some_iff.1 hread
    obtain ⟨-, rfl⟩ := Prod.mk.inj heq
    exact ⟨ih.1, position_leaving_le c _⟩
  | @readAll c limit _ ih => exact ⟨ih.1, position_leaving_le c _⟩

/-- The reader at a cursor has what the grammar derives from the tokens there, and leaves
    the cursor behind these. -/
theorem readOne_eq_ok_iff : c.readOne limit = (.ok e, c') ↔
    ∃ slice left, c.rest = slice ++ left ∧ Expression slice e ∧ e.depth ≤ limit ∧
      c' = ⟨c.tokens, c.position + slice.length⟩ := by
  have hread : c.readOne limit =
      ((Expr.readOne limit c.rest).1, c.leaving (Expr.readOne limit c.rest).2) := rfl
  have hleaving : ∀ slice left, c.rest = slice ++ left → Expression slice e →
      c.leaving left = ⟨c.tokens, c.position + slice.length⟩ := by
    intro slice left hrest hexpr
    exact leaving_eq hrest (Nat.le_of_lt (position_lt hrest hexpr.ne_nil))
  rw [hread, Prod.mk.injEq]
  constructor
  · rintro ⟨hok, rfl⟩
    have hone : Expr.readOne limit c.rest = (.ok e, (Expr.readOne limit c.rest).2) :=
      Prod.ext hok rfl
    obtain ⟨slice, hrest, hexpr, hdepth⟩ := Expr.readOne_eq_ok_iff.1 hone
    exact ⟨slice, _, hrest, hexpr, hdepth, hleaving slice _ hrest hexpr⟩
  · rintro ⟨slice, left, hrest, hexpr, hdepth, rfl⟩
    rw [Expr.readOne_eq_ok_iff.2 ⟨slice, hrest, hexpr, hdepth⟩]
    exact ⟨rfl, hleaving slice left hrest hexpr⟩

end Cursor

-- ============================================================================
-- The theorem
-- ============================================================================

/-- A slice of tokens that is an expression by itself: it reads alone as this expression,
    its parentheses are balanced, and whatever tokens are put before it and behind it, the
    reader takes just this slice for the expression. -/
structure SelfContained (limit : Nat) (slice : List Token) (e : Expr) : Prop where
  alone : Expr.readAll limit slice = (.ok [e], [])
  balanced : Balanced slice
  anywhere : ∀ before after : List Token,
    (Cursor.mk (before ++ slice ++ after) before.length).readOne limit =
      (.ok e, ⟨before ++ slice ++ after, before.length + slice.length⟩)

theorem Grammar.Expression.selfContained (h : Expression slice e) (hdepth : e.depth ≤ limit) :
    SelfContained limit slice e where
  alone := by
    have hbody : Body ([] ++ slice ++ []) [e] := .items .none (.last h) .none
    rw [List.nil_append, List.append_nil] at hbody
    exact hbody.readAll (List.forall_mem_singleton.2 hdepth)
  balanced := h.balanced
  anywhere before after := by
    have hrest : (Cursor.mk (before ++ slice ++ after) before.length).rest = slice ++ after := by
      rw [Cursor.rest, List.append_assoc, List.drop_left]
    exact Cursor.readOne_eq_ok_iff.2 ⟨slice, after, hrest, h, hdepth, rfl⟩

/-- Expressions are slices that stand for themselves. The reader of one expression moves
    over at least one token and not past the end, and the slice that it moves over reads
    alone, is balanced and reads the same among any other tokens; so does every slice that
    the grammar derives an expression from. Where it fails, it has not moved back and not
    past the end, if it was not there before; and no operation on a stream of tokens leads
    there. -/
theorem expressions_are_self_contained_slices (limit : Nat) (c : Cursor) :
    (∀ (e : Expr) (c' : Cursor), c.readOne limit = (.ok e, c') →
      c'.tokens = c.tokens ∧ c.position < c'.position ∧ c'.position ≤ c.tokens.length ∧
        SelfContained limit (c.tokens.extract c.position c'.position) e) ∧
    (∀ (slice : List Token) (e : Expr), Expression slice e → e.depth ≤ limit →
      SelfContained limit slice e) ∧
    (∀ (error : ReadError) (c' : Cursor), c.readOne limit = (.error error, c') →
      c.position ≤ c.tokens.length →
        c'.tokens = c.tokens ∧ c.position ≤ c'.position ∧ c'.position ≤ c.tokens.length) ∧
    (∀ tokens : List Token, Cursor.StreamOf tokens c →
      c.tokens = tokens ∧ c.position ≤ c.tokens.length) := by
  refine ⟨fun e c' hread => ?_, fun slice e h hdepth => h.selfContained hdepth,
    fun error c' hread hwithin => ?_, fun tokens hstream => hstream.within⟩
  · obtain ⟨slice, left, hrest, hexpr, hdepth, rfl⟩ := Cursor.readOne_eq_ok_iff.1 hread
    have hwithin : c.position ≤ c.tokens.length :=
      Nat.le_of_lt (Cursor.position_lt hrest hexpr.ne_nil)
    have hpos : 0 < slice.length := List.length_pos_iff.2 hexpr.ne_nil
    have hslice : c.tokens.extract c.position (c.position + slice.length) = slice := by
      rw [List.extract_eq_take_drop, Nat.add_sub_cancel_left]
      show c.rest.take slice.length = slice
      rw [hrest, List.take_left]
    refine ⟨rfl, Nat.lt_add_of_pos_right hpos, Cursor.position_add_le hrest hwithin, ?_⟩
    rw [hslice]
    exact hexpr.selfContained hdepth
  · obtain rfl : c.leaving (Expr.readOne limit c.rest).2 = c' := congrArg Prod.snd hread
    have hsuffix : (Expr.readOne limit c.rest).2 <:+ c.rest := Expr.readOne_suffix c.rest
    obtain ⟨read, hrest⟩ := hsuffix
    rw [Cursor.leaving_eq hrest.symm hwithin]
    exact ⟨rfl, Nat.le_add_right _ _, Cursor.position_add_le hrest.symm hwithin⟩

/-- A list between a parenthesis that closes nothing and one that is left open. From its
    beginning on it is read as if it stood alone; from its end on there is nothing to read,
    and the reader stops at the end of the tokens. -/
theorem slice_among_stray_parentheses :
    let slice : List Token :=
      [⟨.openParen, "("⟩, ⟨.symbol, "x y"⟩, ⟨.space, " "⟩, ⟨.openParen, "("⟩,
        ⟨.closeParen, ")"⟩, ⟨.closeParen, ")"⟩]
    let tokens : List Token := ⟨.closeParen, ")"⟩ :: slice ++ [⟨.openParen, "("⟩, ⟨.space, " "⟩]
    let e : Expr := .list [.sym "x y", .nil]
    (Cursor.mk tokens 1).readOne 2 = (.ok e, ⟨tokens, 7⟩) ∧ SelfContained 2 slice e ∧
      (Cursor.mk tokens 7).readOne 2 = (.error (.unclosed (tokens.drop 7)), ⟨tokens, 9⟩) ∧
      7 ≤ 9 ∧ 9 ≤ tokens.length := by
  intro slice tokens e
  have hread : (Cursor.mk tokens 1).readOne 2 = (.ok e, ⟨tokens, 7⟩) := by rfl
  have hopen : (Cursor.mk tokens 7).readOne 2 =
      (.error (.unclosed (tokens.drop 7)), ⟨tokens, 9⟩) := by rfl
  have hwithin : 7 ≤ tokens.length := by decide
  obtain ⟨-, -, -, hslice⟩ :=
    (expressions_are_self_contained_slices 2 ⟨tokens, 1⟩).1 e ⟨tokens, 7⟩ hread
  obtain ⟨-, hforward, hend⟩ :=
    (expressions_are_self_contained_slices 2 ⟨tokens, 7⟩).2.2.1 _ ⟨tokens, 9⟩ hopen hwithin
  exact ⟨hread, hslice, hopen, hforward, hend⟩

end LineLisp
