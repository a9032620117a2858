/-
  LineLisp.Proofs.ReadEquality

  What reading forgets. Expressions can be flattened into the signs that they are written
  with: a parenthesis at either end of a list, and everything else as it is. Each token of
  a body but white space stands for one sign, and the signs of a body are those of its
  expressions, so reading forgets the spaces and of a numeral all but its value. It forgets
  nothing else, since expressions with the same signs are the same.
-/
import LineLisp.Proofs.SourceText

namespace LineLisp

open Grammar

variable {η : Type} {token other : Token} {tokens rest : List Token} {e : Expr} {es : List Expr}

-- ============================================================================
-- Signs
-- ============================================================================

/-- What an expression is written with: parentheses, and expressions that are no lists. -/
inductive Sign where
  | opening
  | closing
  | atom (e : Expr)

/-- What a token stands for, if it is not white space. -/
def Token.sign? (token : Token) : Option Sign :=
  match token.kind with
  | .openParen => some .opening
  | .closeParen => some .closing
  | _ =>
    match token.atom? with
    | some (.ok e) => some (.atom e)
    | _ => none

/-- The tokens but white space. -/
def Token.significant (tokens : List Token) : List Token :=
  tokens.filter fun token => token.kind ≠ .space

namespace Expr

mutual

/-- The signs that an expression is written with. -/
def signs : Expr → List Sign
  | .list items => .opening :: signsAll items ++ [.closing]
  | .int n => [.atom (.int n)]
  | .sym name => [.atom (.sym name)]
  | .str contents => [.atom (.str contents)]
  | .hole => [.atom .hole]

/-- The signs that expressions are written with, one after the other. -/
def signsAll : List Expr → List Sign
  | [] => []
  | e :: es => e.signs ++ signsAll es

end

@[simp] theorem signsAll_nil : signsAll [] = [] := rfl

@[simp] theorem signsAll_cons (e : Expr) (es : List Expr) :
    signsAll (e :: es) = e.signs ++ signsAll es := rfl

theorem list_or_atom (e : Expr) : (∃ items, e = .list items) ∨ e.signs = [.atom e] := by
  cases e with
  | list items => exact .inl ⟨items, rfl⟩
  | _ => exact .inr (by rw [signs])

/-- No expression begins with the end of a list. -/
theorem exists_signs_cons (e : Expr) : ∃ sign more, e.signs = sign :: more ∧ sign ≠ .closing := by
  rcases e.list_or_atom with ⟨items, rfl⟩ | hatom
  · rw [signs, List.cons_append]
    exact ⟨_, _, rfl, nofun⟩
  · exact ⟨_, _, hatom, nofun⟩

/-- The signs of an expression and of what is behind it tell the two apart, and the
    expression. -/
def Decodable (e : Expr) : Prop :=
  ∀ (e' : Expr) (more more' : List Sign), e.signs ++ more = e'.signs ++ more' →
    e = e' ∧ more = more'

/-- The end of a list tells where its items end, if these can be told. -/
theorem signsAll_inj {more more' : List Sign} {es' : List Expr} (hes : ∀ e ∈ es, e.Decodable)
    (h : signsAll es ++ .closing :: more = signsAll es' ++ .closing :: more') :
    es = es' ∧ more = more' := by
  induction es generalizing es' with
  | nil =>
    cases es' with
    | nil => exact ⟨rfl, (List.cons.inj h).2⟩
    | cons e' es' =>
      obtain ⟨sign, others, hsigns, hne⟩ := e'.exists_signs_cons
      rw [signsAll_nil, signsAll_cons, hsigns] at h
      exact absurd (List.cons.inj h).1.symm hne
  | cons e es ih =>
    obtain ⟨he, hes⟩ := List.forall_mem_cons.1 hes
    cases es' with
    | nil =>
      obtain ⟨sign, others, hsigns, hne⟩ := e.exists_signs_cons
      rw [signsAll_nil, signsAll_cons, hsigns] at h
      exact absurd (List.cons.inj h).1 hne
    | cons e' es' =>
      rw [signsAll_cons, signsAll_cons, List.append_assoc, List.append_assoc] at h
      obtain ⟨rfl, hrest⟩ := he e' _ _ h
      obtain ⟨rfl, hmore⟩ := ih hes hrest
      exact ⟨rfl, hmore⟩

theorem decodable_of_atom (h : e.signs = [.atom e]) : e.Decodable := by
  intro e' more more' heq
  rw [h] at heq
  rcases e'.list_or_atom with ⟨items', rfl⟩ | h'
  · rw [signs] at heq
    exact absurd (List.cons.inj heq).1 nofun
  · rw [h'] at heq
    obtain ⟨hatom, hmore⟩ := List.cons.inj heq
    exact ⟨Sign.atom.inj hatom, hmore⟩

theorem decodable (e : Expr) : e.Decodable := by
  induction e with
  | list items ih =>
    intro e' more more' h
    rcases e'.list_or_atom with ⟨items', rfl⟩ | h'
    · simp only [signs, List.cons_append, List.append_assoc, List.cons.injEq, true_and] at h
      obtain ⟨rfl, hmore⟩ := signsAll_inj ih h
      exact ⟨rfl, hmore⟩
    · rw [signs, h'] at h
      exact absurd (List.cons.inj h).1 nofun
  | _ => exact decodable_of_atom (by rw [signs])

/-- Expressions with the same signs are the same. -/
theorem eq_of_signsAll {es es' : List Expr} (h : signsAll es = signsAll es') : es = es' := by
  have hended : signsAll es ++ .closing :: ([] : List Sign) = signsAll es' ++ .closing :: [] := by
    rw [h]
  exact (signsAll_inj (fun e _ => e.decodable) hended).1

end Expr

-- ============================================================================
-- The signs of tokens
-- ============================================================================

/-- The tokens that count stand for these signs, one for one. -/
def Spells (tokens : List Token) (signs : List Sign) : Prop :=
  List.Forall₂ (fun token sign => token.sign? = some sign) (Token.significant tokens) signs

namespace Spells

variable {signs more : List Sign}

theorem append (h : Spells tokens signs) (hrest : Spells rest more) :
    Spells (tokens ++ rest) (signs ++ more) := by
  rw [Spells, Token.significant, List.filter_append]
  exact List.rel_append h hrest

theorem space (h : token.kind = .space) : Spells [token] [] := by
  have hnone : Token.significant [token] = [] := by simp [Token.significant, h]
  rw [Spells, hnone]
  exact .nil

theorem singleton {sign : Sign} (hne : token.kind ≠ .space) (h : token.sign? = some sign) :
    Spells [token] [sign] := by
  have hself : Token.significant [token] = [token] := by simp [Token.significant, hne]
  rw [Spells, hself]
  exact .cons h .nil

theorem gap (h : Gap tokens) : Spells tokens [] := by
  cases h with
  | none => exact .nil
  | space hspace => exact .space hspace

end Spells

theorem Grammar.Items.spells (h : Items tokens es)
    (hes : ∀ e ∈ es, ∀ tokens, Expression tokens e → Spells tokens e.signs) :
    Spells tokens (Expr.signsAll es) := by
  induction es generalizing tokens with
  | nil => exact absurd rfl h.ne_nil
  | cons e es ih =>
    obtain ⟨he, hes⟩ := List.forall_mem_cons.1 hes
    cases h with
    | last hfirst =>
      rw [Expr.signsAll_cons, Expr.signsAll_nil, List.append_nil]
      exact he _ hfirst
    | more hfirst hspace hrest =>
      exact (he _ hfirst).append ((Spells.space hspace).append (ih hrest hes))

theorem Grammar.Body.spells_of (h : Body tokens es)
    (hes : ∀ e ∈ es, ∀ tokens, Expression tokens e → Spells tokens e.signs) :
    Spells tokens (Expr.signsAll es) := by
  cases h with
  | empty hgap => exact .gap hgap
  | items hbefore hitems hafter =>
    have hall := ((Spells.gap hbefore).append (hitems.spells hes)).append (.gap hafter)
    rwa [List.nil_append, List.append_nil] at hall

/-- The tokens of an expression stand for its signs. -/
theorem Grammar.Expression.spells (h : Expression tokens e) : Spells tokens e.signs := by
  induction e generalizing tokens with
  | list items ih =>
    cases h with
    | @list opening closing tokens _ hopening hbody hclosing =>
      have hopen : Spells [opening] [.opening] :=
        .singleton (by simp [hopening]) (by simp [Token.sign?, hopening])
      have hclose : Spells [closing] [.closing] :=
        .singleton (by simp [hclosing]) (by simp [Token.sign?, hclosing])
      rw [Expr.signs]
      exact (hopen.append (hbody.spells_of fun e he tokens h => ih e he h)).append hclose
  | int n =>
    cases h with
    | number hkind hread =>
      rw [Expr.signs]
      exact .singleton (by simp [hkind]) (by simp [Token.sign?, Token.atom?, hkind, hread])
  | sym name =>
    cases h with
    | symbol hkind =>
      rw [Expr.signs]
      exact .singleton (by simp [hkind]) (by simp [Token.sign?, Token.atom?, hkind])
  | str contents =>
    cases h with
    | string hkind =>
      rw [Expr.signs]
      exact .singleton (by simp [hkind]) (by simp [Token.sign?, Token.atom?, hkind])
  | hole => cases h

theorem Grammar.Body.spells (h : Body tokens es) : Spells tokens (Expr.signsAll es) :=
  h.spells_of fun _ _ _ he => he.spells

-- ============================================================================
-- Tokens that say the same
-- ============================================================================

/-- Tokens of one kind with the same text, or number tokens whose numerals have the same
    value. -/
inductive Token.Agrees (token other : Token) : Prop where
  | number {n : Int} (hkind : token.kind = .number) (hkind' : other.kind = .number)
    (hread : Numeral.read? token.text.toList = some n)
    (hread' : Numeral.read? other.text.toList = some n) : Agrees token other
  | text (hne : token.kind ≠ .number) (hkind : token.kind = other.kind)
    (htext : token.text = other.text) : Agrees token other

theorem Token.Agrees.sign?_eq (h : token.Agrees other) : token.sign? = other.sign? := by
  cases h with
  | number hkind hkind' hread hread' => simp [sign?, atom?, hkind, hkind', hread, hread']
  | text _ hkind htext =>
    obtain ⟨kind, text⟩ := token
    obtain ⟨kind', text'⟩ := other
    obtain rfl : kind = kind' := hkind
    obtain rfl : text = text' := htext
    rfl

/-- The signs that tokens of each kind stand for. -/
theorem Token.sign?_cases {sign : Sign} (h : token.sign? = some sign) :
    token.kind = .openParen ∧ sign = .opening ∨ token.kind = .closeParen ∧ sign = .closing ∨
      ∃ e, token.atom? = some (.ok e) ∧ sign = .atom e := by
  unfold sign? at h
  split at h
  · next hkind => exact .inl ⟨hkind, (Option.some.inj h).symm⟩
  · next hkind => exact .inr (.inl ⟨hkind, (Option.some.inj h).symm⟩)
  · split at h
    · next e hatom => exact .inr (.inr ⟨e, hatom, (Option.some.inj h).symm⟩)
    · cases h

/-- The text of a string token is its contents in quotation marks. -/
theorem Token.text_of_string (h : token.WellFormed) (hkind : token.kind = .string) :
    token.text = "\"" ++ innerText token.text ++ "\"" := by
  unfold WellFormed at h
  rw [hkind] at h
  obtain ⟨body, -, htext⟩ := h
  refine String.toList_injective ?_
  rw [toList_quoted, toList_innerText htext, htext]

/-- Tokens in their languages that stand for the same sign say the same. -/
theorem Token.agrees_of_sign? (h : token.WellFormed) (h' : other.WellFormed) {sign : Sign}
    (hsign : token.sign? = some sign) (hsign' : other.sign? = some sign) : token.Agrees other := by
  have hparen : ∀ kind : TokenKind, kind = .openParen ∨ kind = .closeParen →
      token.kind = kind → other.kind = kind → token.Agrees other := by
    intro kind hparen hkind hkind'
    unfold WellFormed at h h'
    rw [hkind] at h
    rw [hkind'] at h'
    refine .text ?_ (hkind.trans hkind'.symm) (String.toList_injective ?_)
    · rw [hkind]
      rcases hparen with rfl | rfl <;> nofun
    · rcases hparen with rfl | rfl <;> exact h.trans h'.symm
  rcases sign?_cases hsign with ⟨hkind, rfl⟩ | ⟨hkind, rfl⟩ | ⟨e, hatom, rfl⟩
  · rcases sign?_cases hsign' with ⟨hkind', -⟩ | ⟨-, ⟨⟩⟩ | ⟨_, -, ⟨⟩⟩
    exact hparen _ (.inl rfl) hkind hkind'
  · rcases sign?_cases hsign' with ⟨-, ⟨⟩⟩ | ⟨hkind', -⟩ | ⟨_, -, ⟨⟩⟩
    exact hparen _ (.inr rfl) hkind hkind'
  · rcases sign?_cases hsign' with ⟨-, ⟨⟩⟩ | ⟨-, ⟨⟩⟩ | ⟨_, hatom', ⟨⟩⟩
    rcases atom?_eq_ok_iff.1 hatom with ⟨hkind, rfl⟩ | ⟨hkind, rfl⟩ | ⟨hkind, n, hread, rfl⟩
    · rcases atom?_eq_ok_iff.1 hatom' with ⟨hkind', heq⟩ | ⟨-, ⟨⟩⟩ | ⟨-, _, -, ⟨⟩⟩
      exact .text (by rw [hkind]; nofun) (hkind.trans hkind'.symm) (Expr.sym.inj heq)
    · rcases atom?_eq_ok_iff.1 hatom' with ⟨-, ⟨⟩⟩ | ⟨hkind', heq⟩ | ⟨-, _, -, ⟨⟩⟩
      refine .text (by rw [hkind]; nofun) (hkind.trans hkind'.symm) ?_
      rw [text_of_string h hkind, text_of_string h' hkind', Expr.str.inj heq]
    · rcases atom?_eq_ok_iff.1 hatom' with ⟨-, ⟨⟩⟩ | ⟨-, ⟨⟩⟩ | ⟨hkind', _, hread', ⟨⟩⟩
      exact .number hkind hkind' hread hread'

theorem forall₂_of_common {α β γ : Type} {R : α → γ → Prop} {S : β → γ → Prop}
    {T : α → β → Prop} {as : List α} {bs : List β} {cs : List γ} (h : List.Forall₂ R as cs)
    (h' : List.Forall₂ S bs cs) (hT : ∀ a ∈ as, ∀ b ∈ bs, ∀ c, R a c → S b c → T a b) :
    List.Forall₂ T as bs := by
  induction h generalizing bs with
  | nil =>
    cases h'
    exact .nil
  | @cons a c as cs hac _ ih =>
    cases h' with
    | @cons b _ bs _ hbc hrest =>
      refine .cons (hT a List.mem_cons_self b List.mem_cons_self c hac hbc) (ih hrest ?_)
      exact fun a ha b hb => hT a (List.mem_cons_of_mem _ ha) b (List.mem_cons_of_mem _ hb)

/-- Tokens in their languages stand for the same signs just if those that count agree, one
    for one. -/
theorem Spells.eq_iff {tokens' : List Token} {signs signs' : List Sign}
    (hwf : ∀ token ∈ tokens, token.WellFormed) (hwf' : ∀ token ∈ tokens', token.WellFormed)
    (h : Spells tokens signs) (h' : Spells tokens' signs') :
    signs = signs' ↔
      List.Forall₂ Token.Agrees (Token.significant tokens) (Token.significant tokens') := by
  unfold Spells at h h'
  constructor
  · rintro rfl
    refine forall₂_of_common h h' fun token htoken other hother sign hsign hsign' => ?_
    exact Token.agrees_of_sign? (hwf token (List.mem_filter.1 htoken).1)
      (hwf' other (List.mem_filter.1 hother).1) hsign hsign'
  · intro hagree
    generalize Token.significant tokens = as at h hagree
    generalize Token.significant tokens' = bs at h' hagree
    induction hagree generalizing signs signs' with
    | nil =>
      cases h
      cases h'
      rfl
    | cons hfirst _ ih =>
      cases h with
      | cons hsign hrest =>
        cases h' with
        | cons hsign' hrest' =>
          rw [hfirst.sign?_eq, hsign'] at hsign
          rw [Option.some.inj hsign, ih hrest hrest']

-- ============================================================================
-- The theorem
-- ============================================================================

/-- What was read from a text can be written, and any layout of it reads as it. -/
theorem readSource_layout {source : String} {exprs : List Expr}
    (h : (readSource source : Except (Fault (Value η)) (List Expr)) = .ok exprs) :
    (∀ e ∈ exprs, Written.text? e = some e.text) ∧
      ∀ before rows, IsLayout before rows → rows.map Prod.fst = exprs →
        (readSource (layout before rows) : Except (Fault (Value η)) (List Expr)) = .ok exprs := by
  have hsourced := sourced_of_readSource h
  refine ⟨fun e he => Written.text?_of_fits (hsourced e he).readable.fits, ?_⟩
  rintro before rows hlayout rfl
  have hrows : ∀ row ∈ rows, row.1.Sourced := fun row hrow =>
    hsourced row.1 (List.mem_map_of_mem hrow)
  obtain ⟨tokens, htokens, hread⟩ :=
    exists_tokenize_layout hlayout fun row hrow => (hrows row hrow).readable
  refine readSource_eq_ok_iff.2 ⟨tokens, htokens, ?_⟩
  rw [hread Expr.maxNesting fun row hrow => (hrows row hrow).depth_le]

end LineLisp
