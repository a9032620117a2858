/-
  LineLisp.Proofs.IndependentSessions

  Sessions beside one another. Any number of sessions are started in a common store, on
  roots of their own or on the root of another one, and are given lines in any order. For
  each root the lines that are given to the sessions on it have a run of their own, in a
  store that holds nothing else; that store is inside the common one at every time, and
  the roots of the others have no place in it. So what the others do goes unnoticed, and
  sessions on one root are one session.
-/
import LineLisp.Proofs.Embedding
import LineLisp.Proofs.FreshSession

namespace LineLisp

-- ============================================================================
-- Companies of sessions
-- ============================================================================

/-- What can be done with a company of sessions: one more is started, with a root of its
    own or on the root of a member; or a member is given a line, with some room. -/
inductive Deed where
  | start
  | join (member : Nat)
  | eval (member limit : Nat) (line : String)

/-- A line that was given to a member, with what it came to. -/
structure Answer where
  member : Nat
  root : Nat
  limit : Nat
  line : String
  result : Except (Fault (Value Empty)) (List (Value Empty))

/-- The line of an answer with its room. -/
def Answer.given (answer : Answer) : Nat × String :=
  (answer.limit, answer.line)

/-- Sessions in a common store, with the answers that they gave so far. -/
structure Company where
  members : List Session
  store : Store (Value Empty)
  answers : List Answer

namespace Company

/-- Gives a line to a member that is this session. -/
def give (company : Company) (member : Nat) (session : Session) (limit : Nat) (line : String) :
    Company :=
  let (result, store) := (session.evalWithin limit line).outcome company.store
  let answer : Answer := ⟨member, session.root, limit, line, result⟩
  { company with store, answers := company.answers ++ [answer] }

/-- Carries out a deed. Nothing is done with a member that there is not. -/
def carryOut (company : Company) : Deed → Company
  | .start =>
    let (session, store) := Session.start company.store
    { company with members := company.members ++ [session], store }
  | .join member =>
    match company.members[member]? with
    | some session => { company with members := company.members ++ [⟨session.root⟩] }
    | none => company
  | .eval member limit line =>
    match company.members[member]? with
    | some session => company.give member session limit line
    | none => company

/-- What deeds make of a company that has no members yet, in an empty store. -/
def after (deeds : List Deed) : Company :=
  deeds.foldl carryOut ⟨[], .empty, []⟩

/-- The answers of all members on one root, in order. -/
def answersOn (company : Company) (root : Nat) : List Answer :=
  company.answers.filter fun answer => answer.root = root

/-- The answers of one member, in order. -/
def answersOf (company : Company) (member : Nat) : List Answer :=
  company.answers.filter fun answer => answer.member = member

/-- The run of the lines that were given to the members on one root, by a session that has a
    store for itself. -/
def alone (company : Company) (root : Nat) :
    Except (Fault (Value Empty)) (List (Except (Fault (Value Empty)) (List (Value Empty)))) ×
      Store (Value Empty) :=
  (freshSession.1.evalLines ((company.answersOn root).map Answer.given)).outcome freshSession.2

end Company

-- ============================================================================
-- Lines
-- ============================================================================

section

variable {η : Type} [Host η]

theorem Session.evalWithin_touches (session : Session) (limit : Nat) (line : String) :
    Run.Touches [session.root]
      (session.evalWithin limit line : Run (Value η) (List (Value η))) :=
  (Run.Touches.ofExcept _).bind fun _ => .mapM (fun e => (Run.Touches.ofExcept (compileExpr e)).bind
    fun node => node.evaluate_touches limit session.root) _

/-- One more line is run in the store that the lines before it left. -/
theorem Session.evalLines_concat (session : Session) {lines : List (Nat × String)}
    {results : List (Except (Fault (Value η)) (List (Value η)))} {s t : Store (Value η)}
    (h : (session.evalLines lines).outcome s = (.ok results, t)) (limit : Nat) (line : String) :
    (session.evalLines (lines ++ [(limit, line)])).outcome s =
      (.ok (results ++ [((session.evalWithin limit line).outcome t).1]),
        ((session.evalWithin limit line).outcome t).2) := by
  rw [evalLines, Run.outcome_mapM_append h]
  rfl

end

theorem Store.AgreesOutside.defineAll {ν : Type} {touched : List Nat} {f : Nat} (hf : f ∈ touched)
    (s : Store ν) (bs : Bindings ν) : s.AgreesOutside touched (s.defineAll f bs) := by
  induction bs generalizing s with
  | nil => exact .refl s
  | cons b bs ih => exact (define hf b.1 b.2).trans (ih _)

/-- Starting a session changes no frame that is there already. -/
theorem Session.start_agreesOutside (s : Store (Value Empty)) :
    s.AgreesOutside [] (Session.start s).2 :=
  ((Store.AgreesOutside.add s none).trans
    (.defineAll (List.mem_singleton.2 rfl) _ builtins)).of_cons_next

/-- The store of a fresh session is inside every store in which a session was just started. -/
theorem Store.Embedded.start {t : Store (Value Empty)} (ht : t.WellFormed) :
    freshSession.2.Embedded ⟨[t.next], t.next + 1⟩ (Session.start t).2 := by
  have hroot := (Store.Embedded.empty (η := Empty) ht).add .none
  refine hroot.defineAll (f := 0) (g := t.next) rfl ?_
  exact .cons ⟨rfl, .datum trivial⟩ (.cons ⟨rfl, .primitive _ _⟩ .nil)

-- ============================================================================
-- What deeds keep
-- ============================================================================

/-- Results of a line that correspond. -/
abbrev LineAlike (w : Placing)
    (r r' : Except (Fault (Value Empty)) (List (Value Empty))) : Prop :=
  Result.Rel (Value.Placed w) (List.Forall₂ (Value.Placed w)) r r'

theorem LineAlike.mono {w w' : Placing} (hw : w ≤ w')
    {r r' : Except (Fault (Value Empty)) (List (Value Empty))} (h : LineAlike w r r') :
    LineAlike w' r r' := by
  cases h with
  | ok hvs => exact .ok (hvs.imp fun _ _ hv => hv.mono hw)
  | error hfault => exact .error (hfault.imp fun _ _ hv => hv.mono hw)

theorem LineAlike.movesTo {w : Placing}
    {r r' : Except (Fault (Value Empty)) (List (Value Empty))} (h : LineAlike w r r') :
    Result.Rel (Value.MovesTo w.move) (List.Forall₂ (Value.MovesTo w.move)) r r' := by
  cases h with
  | ok hvs => exact .ok (hvs.imp fun _ _ hv => hv.movesTo)
  | error hfault => exact .error (hfault.imp fun _ _ hv => hv.movesTo)

namespace Company

variable {c : Company} {root : Nat} {w : Placing}

/-- The members on a root have given the answers of a session that has a store for itself.
    That store is inside the common one, and the roots of the others have no place in it. -/
structure Undisturbed (c : Company) (root : Nat) (w : Placing) : Prop where
  place : w.At freshSession.1.root root
  embedded : (c.alone root).2.Embedded w c.store
  answers : ∃ results, (c.alone root).1 = .ok results ∧
    List.Forall₂ (fun r answer => LineAlike w r answer.result) results (c.answersOn root)
  apart : ∀ session ∈ c.members, session.root ≠ root → session.root ∉ w.frames

/-- What holds of a company at every time. -/
structure Sound (c : Company) : Prop where
  wellFormed : c.store.WellFormed
  root_lt : ∀ session ∈ c.members, session.root < c.store.next
  answered : ∀ answer ∈ c.answers, ∃ session, c.members[answer.member]? = some session ∧
    session.root = answer.root
  undisturbed : ∀ session ∈ c.members, ∃ w, c.Undisturbed session.root w

theorem Sound.answer_lt (h : c.Sound) {answer : Answer} (hanswer : answer ∈ c.answers) :
    answer.root < c.store.next := by
  obtain ⟨session, hsession, hroot⟩ := h.answered answer hanswer
  rw [← hroot]
  exact h.root_lt session (List.mem_of_getElem? hsession)

/-- Another member does not matter to the answers so far. -/
theorem Sound.answered_concat (h : c.Sound) (newcomer : Session) :
    ∀ answer ∈ c.answers, ∃ session,
      (c.members ++ [newcomer])[answer.member]? = some session ∧ session.root = answer.root := by
  intro answer hanswer
  obtain ⟨session, hsession, hroot⟩ := h.answered answer hanswer
  refine ⟨session, ?_, hroot⟩
  rw [List.getElem?_append_left (List.getElem?_eq_some_iff.1 hsession).1]
  exact hsession

theorem Sound.empty : Sound ⟨[], .empty, []⟩ :=
  ⟨Store.wellFormed_empty, nofun, nofun, nofun⟩

/-- What is done elsewhere does not disturb the members on a root. -/
theorem Undisturbed.elsewhere {c' : Company} (h : c.Undisturbed root w) {touched : List Nat}
    (hstore : c.store.AgreesOutside touched c'.store) (hwf : c'.store.WellFormed)
    (htouched : ∀ g ∈ touched, g ∉ w.frames) (hanswers : c'.answersOn root = c.answersOn root)
    (hmembers : ∀ session ∈ c'.members, session.root ≠ root → session.root ∉ w.frames) :
    c'.Undisturbed root (w.within c'.store.next) where
  place := h.place
  embedded := by
    rw [alone, hanswers]
    exact h.embedded.elsewhere hstore hwf htouched
  answers := by
    rw [alone, hanswers]
    exact h.answers
  apart := hmembers

theorem Sound.start (h : c.Sound) : (c.carryOut .start).Sound := by
  have hembedded := Store.Embedded.start h.wellFormed
  show Sound ⟨c.members ++ [⟨c.store.next⟩], (Session.start c.store).2, c.answers⟩
  refine ⟨hembedded.wellFormed', fun session hsession => ?_, h.answered_concat _,
    fun session hsession => ?_⟩
  · have hnext : (Session.start c.store).2.next = c.store.next + 1 := hembedded.next'
    rw [hnext]
    rcases List.mem_append.1 hsession with hold | hlast
    · exact Nat.lt_succ_of_lt (h.root_lt session hold)
    · obtain rfl := List.mem_singleton.1 hlast
      exact Nat.lt_succ_self _
  · rcases List.mem_append.1 hsession with hold | hlast
    · obtain ⟨w, hw⟩ := h.undisturbed session hold
      refine ⟨_, hw.elsewhere (Session.start_agreesOutside c.store) hembedded.wellFormed' nofun rfl
        fun other hother hne => ?_⟩
      rcases List.mem_append.1 hother with hold' | hlast'
      · exact hw.apart other hold' hne
      · obtain rfl := List.mem_singleton.1 hlast'
        exact fun hmem => Nat.lt_irrefl _ (hw.embedded.next' ▸ hw.embedded.lt _ hmem)
    · -- Nobody has answered yet on the new root.
      obtain rfl := List.mem_singleton.1 hlast
      have hnone : c.answersOn c.store.next = [] :=
        List.filter_eq_nil_iff.2 fun answer hanswer hroot =>
          Nat.ne_of_lt (h.answer_lt hanswer) (of_decide_eq_true hroot)
      refine ⟨⟨[c.store.next], c.store.next + 1⟩, rfl, ?_, ?_, fun other hother hne hmem => ?_⟩
      · show Store.Embedded _ ((freshSession.1.evalLines ((c.answersOn c.store.next).map
          Answer.given)).outcome freshSession.2).2 _
        rw [hnone]
        exact hembedded
      · show ∃ results, ((freshSession.1.evalLines ((c.answersOn c.store.next).map
          Answer.given)).outcome freshSession.2).1 = .ok results ∧
            List.Forall₂ _ results (c.answersOn c.store.next)
        rw [hnone]
        exact ⟨[], rfl, .nil⟩
      · exact hne (List.mem_singleton.1 hmem)

theorem Sound.join (h : c.Sound) (member : Nat) : (c.carryOut (.join member)).Sound := by
  simp only [carryOut]
  split
  · next session hsession =>
    have hmember : session ∈ c.members := List.mem_of_getElem? hsession
    have hroots : ∀ other ∈ c.members ++ [⟨session.root⟩], ∃ old ∈ c.members,
        old.root = other.root := by
      intro other hother
      rcases List.mem_append.1 hother with hold | hlast
      · exact ⟨other, hold, rfl⟩
      · exact ⟨session, hmember, by rw [List.mem_singleton.1 hlast]⟩
    refine ⟨h.wellFormed, fun other hother => ?_, h.answered_concat _, fun other hother => ?_⟩
    · obtain ⟨old, hold, hroot⟩ := hroots other hother
      exact hroot ▸ h.root_lt old hold
    · obtain ⟨old, hold, hroot⟩ := hroots other hother
      obtain ⟨w, hw⟩ := h.undisturbed old hold
      rw [hroot] at hw
      have hsame : c.store.AgreesOutside [] c.store := .refl c.store
      refine ⟨_, hw.elsewhere hsame h.wellFormed nofun rfl fun another hanother hne => ?_⟩
      obtain ⟨old', hold', hroot'⟩ := hroots another hanother
      exact hroot' ▸ hw.apart old' hold' (hroot' ▸ hne)
  · exact h

section

variable {session : Session} {member limit : Nat} {line : String}

theorem answersOn_give_self : (c.give member session limit line).answersOn session.root =
    c.answersOn session.root ++ [⟨member, session.root, limit, line,
      ((session.evalWithin limit line).outcome c.store).1⟩] := by
  simp [answersOn, give]

theorem answersOn_give_of_ne (h : session.root ≠ root) :
    (c.give member session limit line).answersOn root = c.answersOn root := by
  simp [answersOn, give, h]

/-- The run of a root alone goes on with the line that was given to a member on it. -/
theorem alone_give_self {results : List (Except (Fault (Value Empty)) (List (Value Empty)))}
    (h : (c.alone session.root).1 = .ok results) :
    (c.give member session limit line).alone session.root =
      let out := (freshSession.1.evalWithin limit line).outcome (c.alone session.root).2
      (.ok (results ++ [out.1]), out.2) := by
  rw [alone, answersOn_give_self, List.map_append]
  exact freshSession.1.evalLines_concat (Prod.ext h rfl) limit line

/-- A line that is given to a member on a root is answered as by a session that has a store
    for itself. -/
theorem Undisturbed.give_self (h : c.Undisturbed session.root w)
    (hlt : ∀ other ∈ c.members, other.root < c.store.next) :
    ∃ w', (c.give member session limit line).Undisturbed session.root w' := by
  obtain ⟨results, hresults, hanswers⟩ := h.answers
  have hcode : ∀ node, CodeOf line node →
      placingLikeness.Codes w node freshSession.1.root node session.root :=
    fun _ _ => ⟨rfl, h.place⟩
  obtain ⟨w', hw, hinside, hends⟩ := placingLikeness_closed.evalWithin (fun _ => trivial) hcode
    limit w le_rfl _ _ h.embedded
  refine ⟨w', h.place.mono hw, ?_, ?_, fun other hother hne hmem => ?_⟩
  · rw [alone_give_self hresults]
    exact hinside
  · rw [alone_give_self hresults, answersOn_give_self]
    refine ⟨_, rfl, List.rel_append (hanswers.imp fun _ _ hr => hr.mono hw) ?_⟩
    exact .cons hends.result .nil
  · rcases hw.2.2 _ hmem with hold | hle
    · exact h.apart other hother hne hold
    · exact Nat.lt_irrefl _ (Nat.lt_of_lt_of_le (hlt other hother) (h.embedded.next' ▸ hle))

theorem Sound.give (h : c.Sound) (hsession : c.members[member]? = some session) :
    (c.give member session limit line).Sound := by
  have hmember : session ∈ c.members := List.mem_of_getElem? hsession
  have hown : ∃ w, (c.give member session limit line).Undisturbed session.root w := by
    obtain ⟨w, hw⟩ := h.undisturbed session hmember
    exact hw.give_self h.root_lt
  have hwf : (c.give member session limit line).store.WellFormed := by
    obtain ⟨w, hw⟩ := hown
    exact hw.embedded.wellFormed'
  have hstore : c.store.AgreesOutside [session.root] (c.give member session limit line).store :=
    session.evalWithin_touches limit line c.store
  refine ⟨hwf, fun other hother => ?_, fun answer hanswer => ?_, fun other hother => ?_⟩
  · exact Nat.lt_of_lt_of_le (h.root_lt other hother) hstore.1
  · rcases List.mem_append.1 hanswer with hold | hlast
    · exact h.answered answer hold
    · obtain rfl := List.mem_singleton.1 hlast
      exact ⟨session, hsession, rfl⟩
  · by_cases hroot : session.root = other.root
    · exact hroot ▸ hown
    · obtain ⟨w, hw⟩ := h.undisturbed other hother
      refine ⟨_, hw.elsewhere hstore hwf (fun g hg => ?_) (answersOn_give_of_ne hroot) hw.apart⟩
      rw [List.mem_singleton.1 hg]
      exact hw.apart session hmember hroot

end

theorem Sound.carryOut (h : c.Sound) (deed : Deed) : (c.carryOut deed).Sound := by
  cases deed with
  | start => exact h.start
  | join member => exact h.join member
  | eval member limit line =>
    simp only [Company.carryOut]
    split
    · next session hsession => exact h.give hsession
    · exact h

/-- Whatever is done with a company, it stays sound. -/
theorem sound_after (deeds : List Deed) : (after deeds).Sound := by
  have hfold : ∀ c : Company, c.Sound → (deeds.foldl Company.carryOut c).Sound := by
    induction deeds with
    | nil => exact fun _ h => h
    | cons deed deeds ih => exact fun c h => ih _ (h.carryOut deed)
  exact hfold _ .empty

end Company

-- ============================================================================
-- The theorem
-- ============================================================================

section

variable {η : Type}

/-- A store that is the same as a part of another one but for the numbers of frames: each
    of its frames is one of the other, which lies in the same frame and binds the same names
    in the same order to the same values. -/
structure Store.MovesInto (move : Nat → Nat) (s t : Store (Value η)) : Prop where
  lt : ∀ f < s.next, move f < t.next
  inj : ∀ f < s.next, ∀ g < s.next, move f = move g → f = g
  parent : ∀ f < s.next, t.parent? (move f) = (s.parent? f).map move
  bindings : ∀ f < s.next, (s.bindings f).Agrees (Value.MovesTo move) (t.bindings (move f))

theorem Store.Embedded.movesInto {w : Placing} {s t : Store (Value η)} (h : s.Embedded w t) :
    s.MovesInto w.move t := by
  have hplace : ∀ f < s.next, w.At f (w.move f) := fun f hf => Placing.at_move (h.next ▸ hf)
  refine ⟨fun f hf => ?_, fun f hf g hg heq => ?_, fun f hf => ?_, fun f hf => ?_⟩
  · exact h.next' ▸ h.lt _ (hplace f hf).mem
  · exact (hplace f hf).inj h.nodup (heq ▸ hplace g hg)
  · have hparent := h.parent f _ (hplace f hf)
    generalize s.parent? f = p at hparent
    generalize t.parent? (w.move f) = q at hparent
    cases hparent with
    | none => rfl
    | some houter => rw [Option.map_some, houter.move_eq]
  · exact (h.bindings f _ (hplace f hf)).imp fun _ _ hv => hv.movesTo

/-- What is written of the result of a line: the texts of the values, or the message of a
    fault as it is seen from outside. -/
def shownLine : Except (Fault (Value η)) (List (Value η)) → Except String (List (Option String))
  | .ok values => .ok (values.map Written.text?)
  | .error fault => .error fault.settled.message

theorem Result.Rel.shownLine_eq {R : Value η → Value η → Prop} (hR : ∀ v w, R v w → v.SameText w)
    {r r' : Except (Fault (Value η)) (List (Value η))} (h : Result.Rel R (List.Forall₂ R) r r') :
    shownLine r' = shownLine r := by
  cases h with
  | ok hvs =>
    have htexts : List.Forall₂ (fun v w => Written.text? v = Written.text? w) _ _ :=
      hvs.imp fun v w hvw => by simp only [Written.text?, (hR v w hvw).1, (hR v w hvw).2]
    exact congrArg Except.ok (List.forall₂_eq_eq_eq ▸ List.forall₂_map_left_iff.2
      (List.forall₂_map_right_iff.2 htexts)).symm
  | error hfault =>
    have hshown := (Result.Rel.error hfault : Result.Rel R R _ _).shown_eq hR
    simp only [shownResult, Except.error.injEq] at hshown
    rw [shownLine, shownLine, hshown]

end

/-- Sessions do not interfere. In a company whose members were started, on roots of their own
    or on the root of another member, and were given lines in any order, of which some may
    fail, take any member. All members on its root together have given the answers that one
    session gives to their lines in that order, if it has a store for itself: the same values
    or the same faults with the same data, line by line, of which the same is written. All the
    frames of that store are in the common one, and the root, like each of them, binds the same
    names in the same order to the same values; only the numbers of frames differ. If no other
    member is on the root, these answers are those of the member alone. -/
theorem sessions_do_not_interfere (deeds : List Deed) :
    (∀ session : Session, session.evalWithin maxDepth =
      (session.eval : String → Run (Value Empty) (List (Value Empty)))) ∧
    let company := Company.after deeds
    ∀ member session, company.members[member]? = some session →
      (∃ move : Nat → Nat, move freshSession.1.root = session.root ∧
        (company.alone session.root).2.MovesInto move company.store ∧
        ∃ results, (company.alone session.root).1 = .ok results ∧
          List.Forall₂ (fun r answer =>
            Result.Rel (Value.MovesTo move) (List.Forall₂ (Value.MovesTo move)) r answer.result ∧
              shownLine answer.result = shownLine r) results (company.answersOn session.root)) ∧
      ((∀ other session', other ≠ member → company.members[other]? = some session' →
          session'.root ≠ session.root) →
        company.answersOn session.root = company.answersOf member) := by
  refine ⟨fun session => session.evalWithin_maxDepth, ?_⟩
  intro company member session hsession
  have hsound : company.Sound := Company.sound_after deeds
  obtain ⟨w, hw⟩ := hsound.undisturbed session (List.mem_of_getElem? hsession)
  refine ⟨⟨w.move, hw.place.move_eq, hw.embedded.movesInto, ?_⟩, fun hown => ?_⟩
  · obtain ⟨results, hresults, hanswers⟩ := hw.answers
    exact ⟨results, hresults, hanswers.imp fun r answer hr =>
      ⟨hr.movesTo, hr.shownLine_eq fun _ _ => Value.Alike.sameText⟩⟩
  · refine List.filter_congr fun answer hanswer => ?_
    obtain ⟨session', hsession', hroot⟩ := hsound.answered answer hanswer
    by_cases hmember : answer.member = member
    · rw [hmember] at hsession'
      obtain rfl := Option.some.inj (hsession.symm.trans hsession')
      simp [hmember, hroot]
    · have hne := hown answer.member session' hmember hsession'
      rw [hroot] at hne
      simp [hmember, hne]

/-- Three sessions, of which the first and the third are on one root. The second defines the
    same names as the first in between, and a line of the third one fails after it bound a
    name. That name is there for the first session and unbound for the second, whose closure
    has captured another frame than it would have alone. -/
theorem closures_of_three_sessions_stay_apart :
    let counter (n : String) : String :=
      "(set make (lambda (n) (lambda () n))) (set count (make " ++ n ++ "))"
    let company : Company := .after [.start, .eval 0 9 (counter "3"), .start,
      .eval 1 9 (counter "4"), .join 0, .eval 2 9 "(set more 5) (count 1)",
      .eval 1 9 "(add (count) more)", .eval 0 9 "(add (count) more)", .eval 7 9 "nil"]
    let count (scope : Nat) : Value Empty := .closure [] [.lookup "n"] scope
    company.members = [⟨0⟩, ⟨2⟩, ⟨0⟩] ∧
      (company.answersOn 0).map (·.result.toOption.map List.getLast?) =
        [some (some (count 1)), none, some (some (.int 8))] ∧
      (company.answersOn 2).map (·.result.toOption.map List.getLast?) =
        [some (some (count 3)), none] ∧
      company.answersOn 2 = company.answersOf 1 ∧
      (company.alone 2).2.get? 0 "count" = some (count 1) ∧
      company.store.get? 2 "count" = some (count 3) ∧
      ∃ move : Nat → Nat, move 0 = 2 ∧ move 1 = 3 ∧
        (company.alone 2).2.MovesInto move company.store := by
  intro counter company count
  obtain ⟨hmembers, hshared, hanswers, hcount, hcount', hnext⟩ :
      company.members = [⟨0⟩, ⟨2⟩, ⟨0⟩] ∧
        (company.answersOn 0).map (·.result.toOption.map List.getLast?) =
          [some (some (count 1)), none, some (some (.int 8))] ∧
        (company.answersOn 2).map (·.result.toOption.map List.getLast?) =
          [some (some (count 3)), none] ∧
        (company.alone 2).2.get? 0 "count" = some (count 1) ∧
        company.store.get? 2 "count" = some (count 3) ∧ 0 < (company.alone 2).2.next := by
    decide +kernel
  have hmember : company.members[1]? = some ⟨2⟩ := by
    rw [hmembers]
    rfl
  obtain ⟨⟨move, hroot, hmoves, -⟩, hown⟩ := (sessions_do_not_interfere _).2 1 ⟨2⟩ hmember
  have hroot' : move 0 = 2 := hroot
  refine ⟨hmembers, hshared, hanswers, hown ?_, hcount, hcount', move, hroot, ?_, hmoves⟩
  · intro other session hother hsession hsame
    rw [hmembers] at hsession
    rcases other with _ | _ | _ | other
    · cases hsession
      cases hsame
    · exact hother rfl
    · cases hsession
      cases hsame
    · cases hsession
  · have hget := (hmoves.bindings 0 hnext).get? "count"
    rw [hroot'] at hget
    change Option.Rel _ ((company.alone 2).2.get? 0 "count") (company.store.get? 2 "count") at hget
    rw [hcount, hcount'] at hget
    cases hget with
    | some hmoved => exact (Value.closure.inj hmoved).2.2.symm

end LineLisp
