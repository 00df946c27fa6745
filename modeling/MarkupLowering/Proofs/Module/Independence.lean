import MarkupLowering.Proofs.Emitter.Outline
import MarkupLowering.Proofs.Module.Bodies

/-!
# MarkupLowering.Proofs.Module.Independence

**Emitters do not disturb each other.** An emitter that is asked for things while anything else
happens to the module, other emitters at work on other methods included, answers what it would
answer if it were asked for the same things alone, and finishes the same body, up to what the tokens
in it are and to the digests of documents (`Body.outline`).

The emitter in the session is followed by one that is `answerAll` by itself (`Follows`): turns
that concern the emitter keep the two outlines the same, and all others leave it alone. The main
statement is `emitters_independent`.
-/

namespace MarkupLowering

/-! ### One emitter among others -/

/-- What a turn asks of the emitter `k`. -/
def Turn.asked (k : Nat) (t : Turn) : Option Request :=
  match t.action with
  | .request j r => if j = k then some r else none
  | _ => none

/-- What the emitter `k` answers in a turn. -/
def Turn.reply (k : Nat) (t : Turn) : Option (Except EmitError Reply) := do
  let r ← t.asked k
  let e ← t.session.emitters k
  some (Result.outcome (r.answer ⟨t.session.module, e⟩))

/-- The action leaves no emitter `k`, or another one. -/
def Action.Retires (k : Nat) : Action → Prop
  | .openEmitter j _ | .finish j | .drop j => j = k
  | _ => False

/-- An emitter by itself is asked for one thing after the other: what it answers, and what it and
its module are then. -/
def answerAll (s : Emission) : List Request → List (Except EmitError Reply) × Emission
  | [] => ([], s)
  | r :: rs =>
    let (replies, s') := answerAll (Result.state (r.answer s)) rs
    (Result.outcome (r.answer s) :: replies, s')

theorem answerAll_append (s : Emission) (rs : List Request) (r : Request) :
    answerAll s (rs ++ [r]) =
      ((answerAll s rs).1 ++ [Result.outcome (r.answer (answerAll s rs).2)],
        Result.state (r.answer (answerAll s rs).2)) := by
  induction rs generalizing s with
  | nil => rfl
  | cons r' rs ih => simp [answerAll, ih]

/-- Results that are alike return the same. -/
theorem Result.Alike.outcome {α : Type} {x y : EStateM.Result EmitError Emission α}
    (h : Result.Alike Eq x y) :
    Result.outcome x = Result.outcome y ∧
      (Result.state x).emitter.outline = (Result.state y).emitter.outline := by
  cases x <;> cases y
  · exact ⟨congrArg Except.ok h.1, h.2⟩
  · exact h.elim
  · exact h.elim
  · exact ⟨congrArg Except.error h.1, h.2⟩

theorem Request.state_perform (r : Request) (s : Emission) :
    Result.state (r.perform s) = Result.state (r.answer s) := by
  cases h : r.answer s with
  | ok a s' => rw [perform_of_answer h]; rfl
  | error err s' => rw [perform_of_refusal h]; rfl

theorem Request.row_state (r : Request) (s : Emission) :
    (Result.state (r.answer s)).emitter.row = s.emitter.row := by
  cases h : r.answer s with
  | ok a s' => exact (perform_owner (perform_of_answer h)).1
  | error err s' => rw [r.atomic_answer s err s' h]; rfl

namespace Session

variable {s s' : Session} {a : Action} {k : Nat}

/-- An emitter that is not concerned stays what it is. -/
theorem Changes.emitters_eq (h : s.Changes a s') (hretires : ¬ a.Retires k)
    (hasked : Turn.asked k ⟨s, a⟩ = none) : s'.emitters k = s.emitters k := by
  have hother : ∀ {j} {m : Module} {e : Option Emitter}, j ≠ k →
      ({ s with module := m }.setEmitter j e).emitters k = s.emitters k := by
    intro j m e hj
    rw [setEmitter_emitters, if_neg fun hkj => hj hkj.symm]
  cases h with
  | @opened j owner e _ => exact hother (m := s.module) hretires
  | @requested j r e t _ _ =>
    refine hother fun hj => ?_
    simp [Turn.asked, hj] at hasked
  | @finished j e m _ _ => exact hother hretires
  | closed j ha =>
    rcases ha with rfl | rfl <;> exact hother (m := s.module) hretires
  | idle | built _ | imported _ | documented _ | allotted _ | extended _ _ => rfl

theorem emitters_request {e : Emitter} (he : s.emitters k = some e) (r : Request) :
    (s.after (.request k r)).emitters k = some (Result.state (r.answer ⟨s.module, e⟩)).emitter := by
  rw [← Request.state_perform]
  simp only [after, Action.perform, requesting, he]
  split <;> rename_i hr <;> rw [hr] <;> exact if_pos rfl

/-- All emitters but `k` are at work on other rows. -/
def Apart (k row : Nat) (s : Session) : Prop :=
  ∀ j e, j ≠ k → s.emitters j = some e → e.row ≠ row

/-- Emitters stay at work on other rows if those that are opened are. -/
theorem Apart.changes {row : Nat} (hs : s.Apart k row) (h : s.Changes a s')
    (hopens : ∀ j owner e, a = .openEmitter j owner → s.module.emitter owner = .ok e →
      e.row ≠ row) :
    s'.Apart k row := by
  intro j e' hj he'
  cases h with
  | @opened i owner e hopen =>
    rw [setEmitter_emitters] at he'
    split at he'
    · cases he'
      exact hopens i owner _ rfl hopen
    · exact hs j e' hj he'
  | @requested i r e t he hr =>
    rw [setEmitter_emitters] at he'
    split at he'
    · rename_i hji
      subst hji
      cases he'
      rw [(Request.perform_owner hr).1]
      exact hs j _ hj he
    · exact hs j e' hj he'
  | finished _ _ | closed _ _ =>
    rw [setEmitter_emitters] at he'
    split at he'
    · cases he'
    · exact hs j e' hj he'
  | idle | built _ | imported _ | documented _ | allotted _ | extended _ _ => exact hs j e' hj he'

/-- A row that no other emitter is at work on gets no body from them. -/
theorem Apart.vacant {row : Nat} (hs : s.Apart k row) (h : s.Changes a s')
    (hretires : ¬ a.Retires k) (hnone : s.module.bodyAt row = none) :
    s'.module.bodyAt row = none := by
  by_cases hfinish : ∃ j, a = .finish j
  · obtain ⟨j, rfl⟩ := hfinish
    cases h with
    | @finished _ e m he hm =>
      obtain ⟨body, -, rfl⟩ := Emitter.finish_inv hm
      rw [setEmitter_module, Module.bodyAt_setBody_of_ne (hs j e hretires he), hnone]
    | idle | closed _ _ => exact hnone
  · rw [h.bodyAt (fun j hj => hfinish ⟨j, hj⟩), hnone]

end Session

/-! ### Following an emitter -/

/-- After the turns of `log` the emitter `k` is at work on `row`. It has answered what one that
starts from `start` answers by itself, and the two have one outline. -/
structure Follows (k row : Nat) (start : Emission) (log : List Turn) (s : Session) : Prop where
  emitter : ∃ e, s.emitters k = some e ∧ e.row = row ∧
    e.outline = (answerAll start (log.filterMap (Turn.asked k))).2.emitter.outline
  replies : log.filterMap (Turn.reply k) = (answerAll start (log.filterMap (Turn.asked k))).1

namespace Follows

variable {k row : Nat} {start : Emission} {log : List Turn} {s : Session}

/-- The emitter is asked for something. -/
theorem request (h : Follows k row start log s) (r : Request) :
    Follows k row start (log ++ [⟨s, .request k r⟩]) (s.after (.request k r)) := by
  obtain ⟨e, he, hrow, houtline⟩ := h.emitter
  obtain ⟨hreply, hstate⟩ := (r.alike_answer ⟨s.module, e⟩ _ houtline).outcome
  have hasked : Turn.asked k ⟨s, .request k r⟩ = some r := if_pos rfl
  have hreplied : Turn.reply k ⟨s, .request k r⟩ =
      some (Result.outcome (r.answer ⟨s.module, e⟩)) := by
    simp [Turn.reply, hasked, he]
  have hlog : (log ++ [(⟨s, .request k r⟩ : Turn)]).filterMap (Turn.asked k) =
      log.filterMap (Turn.asked k) ++ [r] := by
    simp [List.filterMap_append, hasked]
  refine ⟨⟨_, Session.emitters_request he r, ?_, ?_⟩, ?_⟩
  · rw [Request.row_state, hrow]
  · rw [hlog, answerAll_append, hstate]
  · rw [hlog, answerAll_append, List.filterMap_append, h.replies, ← hreply]
    simp [hreplied]

/-- Something else is done. -/
theorem elsewhere (h : Follows k row start log s) {a : Action} (hretires : ¬ a.Retires k)
    (hasked : Turn.asked k ⟨s, a⟩ = none) :
    Follows k row start (log ++ [⟨s, a⟩]) (s.after a) := by
  obtain ⟨e, he, hrow, houtline⟩ := h.emitter
  have hlog :
      (log ++ [(⟨s, a⟩ : Turn)]).filterMap (Turn.asked k) = log.filterMap (Turn.asked k) := by
    simp [List.filterMap_append, hasked]
  refine ⟨⟨e, ?_, hrow, by rw [hlog]; exact houtline⟩, ?_⟩
  · rw [(Session.changes_after s a).emitters_eq hretires hasked, he]
  · rw [hlog, ← h.replies]
    simp [List.filterMap_append, Turn.reply, hasked]

end Follows

/-- Whatever happens in between, the emitter is followed. -/
theorem History.follows {s₀ s : Session} {log : List Turn} {k : Nat} {e₀ : Emitter}
    (start : Emission) (h : History s₀ log s) (he₀ : s₀.emitters k = some e₀)
    (houtline : e₀.outline = start.emitter.outline) (hown : ∀ t ∈ log, ¬ t.action.Retires k) :
    Follows k e₀.row start log s := by
  induction h with
  | start => exact ⟨⟨e₀, he₀, rfl, houtline⟩, rfl⟩
  | @turn log s a _ _ ih =>
    have hfollows := ih fun t ht => hown t (List.mem_append_left _ ht)
    cases hasked : Turn.asked k ⟨s, a⟩ with
    | none => exact hfollows.elsewhere (hown ⟨s, a⟩ (by simp)) hasked
    | some r =>
      obtain rfl : a = .request k r := by
        unfold Turn.asked at hasked
        split at hasked
        · rename_i j r' ha
          obtain ⟨rfl, hr⟩ := Option.ite_none_right_eq_some.mp hasked
          cases hr
          exact ha
        · cases hasked
      exact hfollows.request r

/-- A row on which only the emitter `k` is at work has no body while that emitter is open. -/
theorem History.vacant {s₀ s : Session} {log : List Turn} {k row : Nat} (h : History s₀ log s)
    (hnone : s₀.module.bodyAt row = none) (hapart : s₀.Apart k row)
    (hown : ∀ t ∈ log, ¬ t.action.Retires k)
    (hopens : ∀ t ∈ log, ∀ j owner e, t.action = .openEmitter j owner →
      t.session.module.emitter owner = .ok e → e.row ≠ row) :
    s.Apart k row ∧ s.module.bodyAt row = none := by
  induction h with
  | start => exact ⟨hapart, hnone⟩
  | @turn log s a _ _ ih =>
    obtain ⟨hs, hvacant⟩ := ih (fun t ht => hown t (List.mem_append_left _ ht))
      (fun t ht => hopens t (List.mem_append_left _ ht))
    have hchanges := Session.changes_after s a
    exact ⟨hs.changes hchanges (hopens ⟨s, a⟩ (by simp)),
      hs.vacant hchanges (hown ⟨s, a⟩ (by simp)) hvacant⟩

/-! ### Opening and finishing -/

theorem Module.outline_emitter {m m' : Module} {owner owner' : BodyOwner} {e e' : Emitter}
    (h : m.emitter owner = .ok e) (h' : m'.emitter owner' = .ok e')
    (hrow : m'.methods[e'.row]? = m.methods[e.row]?) (hname : owner'.render = owner.render) :
    e.outline = e'.outline := by
  obtain ⟨method, hmethod, -, he⟩ := Module.emitter_eq h
  obtain ⟨method', hmethod', -, he'⟩ := Module.emitter_eq h'
  obtain rfl : method' = method := Option.some.inj (by rw [← hmethod', ← hmethod, hrow])
  rw [he, he', hname]
  rfl

/-- What is asked of an emitter by itself changes neither its row nor any body. -/
theorem answerAll_keeps (s : Emission) (rs : List Request) :
    (answerAll s rs).2.emitter.row = s.emitter.row ∧
      (answerAll s rs).2.module.methods = s.module.methods := by
  induction rs generalizing s with
  | nil => exact ⟨rfl, rfl⟩
  | cons r rs ih =>
    obtain ⟨hrow, hmethods⟩ := ih (Result.state (r.answer s))
    refine ⟨hrow.trans (r.row_state s), hmethods.trans ?_⟩
    cases hr : r.answer s with
    | ok a s' => exact (Request.sameRows (Request.perform_of_answer hr)).methods
    | error err s' =>
      rw [r.atomic_answer s err s' hr]
      rfl

/-- Emitters of one outline finish alike, each on a row without a body. -/
theorem Emitter.finish_alike {e e' : Emitter} {m m' : Module} (houtline : e.outline = e'.outline)
    (hvacant : m.bodyAt e.row = none) (hvacant' : m'.bodyAt e'.row = none) :
    Result.outcome (e.finish m) = Result.outcome (e'.finish m') ∧
      ∀ b b', e.finishedBody = .ok b → e'.finishedBody = .ok b' → b.outline = b'.outline := by
  have hbodies : e.finishedBody.map Body.outline = e'.finishedBody.map Body.outline := by
    rw [← outline_finishedBody, ← outline_finishedBody, houtline]
  cases hb : e.finishedBody with
  | error err =>
    cases hb' : e'.finishedBody with
    | error err' =>
      rw [hb, hb'] at hbodies
      cases hbodies
      simp [finish, hb, hb', Result.outcome]
    | ok b' =>
      rw [hb, hb'] at hbodies
      cases hbodies
  | ok b =>
    cases hb' : e'.finishedBody with
    | error err' =>
      rw [hb, hb'] at hbodies
      cases hbodies
    | ok b' =>
      rw [hb, hb'] at hbodies
      rw [finish_granted hvacant hb, finish_granted hvacant' hb']
      refine ⟨rfl, ?_⟩
      rintro _ _ ⟨⟩ ⟨⟩
      exact Except.ok.inj hbodies

/-! ### The main statement -/

/-- An emitter `k` is at work on a method of a module to which anything happens meanwhile: builders,
imports, documents, and emitters that work on other methods. Then it answers each request as it
would by itself in any module with the same method row. In the end finishing succeeds in both, with
bodies of the same outline, or fails in both with the same error. Bodies of one outline have the
same instructions at the same offsets, with the same arguments where these are not tokens, the same
locals and the same debug information, the digests of documents apart. -/
theorem emitters_independent {s₀ s : Session} {m : Module} {owner owner' : BodyOwner}
    {e₀ e₀' : Emitter} {k : Nat} {log : List Turn} (hnew : s₀.module.emitter owner = .ok e₀)
    (hlog : History (s₀.setEmitter k (some e₀)) log s)
    (hown : ∀ t ∈ log, ¬ t.action.Retires k)
    (hothers : s₀.Apart k e₀.row)
    (hopens : ∀ t ∈ log, ∀ j owner e, t.action = .openEmitter j owner →
      t.session.module.emitter owner = .ok e → e.row ≠ e₀.row)
    (halone : m.emitter owner' = .ok e₀') (hrow : m.methods[e₀'.row]? = s₀.module.methods[e₀.row]?)
    (hname : owner'.render = owner.render) :
    ∃ e s', s.emitters k = some e ∧
      answerAll ⟨m, e₀'⟩ (log.filterMap (Turn.asked k)) = (log.filterMap (Turn.reply k), s') ∧
      Result.outcome (e.finish s.module) = Result.outcome (s'.emitter.finish s'.module) ∧
      ∀ m₁ m₂, e.finish s.module = .ok () m₁ → s'.emitter.finish s'.module = .ok () m₂ →
        ∃ b₁ b₂, m₁.bodyAt e₀.row = some b₁ ∧ m₂.bodyAt e₀'.row = some b₂ ∧
          b₁.outline = b₂.outline := by
  obtain ⟨method, hmethod, hbody, -⟩ := Module.emitter_eq hnew
  obtain ⟨method', hmethod', hbody', -⟩ := Module.emitter_eq halone
  have hopen : (s₀.setEmitter k (some e₀)).emitters k = some e₀ := if_pos rfl
  have hfollows := hlog.follows ⟨m, e₀'⟩ hopen
    (Module.outline_emitter hnew halone hrow hname) hown
  obtain ⟨e, he, herow, houtline⟩ := hfollows.emitter
  obtain ⟨hrow', hmethods'⟩ := answerAll_keeps ⟨m, e₀'⟩ (log.filterMap (Turn.asked k))
  have hreplies := hfollows.replies
  generalize answerAll ⟨m, e₀'⟩ (log.filterMap (Turn.asked k)) = alone at *
  obtain ⟨replies, s'⟩ := alone
  have hvacant : s.module.bodyAt e.row = none := by
    rw [herow]
    refine (hlog.vacant ?_ ?_ hown hopens).2
    · rw [Session.setEmitter_module, Module.bodyAt, hmethod]
      exact hbody
    · intro j e hj he
      rw [Session.setEmitter_emitters, if_neg hj] at he
      exact hothers j e hj he
  have hvacant' : s'.module.bodyAt s'.emitter.row = none := by
    rw [Module.bodyAt, hmethods', hrow', hmethod']
    exact hbody'
  obtain ⟨houtcome, hbodies⟩ := Emitter.finish_alike houtline hvacant hvacant'
  refine ⟨e, s', he, by rw [hreplies], houtcome, fun m₁ m₂ h₁ h₂ => ?_⟩
  obtain ⟨b₁, hb₁, rfl⟩ := Emitter.finish_inv h₁
  obtain ⟨b₂, hb₂, rfl⟩ := Emitter.finish_inv h₂
  refine ⟨b₁, b₂, ?_, ?_, hbodies b₁ b₂ hb₁ hb₂⟩
  · rw [herow]
    refine Module.bodyAt_setBody ?_ b₁
    obtain ⟨r, hr, -⟩ := hlog.keepsDefinitions.methods e₀.row method hmethod
    exact (Array.getElem?_eq_some_iff.mp hr).1
  · rw [hrow']
    refine Module.bodyAt_setBody ?_ b₂
    rw [hmethods']
    exact (Array.getElem?_eq_some_iff.mp hmethod').1

/-- Two methods, of which the second has an emitter. -/
def twoBodies : Session where
  hierarchy := .empty
  module := { oneMethod with methods := #[default, default] }
  emitters j := if j = 1 then some { onlyEmitter with row := 1 } else none

/-- What is asked of the emitter of the first: a capture, an instruction with a token, one that is
refused, and one more. -/
def firstBody : List Request :=
  [.beginCapture ⟨"page", .empty⟩ ⟨1, 1⟩, .emit .ldstr (.string "b"), .emit .ldcI4S (.int 1000),
    .emit .ret .none]

/-- Meanwhile the second body is written and finished, and the document is made with other
contents. -/
theorem history_twoBodies :
    ∃ log s e m₁, History (twoBodies.setEmitter 0 (some onlyEmitter)) log s ∧
      (∀ t ∈ log, ¬ t.action.Retires 0) ∧ (∀ t ∈ log, ∀ j owner, t.action ≠ .openEmitter j owner) ∧
      log.filterMap (Turn.asked 0) = firstBody ∧ s.emitters 0 = some e ∧
      e.finish s.module = .ok () m₁ := by
  have hstart : History (twoBodies.setEmitter 0 (some onlyEmitter)) [] _ := .start
  refine ⟨_, _, _, _, (((((((hstart.turn
    (.request 1 (.emit .ldstr (.string "a"))) rfl).turn
    (.document ⟨"page", ⟨#[1]⟩⟩) trivial).turn
    (.request 0 (.beginCapture ⟨"page", .empty⟩ ⟨1, 1⟩)) rfl).turn
    (.request 0 (.emit .ldstr (.string "b"))) rfl).turn
    (.request 0 (.emit .ldcI4S (.int 1000))) rfl).turn (.finish 1) rfl).turn
    (.request 0 (.emit .ret .none)) rfl), ?_, ?_, rfl, rfl, rfl⟩
  · simp [Action.Retires]
  · simp

theorem emitters_independent_twoBodies :
    ∃ log s e s' m₁ m₂ b₁ b₂, History (twoBodies.setEmitter 0 (some onlyEmitter)) log s ∧
      log.filterMap (Turn.asked 0) = firstBody ∧ s.emitters 0 = some e ∧
      answerAll ⟨oneMethod, onlyEmitter⟩ firstBody = (log.filterMap (Turn.reply 0), s') ∧
      e.finish s.module = .ok () m₁ ∧ s'.emitter.finish s'.module = .ok () m₂ ∧
      m₁.bodyAt 0 = some b₁ ∧ m₂.bodyAt 0 = some b₂ ∧ b₁.outline = b₂.outline := by
  obtain ⟨log, s, e, m₁, hlog, hown, hopens, hasked, he, hfinish⟩ := history_twoBodies
  have hnew : twoBodies.module.emitter onlyMethod = .ok onlyEmitter := rfl
  have hothers : twoBodies.Apart 0 0 := by
    intro j e _ he
    obtain ⟨-, he⟩ := Option.ite_none_right_eq_some.mp he
    cases he
    exact Nat.one_ne_zero
  obtain ⟨e', s', he', hreplies, houtcome, hbodies⟩ := emitters_independent hnew hlog hown hothers
    (fun t ht j owner _ hopen => absurd hopen (hopens t ht j owner)) emitter_oneMethod rfl rfl
  obtain rfl := Option.some.inj (he.symm.trans he')
  rw [hfinish] at houtcome
  cases hfinish' : s'.emitter.finish s'.module with
  | error err m₂ =>
    rw [hfinish'] at houtcome
    cases houtcome
  | ok u m₂ =>
    obtain ⟨b₁, b₂, hb₁, hb₂, houtline⟩ := hbodies m₁ m₂ hfinish hfinish'
    rw [hasked] at hreplies
    exact ⟨log, s, e, s', m₁, m₂, b₁, b₂, hlog, hasked, he, hreplies, hfinish, hfinish', hb₁, hb₂,
      houtline⟩

end MarkupLowering
