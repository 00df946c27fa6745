import MarkupLowering.Proofs.Module.Definitions

/-!
# MarkupLowering.Proofs.Module.Bodies

**A method gets its body once**, however many emitters are open on it and whatever happens between
their requests.

The check is made when an emitter is opened and again when it finishes. `Turn.installed` is the
body that one turn gives to a row, and `bodyAt_after` says that nothing else changes what a row
has. The main statement is `finalized_once`.
-/

namespace MarkupLowering

open ImportTables

/-! ### What finishing and opening depend on -/

namespace Emitter

variable {e : Emitter} {m m' : Module}

/-- A row that has a body takes no other. -/
theorem finish_refused (h : (m.bodyAt e.row).isSome) : ∃ err, e.finish m = .error err m := by
  unfold finish
  split
  · exact ⟨_, rfl⟩
  · rw [Module.bodyAt] at h
    rw [if_pos h]
    exact ⟨_, rfl⟩

theorem finish_granted {body : Body} (hnone : m.bodyAt e.row = none)
    (hbody : e.finishedBody = .ok body) : e.finish m = .ok () (m.setBody e.row body) := by
  rw [Module.bodyAt] at hnone
  simp [finish, hbody, hnone]

/-- Only a row without a body is given one. -/
theorem bodyAt_of_finish (h : e.finish m = .ok () m') : m.bodyAt e.row = none := by
  cases hbody : m.bodyAt e.row with
  | none => rfl
  | some body =>
    obtain ⟨err, herr⟩ := finish_refused (e := e) (m := m) (by rw [hbody]; rfl)
    rw [h] at herr
    cases herr

end Emitter

namespace Module

variable {m : Module} {row : Nat}

theorem bodyAt_setBody_of_ne {k : Nat} (h : row ≠ k) (body : Body) :
    (m.setBody row body).bodyAt k = m.bodyAt k := by
  rw [bodyAt, bodyAt, setBody, Array.getElem?_modify, if_neg h]

theorem bodyAt_push {r : MethodRow} (hr : r.body = none) :
    (m.methods.push r)[row]?.bind MethodRow.body = m.bodyAt row := by
  rw [bodyAt, Array.getElem?_push]
  split
  · rename_i hrow
    rw [hrow, Array.getElem?_eq_none (Nat.le_refl _)]
    exact hr
  · rfl

theorem ownRow_of_rowIn? {owner : BodyOwner} (h : rowIn? m.id owner.definition = some row) :
    m.ownRow owner = .ok row := by
  rw [ownRow, h]

/-- No emitter is opened for a row that has a body. -/
theorem emitter_refused {owner : BodyOwner} {body : Body}
    (howner : rowIn? m.id owner.definition = some row) (hbody : m.bodyAt row = some body) :
    m.emitter owner = .error (.bodyAlreadyFinalized owner.render) := by
  obtain ⟨r, hr, hrbody⟩ := Option.bind_eq_some_iff.mp hbody
  simp [emitter, ownRow_of_rowIn? howner, hr, hrbody]

/-- An emitter is opened for any other row. -/
theorem emitter_granted {owner : BodyOwner} (howner : rowIn? m.id owner.definition = some row)
    (hrow : row < m.methods.size) (hnone : m.bodyAt row = none) :
    ∃ e, m.emitter owner = .ok e ∧ e.row = row := by
  have hr := Array.getElem?_eq_getElem hrow
  rw [bodyAt, hr, Option.bind_some] at hnone
  simp [emitter, ownRow_of_rowIn? howner, hr, hnone]

end Module

/-! ### Turns that give a body to a method -/

/-- The body that a turn gives to a row. -/
def Turn.installed (row : Nat) (t : Turn) : Option Body :=
  match t.action with
  | .finish k => do
    let e ← t.session.emitters k
    if e.row = row ∧ Result.granted (e.finish t.session.module) = true then
      e.finishedBody.toOption
    else none
  | _ => none

/-- Builders give no bodies. -/
theorem BuildRequest.Granted.bodyAt {r : BuildRequest} {s s' : Construction} {g : Option Handle}
    (h : r.Granted s g s') (row : Nat) : s'.module.bodyAt row = s.module.bodyAt row := by
  cases h with
  | type _ hadd =>
    obtain ⟨-, rfl⟩ := Construction.addType_row hadd
    rw [Module.bodyAt, Module.methods_addType]
    rfl
  | method r _ _ hnone _ => exact Module.bodyAt_push hnone
  | constructor r _ _ hnone _ _ _ => exact Module.bodyAt_push hnone
  | complete | field | property | implement => rfl

namespace Session

variable {s s' : Session} {a : Action}

/-- Only finishing gives bodies. -/
theorem Changes.bodyAt (h : s.Changes a s') (ha : ∀ k, a ≠ .finish k) (row : Nat) :
    s'.module.bodyAt row = s.module.bodyAt row := by
  cases h with
  | built hgrant => exact hgrant.bodyAt row
  | requested _ hr =>
    have hmethods := congrArg Module.methods (Request.sameRows hr)
    rw [setEmitter_module, Module.bodyAt, hmethods]
    rfl
  | finished _ _ => exact absurd rfl (ha _)
  | idle | opened _ | closed _ _ | imported _ | documented _ | allotted _ | extended _ _ => rfl

/-- Every open emitter writes to a row that is there. -/
def Staffed (s : Session) : Prop :=
  ∀ k e, s.emitters k = some e → e.row < s.module.methods.size

theorem Staffed.changes (hs : s.Staffed) (h : s.Changes a s') : s'.Staffed := by
  have hkeeps := h.keepsDefinitions
  have hlt : ∀ {row : Nat}, row < s.module.methods.size → row < s'.module.methods.size := by
    intro row hrow
    obtain ⟨r, hr, -⟩ := hkeeps.methods row _ (Array.getElem?_eq_getElem hrow)
    exact (Array.getElem?_eq_some_iff.mp hr).1
  intro k e' he'
  rcases h.emitter_inv he' with hold | ⟨owner, hopen⟩ | ⟨r, e, t, -, he, hr, rfl, -⟩
  · exact hlt (hs k e' hold)
  · obtain ⟨-, -, r, hr, -⟩ := Module.emitter_inv hopen
    exact hlt (Array.getElem?_eq_some_iff.mp hr).1
  · rw [(Request.perform_owner hr).1]
    exact hlt (hs k e he)

theorem after_finish_none {k : Nat} (he : s.emitters k = none) : s.after (.finish k) = s := by
  simp only [after, Action.perform, finishing, he]
  rfl

theorem module_after_finish {k : Nat} {e : Emitter} (he : s.emitters k = some e) :
    (s.after (.finish k)).module = Result.state (e.finish s.module) := by
  simp only [after, Action.perform, finishing, he]
  split <;> rename_i hm <;> rw [hm] <;> rfl

/-- A turn gives a body to a row that has none, or leaves the row alone. -/
theorem bodyAt_after (hs : s.Staffed) (a : Action) (row : Nat) :
    Turn.installed row ⟨s, a⟩ = none ∧ (s.after a).module.bodyAt row = s.module.bodyAt row ∨
      ∃ body, Turn.installed row ⟨s, a⟩ = some body ∧ s.module.bodyAt row = none ∧
        (s.after a).module.bodyAt row = some body := by
  by_cases hfinish : ∃ k, a = .finish k
  · obtain ⟨k, rfl⟩ := hfinish
    cases he : s.emitters k with
    | none => exact Or.inl ⟨by simp [Turn.installed, he], by rw [after_finish_none he]⟩
    | some e =>
      rw [module_after_finish he]
      cases hm : e.finish s.module with
      | error err m =>
        refine Or.inl ⟨by simp [Turn.installed, he, hm, Result.granted], ?_⟩
        rw [e.atomic_finish _ _ _ hm, Result.state_error]
      | ok u m =>
        obtain ⟨body, hbody, rfl⟩ := Emitter.finish_inv hm
        by_cases hrow : e.row = row
        · subst hrow
          refine Or.inr ⟨body, ?_, Emitter.bodyAt_of_finish hm,
            Module.bodyAt_setBody (hs k e he) body⟩
          simp [Turn.installed, he, hm, hbody, Result.granted, Except.toOption]
        · exact Or.inl ⟨by simp [Turn.installed, he, hrow],
            Module.bodyAt_setBody_of_ne hrow body⟩
  · have ha : ∀ k, a ≠ .finish k := fun k hk => hfinish ⟨k, hk⟩
    refine Or.inl ⟨?_, (changes_after s a).bodyAt ha row⟩
    cases a with
    | finish k => exact absurd rfl (ha k)
    | _ => rfl

/-- A body stays. -/
theorem Changes.bodyAt_some (h : s.Changes a s') {row : Nat} {body : Body}
    (hbody : s.module.bodyAt row = some body) : s'.module.bodyAt row = some body := by
  by_cases hfinish : ∃ k, a = .finish k
  · obtain ⟨k, rfl⟩ := hfinish
    cases h with
    | @finished _ e _ _ hm =>
      -- the row that was finished had no body, so it is another one
      have hrow : e.row ≠ row := by
        rintro rfl
        rw [Emitter.bodyAt_of_finish hm] at hbody
        cases hbody
      obtain ⟨body', -, rfl⟩ := Emitter.finish_inv hm
      rw [setEmitter_module, Module.bodyAt_setBody_of_ne hrow, hbody]
    | idle | closed _ _ => exact hbody
  · rw [h.bodyAt (fun k hk => hfinish ⟨k, hk⟩), hbody]

end Session

/-! ### Whole histories -/

namespace History

variable {s₀ s : Session} {log : List Turn}

theorem staffed (h : History s₀ log s) (h₀ : s₀.Staffed) : s.Staffed :=
  h.keeps (fun _ _ _ hs _ hchange => hs.changes hchange) h₀

theorem bodyAt_some (h : History s₀ log s) {row : Nat} {body : Body}
    (h₀ : s₀.module.bodyAt row = some body) : s.module.bodyAt row = some body :=
  h.keeps (P := fun s => s.module.bodyAt row = some body)
    (fun _ _ _ hs _ hchange => hchange.bodyAt_some hs) h₀

/-- The bodies that turns gave to a row are the body that it has. -/
theorem installed (h : History s₀ log s) (h₀ : s₀.Staffed) {row : Nat}
    (hnone : s₀.module.bodyAt row = none) :
    log.filterMap (Turn.installed row) = (s.module.bodyAt row).toList := by
  induction h with
  | start => rw [hnone, List.filterMap_nil, Option.toList_none]
  | @turn log s a h _ ih =>
    rw [List.filterMap_append, ih, List.filterMap_cons, List.filterMap_nil]
    rcases Session.bodyAt_after (h.staffed h₀) a row with
      ⟨hturn, hafter⟩ | ⟨body, hturn, hold, hafter⟩
    · rw [hturn, hafter, List.append_nil]
    · rw [hturn, hafter, hold]
      rfl

end History

/-- A body is finalized at most once, under any interleaving. Of all turns on a row, one at most
gave it a body, which is the one that it has. From then on the row keeps its body, every attempt to
finish another fails and no emitter is opened for it. Until then the row is available, whatever
emitters on it were abandoned or could not finish. -/
theorem finalized_once {h : Hierarchy} {id : Nat} {name : String} {core : CoreTypes}
    {log : List Turn} {s : Session} (hs : History (.start h id name core) log s) :
    (∀ k e, s.emitters k = some e → e.row < s.module.methods.size) ∧
      (∀ row, log.filterMap (Turn.installed row) = (s.module.bodyAt row).toList) ∧
      (∀ row body, s.module.bodyAt row = some body → ∀ log' s', History s log' s' →
        s'.module.bodyAt row = some body ∧
        (∀ e : Emitter, e.row = row → ∃ err, e.finish s'.module = .error err s'.module) ∧
        ∀ owner : BodyOwner, rowIn? id owner.definition = some row →
          s'.module.emitter owner = .error (.bodyAlreadyFinalized owner.render)) ∧
      (∀ row < s.module.methods.size, s.module.bodyAt row = none →
        (∀ owner : BodyOwner, rowIn? id owner.definition = some row →
          ∃ e, s.module.emitter owner = .ok e ∧ e.row = row) ∧
        ∀ (e : Emitter) (body : Body), e.row = row → e.finishedBody = .ok body →
          ∃ m, e.finish s.module = .ok () m ∧ m.bodyAt row = some body) ∧
      (∀ k, (s.after (.drop k)).module = s.module) ∧
      ∀ k err s', (Action.finish k).perform s = .error err s' → s'.module = s.module := by
  have hstart : (Session.start h id name core).Staffed := fun _ _ => nofun
  refine ⟨hs.staffed hstart, fun row => hs.installed hstart rfl,
    fun row body hbody log' s' hs' => ?_, fun row hrow hnone => ⟨fun owner howner => ?_, ?_⟩,
    fun k => rfl, fun k err s' herr => ?_⟩
  · have hlater := hs'.bodyAt_some hbody
    refine ⟨hlater, fun e herow => ?_, fun owner howner => ?_⟩
    · exact Emitter.finish_refused (by rw [herow, hlater]; rfl)
    · rw [← (hs.trans hs').module_id] at howner
      exact Module.emitter_refused howner hlater
  · rw [← hs.module_id] at howner
    exact Module.emitter_granted howner hrow hnone
  · rintro e body rfl hfinished
    exact ⟨_, Emitter.finish_granted hnone hfinished, Module.bodyAt_setBody hrow body⟩
  · rw [Session.finishing_error herr, Session.setEmitter_module]

/-- A method of the first type. -/
def firstMethod : MethodDecl where
  name := "M"
  returns := default

/-- The handle to it. -/
def firstMethodRef : MethodRef where
  declaring := firstBuilder.type
  name := .ofString "M"
  returns := default
  params := []
  attributes := firstMethod.attributes
  definition := some ⟨0, 0⟩

/-- Two emitters were opened on one method, and one of them is finished. -/
def rivals : Session :=
  let s := oneType.after (.build (.method firstBuilder firstMethod))
  let s := s.after (.openEmitter 0 (.method firstMethodRef))
  let s := s.after (.openEmitter 1 (.method firstMethodRef))
  let s := s.after (.request 0 (.emit .ret .none))
  s.after (.finish 0)

/-- The method has the body of the first emitter. The second is still open and cannot finish, and
there will be no third. -/
theorem finalized_once_rivals :
    ∃ body e, rivals.module.bodyAt 0 = some body ∧ rivals.emitters 1 = some e ∧
      (∃ err, e.finish rivals.module = .error err rivals.module) ∧
      rivals.module.emitter (.method firstMethodRef) =
        .error (.bodyAlreadyFinalized firstMethodRef.render) := by
  have hs := ((((history_oneType.turn (.build (.method firstBuilder firstMethod))
    (permits_firstBuilder rfl)).turn (.openEmitter 0 (.method firstMethodRef)) trivial).turn
    (.openEmitter 1 (.method firstMethodRef)) trivial).turn (.request 0 (.emit .ret .none))
    rfl).turn (.finish 0) rfl
  obtain ⟨-, -, hfinal, -⟩ := finalized_once hs
  obtain ⟨-, hfinish, hemitter⟩ := hfinal 0 _ rfl _ _ .start
  exact ⟨_, _, rfl, rfl, hfinish _ rfl, hemitter _ rfl⟩

end MarkupLowering
