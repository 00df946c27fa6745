import MarkupLowering.Proofs.Module.History

/-!
# MarkupLowering.Proofs.Emitter.Exchanges

**What an emitter is asked, and what it answers.** A caller sees more of a request than whether it
was granted: slots, labels and captures are returned to it, and an error says why it was refused.

* `Request.answer` is one request with its answer; `Request.perform` disregards the answer.
* `Course s₀ log s` is a history of one emitter in which nothing is left out: the log holds every
  request with its answer, the refused ones too, and between two requests anything may become of
  the module. It is a `Run` of its granted requests (`Course.run`).
-/

namespace MarkupLowering

/-- What an emitter returns for a request that it grants. -/
inductive Reply
  | done
  | slot (s : Slot)
  | label (l : Label)
  /-- The capture that was begun. There is none if it fell together with an earlier one. -/
  | capture (id : Option Nat)

namespace Request

/-- Does what is asked and returns the answer, or fails. -/
def answer : Request → EmitM Reply
  | .emit op x => do
    Emission.emit op x
    return .done
  | .defineLocal type => do
    return .slot (← Emission.defineLocal type)
  | .defineLabel => do
    return .label (← Emission.defineLabel)
  | .markLabel l => do
    Emission.markLabel l
    return .done
  | .beginCapture file position => fun s =>
    let (id, s) := s.beginCapture file position
    .ok (.capture id) s
  | .endCapture id => fun s => .ok .done (s.endCapture (some id))

/-- To perform a request is to disregard the answer. -/
theorem perform_eq_answer (r : Request) : r.perform = (do let _ ← r.answer) := by
  cases r <;> simp [perform, answer] <;> rfl

theorem perform_of_answer {r : Request} {a : Reply} {s s' : Emission} (h : r.answer s = .ok a s') :
    r.perform s = .ok () s' := by
  rw [perform_eq_answer]
  simp only [Bind.bind, EStateM.bind, h]
  rfl

theorem perform_of_refusal {r : Request} {err : EmitError} {s s' : Emission}
    (h : r.answer s = .error err s') : r.perform s = .error err s' := by
  rw [perform_eq_answer]
  simp only [Bind.bind, EStateM.bind, h]

theorem atomic_answer (r : Request) : Atomic r.answer := by
  intro s err s' h
  exact r.atomic_perform s err s' (perform_of_refusal h)

end Request

/-- A request and its answer. -/
structure Exchange where
  request : Request
  reply : Except EmitError Reply

/-- The request, if it was granted. -/
def Exchange.granted? (x : Exchange) : Option Request :=
  match x.reply with
  | .ok _ => some x.request
  | .error _ => none

/-- The granted requests. -/
def grantedIn (log : List Exchange) : List Request := log.filterMap Exchange.granted?

/-- The number of instructions that were appended. -/
def instructionsIn (log : List Exchange) : Nat := (emitted (grantedIn log)).length

/-- A history of an emitter and of the module that it writes into, from `s₀`. -/
inductive Course (s₀ : Emission) : List Exchange → Emission → Prop
  | start : Course s₀ [] s₀
  | granted {log : List Exchange} {s s' : Emission} {r : Request} {a : Reply} :
      Course s₀ log s → r.answer s = .ok a s' → Course s₀ (log ++ [⟨r, .ok a⟩]) s'
  | refused {log : List Exchange} {s s' : Emission} {r : Request} {err : EmitError} :
      Course s₀ log s → r.answer s = .error err s' → Course s₀ (log ++ [⟨r, .error err⟩]) s'
  /-- Others worked on the module. -/
  | elsewhere {log : List Exchange} {s : Emission} {m : Module} :
      Course s₀ log s → s.module.Leads m → Course s₀ log { s with module := m }

namespace Course

variable {s₀ s : Emission} {log : List Exchange}

/-- Refused requests leave no trace in the emitter. -/
theorem run (h : Course s₀ log s) : Run (fun _ => True) s₀.emitter (grantedIn log) s.emitter := by
  induction h with
  | start => exact .start
  | granted _ hr ih =>
    rw [grantedIn, List.filterMap_append]
    exact .granted ih trivial (Request.perform_of_answer hr)
  | refused _ hr ih =>
    rw [grantedIn, List.filterMap_append]
    simp only [List.filterMap_cons, Exchange.granted?, List.filterMap_nil, List.append_nil]
    exact .refused ih trivial (Request.perform_of_refusal hr)
  | elsewhere _ _ ih => exact ih

/-- No method is lost. -/
theorem methods_le (h : Course s₀ log s) : s₀.module.methods.size ≤ s.module.methods.size := by
  induction h with
  | start => exact Nat.le_refl _
  | @granted _ s s' r _ _ hr ih =>
    have hleads := Module.Leads.request s.emitter r (.refl (m := s.module))
    rw [Request.perform_of_answer hr] at hleads
    exact Nat.le_trans ih hleads.methods_le
  | @refused _ s s' r err _ hr ih =>
    rw [r.atomic_answer s err s' hr]
    exact ih
  | elsewhere _ hm ih => exact Nat.le_trans ih hm.methods_le

end Course

end MarkupLowering
