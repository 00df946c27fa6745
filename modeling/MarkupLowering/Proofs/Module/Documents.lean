import MarkupLowering.Proofs.Module.Sessions

/-!
# MarkupLowering.Proofs.Module.Documents

**Documents stay.** A path that was mentioned once has a document, and keeps it whatever becomes
of the module (`Module.Leads.keepsDocuments`). Only debug captures and look-ups touch the cache.
-/

namespace MarkupLowering

namespace DocumentCache

variable (c : DocumentCache) (file : SourceFile)

/-- The document that is returned is the cached one. -/
theorem find?_findOrCreate_self :
    (c.findOrCreate file).2.find? file.path = some (c.findOrCreate file).1 := by
  unfold findOrCreate
  cases h : c.find? file.path with
  | some d => exact h
  | none =>
    unfold find? at h ⊢
    dsimp only
    rw [List.find?_append, h, Option.none_or]
    simp [Document.ofFile]

theorem find?_findOrCreate {path : String} {d : Document} (h : c.find? path = some d) :
    (c.findOrCreate file).2.find? path = some d := by
  unfold findOrCreate
  cases hfile : c.find? file.path with
  | some _ => exact h
  | none =>
    unfold find? at h ⊢
    dsimp only
    rw [List.find?_append, h, Option.some_or]

/-- A cached document has the path that it is cached under. -/
theorem path_of_find? {path : String} {d : Document} (h : c.find? path = some d) :
    d.path = path := by
  have hpath := List.find?_some h
  simpa using hpath

theorem path_findOrCreate : (c.findOrCreate file).1.path = file.path :=
  path_of_find? _ (find?_findOrCreate_self c file)

end DocumentCache

/-- A path that has a document keeps it. -/
def Module.KeepsDocuments (m m' : Module) : Prop :=
  ∀ path d, m.documents.find? path = some d → m'.documents.find? path = some d

namespace Module.KeepsDocuments

variable {m m₁ m₂ : Module}

theorem of_eq (h : m₁.documents = m.documents) : m.KeepsDocuments m₁ := by
  intro path d hd
  rw [h, hd]

theorem refl (m : Module) : m.KeepsDocuments m := of_eq rfl

theorem trans (h₁ : m.KeepsDocuments m₁) (h₂ : m₁.KeepsDocuments m₂) : m.KeepsDocuments m₂ :=
  fun path d hd => h₂ path d (h₁ path d hd)

theorem document (m : Module) (file : SourceFile) : m.KeepsDocuments (m.document file).2 :=
  fun _ _ hd => m.documents.find?_findOrCreate file hd

end Module.KeepsDocuments

/-! ### Requests -/

/-- The step leaves the documents alone, however it ends. -/
abbrev KeepsCache {α : Type} (step : EmitM α) : Prop :=
  ∀ c, Keeps (fun s : Emission => s.module.documents = c) step

namespace Emission

theorem keepsCache_known (f : Emitter → Except EmitError Argument) : KeepsCache (known f) := by
  intro c s hs
  unfold known
  split <;> exact hs

theorem keepsCache_branch (l : Label) : KeepsCache (branch l) := by
  intro c s hs
  unfold branch
  split <;> exact hs

theorem keepsCache_token {f : Module → Token × Module}
    (hf : ∀ m, (f m).2.documents = m.documents) : KeepsCache (token f) := by
  intro c s hs
  exact (hf s.module).trans hs

theorem Reduction.keepsCache {is : List Import} {step : EmitM PendingArgument}
    (h : Reduction is step) : KeepsCache step := by
  intro c
  cases h with
  | ready a => exact Keeps.pure _
  | token i => exact keepsCache_token (fun _ => rfl) c
  | argument | slotAt | slotOf => exact keepsCache_known _ c
  | branch l => exact keepsCache_branch l c
  | refused _ err => exact Keeps.throw err

theorem keepsCache_emit (op : Opcode) (x : Operand) : KeepsCache (emit op x) := by
  intro c
  refine Keeps.bind ?_ fun _ s hs => hs
  unfold resolve
  split
  · exact Keeps.throw _
  · exact (reduction op x).keepsCache c

theorem keepsCache_defineLocal (type : TypeRef) : KeepsCache (defineLocal type) := by
  intro c s hs
  unfold defineLocal
  dsimp only
  split <;> exact hs

end Emission

/-- What is asked of an emitter leaves the documents of a module in place. -/
theorem Request.keepsDocuments (r : Request) (s : Emission) :
    s.module.KeepsDocuments (Result.state (r.perform s)).module := by
  cases r with
  | emit op x => exact .of_eq (Emission.keepsCache_emit op x _ s rfl)
  | defineLocal type =>
    exact .of_eq (Keeps.bind (Emission.keepsCache_defineLocal type _) (fun _ => Keeps.pure _) s rfl)
  | defineLabel => exact .refl _
  | markLabel l =>
    refine .of_eq ?_
    unfold perform Emission.markLabel
    dsimp only
    split <;> rfl
  | beginCapture file position => exact .document s.module file
  | endCapture id => exact .refl _

/-! ### Builders, and whole histories -/

theorem BuildRequest.Granted.documents {r : BuildRequest} {s s' : Construction}
    {g : Option Handle} (h : r.Granted s g s') : s'.module.documents = s.module.documents := by
  cases h with
  | type _ hadd =>
    obtain ⟨row, hmodule, -⟩ := Construction.addType_inv hadd
    rw [hmodule]
    unfold Module.addType
    dsimp only
    split <;> rfl
  | complete | field | method | constructor | property | implement => rfl

theorem BuildRequest.documents_perform (r : BuildRequest) (s : Construction) :
    (Result.state (r.perform s)).module.documents = s.module.documents := by
  rw [perform_eq_grant]
  simp only [Bind.bind, EStateM.bind]
  cases hr : r.grant s with
  | ok g s' => exact (granted_of_grant hr).documents
  | error err s' => rw [r.atomic_grant s err s' hr, Result.state_error]

theorem Emitter.documents_finish (e : Emitter) (m : Module) :
    (Result.state (e.finish m)).documents = m.documents := by
  unfold finish
  split
  · rfl
  · split <;> rfl

/-- A path keeps its document. -/
theorem Module.Leads.keepsDocuments {m m' : Module} (h : m.Leads m') : m.KeepsDocuments m' := by
  induction h with
  | refl => exact .refl m
  | build h r _ ih => exact ih.trans (.of_eq (r.documents_perform ⟨h, _⟩))
  | request e r _ ih => exact ih.trans (r.keepsDocuments ⟨_, e⟩)
  | finish e _ ih => exact ih.trans (.of_eq (e.documents_finish _))
  | importing i _ ih => exact ih
  | document file _ ih => exact ih.trans (.document _ file)

end MarkupLowering
