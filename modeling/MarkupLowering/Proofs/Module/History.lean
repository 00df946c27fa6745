import MarkupLowering.Module.Builder
import MarkupLowering.Proofs.Emitter.Requests
import MarkupLowering.Proofs.Import.Tables

/-!
# MarkupLowering.Proofs.Module.History

**Histories of a module.** Builders, emitters and imports work on one module in any order, and
each of them may be refused; `Leads` is what such work turns a module into.

Rows of the method table are only ever added. An emitter remembers its method by the row, so the
row is still there when the body is finished, whatever happened in between (`Leads.methods_le`).
-/

namespace MarkupLowering

/-- What can be asked of a module and its builders. -/
inductive BuildRequest
  | type (namespaceName name : String) (base : Option TypeRef) (attributes : TypeAttributes)
      (visibility : Visibility)
  | nested (b : TypeBuilder) (base : TypeRef) (name : String) (isPublic : Bool)
  | complete (b : TypeBuilder)
  | field (b : TypeBuilder) (t : TypeRef) (name : String) (isPublic isStatic : Bool)
  | method (b : TypeBuilder) (d : MethodDecl)
  | property (b : TypeBuilder) (t : TypeRef) (name : String) (setter getter : Option MethodRef)
  | constructor (b : TypeBuilder) (isStatic : Bool) (params : List TypeRef)
  | implement (b : TypeBuilder) (i : TypeRef)

/-- Does what is asked, or fails. -/
def BuildRequest.perform : BuildRequest → BuildM Unit
  | .type namespaceName name base attributes visibility => do
    let _ ← Construction.defineType namespaceName name base attributes visibility
  | .nested b base name isPublic => do
    let _ ← b.defineNested base name isPublic
  | .complete b => do
    let _ ← b.complete
  | .field b t name isPublic isStatic => do
    let _ ← b.defineField t name isPublic isStatic
  | .method b d => do
    let _ ← b.defineMethod d
  | .property b t name setter getter => do
    let _ ← b.defineProperty t name setter getter
  | .constructor b isStatic params => do
    let _ ← b.defineConstructor isStatic params
  | .implement b i => b.implement i

/-- What a module can turn into. -/
inductive Module.Leads (m : Module) : Module → Prop
  | refl : m.Leads m
  /-- A builder was asked for something. -/
  | build {m' : Module} (h : Hierarchy) (r : BuildRequest) : m.Leads m' →
      m.Leads (Result.state (r.perform ⟨h, m'⟩)).module
  /-- An emitter was asked for something. -/
  | request {m' : Module} (e : Emitter) (r : Request) : m.Leads m' →
      m.Leads (Result.state (r.perform ⟨m', e⟩)).module
  | finish {m' : Module} (e : Emitter) : m.Leads m' → m.Leads (Result.state (e.finish m'))
  | importing {m' : Module} (i : Import) : m.Leads m' → m.Leads (m'.importing i.perform).2
  | document {m' : Module} (file : SourceFile) : m.Leads m' → m.Leads (m'.document file).2

/-! ### Builders -/

namespace Module

theorem methods_addType (m : Module) (row : TypeRow) : (m.addType row).2.methods = m.methods := by
  unfold addType
  dsimp only
  split <;> rfl

theorem methods_addMethod (m : Module) (row : MethodRow) :
    (m.addMethod row).2.methods = m.methods.push row := rfl

end Module

/-- The step takes no rows from the method table. -/
abbrev KeepsMethods {α : Type} (n : Nat) (step : BuildM α) : Prop :=
  Keeps (fun s : Construction => n ≤ s.module.methods.size) step

namespace KeepsMethods

open Construction TypeBuilder

variable {α : Type} {n : Nat}

theorem onModule {f : Module → α × Module}
    (h : ∀ m : Module, m.methods.size ≤ (f m).2.methods.size) : KeepsMethods n (onModule f) :=
  fun s hs => Nat.le_trans hs (h s.module)

theorem reject (fault : DefinitionFault) : KeepsMethods n (reject fault : BuildM α) :=
  Keeps.throw _

theorem addMethod (row : MethodRow) : KeepsMethods n (Construction.onModule (·.addMethod row)) := by
  refine onModule fun m => ?_
  rw [Module.methods_addMethod, Array.size_push]
  exact Nat.le_succ _

theorem addType (namespaceName name : String) (base : Option TypeRef) (attributes : TypeAttributes)
    (visibility : Visibility) (outer : Option TypeBuilder) :
    KeepsMethods n (addType namespaceName name base attributes visibility outer) := by
  intro s hs
  unfold Construction.addType
  split
  · exact hs
  · refine Nat.le_trans hs (Nat.le_of_eq (congrArg Array.size ?_))
    exact (Module.methods_addType s.module _).symm

theorem definitionAt (row : Nat) : KeepsMethods n (definitionAt row) := fun _ hs => hs

theorem checkName (b : TypeBuilder) (kind name : String) :
    KeepsMethods n (b.checkName kind name) := by
  unfold TypeBuilder.checkName
  split
  · exact reject _
  · exact Keeps.pure _

theorem checkAccessor (b : TypeBuilder) (property : String) (accessor : Option MethodRef) :
    KeepsMethods n (b.checkAccessor property accessor) := by
  unfold TypeBuilder.checkAccessor
  split
  · exact Keeps.pure _
  · split
    · exact Keeps.pure _
    · exact reject _

/-- Whatever is asked of builders takes no rows. -/
theorem perform (r : BuildRequest) : KeepsMethods n r.perform := by
  cases r with
  | type namespaceName name base attributes visibility =>
    refine Keeps.bind ?_ fun _ => Keeps.pure _
    unfold Construction.defineType
    split
    · exact reject _
    · exact addType _ _ _ _ _ _
  | nested b base name isPublic => exact Keeps.bind (addType _ _ _ _ _ _) fun _ => Keeps.pure _
  | complete b =>
    refine Keeps.bind (Keeps.bind ?_ fun _ => Keeps.pure _) fun _ => Keeps.pure _
    exact onModule fun _ => Nat.le_refl _
  | field b t name isPublic isStatic =>
    refine Keeps.bind (Keeps.bind (checkName b _ name) fun _ => ?_) fun _ => Keeps.pure _
    refine Keeps.bind (onModule fun _ => Nat.le_refl _) fun row => ?_
    exact Keeps.bind (definitionAt row) fun _ => Keeps.pure _
  | method b d =>
    refine Keeps.bind (Keeps.bind (checkName b _ d.name) fun _ => ?_) fun _ => Keeps.pure _
    refine Keeps.bind (addMethod _) fun row => ?_
    exact Keeps.bind (definitionAt row) fun _ => Keeps.pure _
  | property b t name setter getter =>
    refine Keeps.bind (Keeps.bind (checkName b _ name) fun _ => ?_) fun _ => Keeps.pure _
    refine Keeps.bind (checkAccessor b name setter) fun _ => ?_
    refine Keeps.bind (checkAccessor b name getter) fun _ => ?_
    refine Keeps.bind (onModule fun _ => Nat.le_refl _) fun row => ?_
    exact Keeps.bind (definitionAt row) fun _ => Keeps.pure _
  | constructor b isStatic params =>
    refine Keeps.bind ?_ fun _ => Keeps.pure _
    unfold TypeBuilder.defineConstructor
    split
    · exact reject _
    · refine Keeps.bind (onModule fun m => ?_) fun row => ?_
      · rw [Module.methods_addMethod, Array.size_push]
        exact Nat.le_succ _
      · exact Keeps.bind (definitionAt row) fun _ => Keeps.pure _
  | implement b i =>
    change KeepsMethods n (b.implement i)
    unfold TypeBuilder.implement
    split
    · exact Keeps.bind (onModule fun _ => Nat.le_refl _) fun _ _ hs => hs
    · exact reject _

end KeepsMethods

/-! ### Whole histories -/

theorem Emitter.methods_finish (e : Emitter) (m : Module) :
    (Result.state (e.finish m)).methods.size = m.methods.size := by
  unfold Emitter.finish
  split
  · rfl
  · split
    · rfl
    · exact Array.size_modify

/-- The rows of the method table stay. -/
theorem Module.Leads.methods_le {m m' : Module} (h : m.Leads m') :
    m.methods.size ≤ m'.methods.size := by
  induction h with
  | refl => exact Nat.le_refl _
  | build h r _ ih => exact KeepsMethods.perform r ⟨h, _⟩ ih
  | @request m' e r _ ih =>
    cases hr : r.perform ⟨m', e⟩ with
    | ok u s =>
      have hsame : s.module.methods = m'.methods := (Request.sameRows hr).methods
      exact Nat.le_trans ih (Nat.le_of_eq (congrArg Array.size hsame.symm))
    | error err s =>
      rw [Result.state_error, Request.atomic_perform r _ _ _ hr]
      exact ih
  | @finish m' e _ ih => exact Nat.le_trans ih (Nat.le_of_eq (e.methods_finish m').symm)
  | importing i _ ih => exact ih
  | document file _ ih => exact ih

end MarkupLowering
