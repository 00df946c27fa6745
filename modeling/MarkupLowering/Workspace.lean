import MarkupLowering.Emitter.Finish
import MarkupLowering.Lowering.Basic
import MarkupLowering.Module.Builder

/-!
# MarkupLowering.Workspace

**Several modules at once**: the hierarchy of all types, the modules under construction, which are
numbered from one, and the numbers given to compiler locals.

Each operation takes the one module it works on out of the workspace and puts the changed module
back; all other modules stay as they are.
-/

namespace MarkupLowering

/-- Everything under construction. -/
structure Workspace where
  hierarchy : Hierarchy := .empty
  /-- The module with number `n + 1` is at position `n`. -/
  modules : Array Module := #[]
  /-- How many compiler locals were made. -/
  locals : Nat := 0
  deriving Inhabited

/-- A step in a workspace. State that a failing step has changed stays changed. -/
abbrev WorkM := EStateM EmitError Workspace

namespace Workspace

/-- Makes types. -/
def declare {α : Type} (w : Workspace) (f : Hierarchy → α × Hierarchy) : α × Workspace :=
  let (a, hierarchy) := f w.hierarchy
  (a, { w with hierarchy })

/-- A new compiler local. -/
def freshLocal (w : Workspace) (type : TypeRef) (name : Option String) :
    CompilerLocal × Workspace :=
  (⟨w.locals, type, name⟩, { w with locals := w.locals + 1 })

/-- A new module. -/
def addModule (w : Workspace) (name : String) (core : CoreTypes) : Nat × Workspace :=
  let id := w.modules.size + 1
  (id, { w with modules := w.modules.push (.new id name core) })

/-- The module with a given number. -/
def module (w : Workspace) (id : Nat) : Module := w.modules.getD (id - 1) default

/-- Puts a module in the place of the one with its number. -/
def setModule (w : Workspace) (id : Nat) (m : Module) : Workspace :=
  { w with modules := w.modules.setIfInBounds (id - 1) m }

/-- Imports into a module. -/
def importing {α : Type} (id : Nat) (step : Nat → ImportM α) : WorkM α := fun w =>
  let m := w.module id
  let w := w.setModule id default
  let (a, m) := m.importing step
  .ok a (w.setModule id m)

/-- Builds in a module. -/
def building {α : Type} (id : Nat) (step : BuildM α) : WorkM α := fun w =>
  let m := w.module id
  let h := w.hierarchy
  let w := { w.setModule id default with hierarchy := .empty }
  match step ⟨h, m⟩ with
  | .ok a c => .ok a { w.setModule id c.module with hierarchy := c.hierarchy }
  | .error e c => .error e { w.setModule id c.module with hierarchy := c.hierarchy }

/-- Emits into a module. The emitter is returned as well, however the step ended. -/
def emitting {α : Type} (id : Nat) (emitter : Emitter) (step : EmitM α) :
    WorkM (Except EmitError α × Emitter) := fun w =>
  let m := w.module id
  let w := w.setModule id default
  match step ⟨m, emitter⟩ with
  | .ok a s => .ok (.ok a, s.emitter) (w.setModule id s.module)
  | .error e s => .ok (.error e, s.emitter) (w.setModule id s.module)

/-- Finishes a body of a module. -/
def finishing (id : Nat) (emitter : Emitter) : WorkM Unit := fun w =>
  let m := w.module id
  let w := w.setModule id default
  match emitter.finish m with
  | .ok () m => .ok () (w.setModule id m)
  | .error e m => .error e (w.setModule id m)

end Workspace

end MarkupLowering
