import MarkupLowering.Proofs.Lowering.Locals

/-!
# MarkupLowering.Proofs.Lowering.Faults

**What lowering can fail for.** Nodes ask the emitter only for what it grants: every operand is of
the kind that its opcode takes, and the slots of compiler locals are slots of the emitter. So all
failures are about the tree or about what the context was given, with one exception each for the
number of slots and for a context local of another method.
-/

namespace MarkupLowering

open Emission LowerM

/-- Why lowering that started in one state failed in another. -/
inductive LowerFault (s s' : LowerState Empty) : EmitError → Prop
  /-- A node broke its stack contract. -/
  | contract (name : String) (line : Position) (b : Breach) :
      LowerFault s s' (.stackContract name line b)
  /-- A local was loaded that has not been stored. -/
  | uninitialized (line : Position) : LowerFault s s' (.uninitializedLocal line)
  | noContext (line : Position) : s.context.contextLocal = none →
      LowerFault s s' (.missingContextLocal line)
  | noParents (name : String) (line : Position) : LowerFault s s' (.missingParentStack name line)
  /-- A local was to get a slot, and there are as many as there can be. -/
  | full : s'.emission.emitter.locals.size = maxLocals →
      LowerFault s s' (.invalidDefinition (.tooManyLocals s'.emission.emitter.method))
  /-- The context local is no slot of the emitter, or one of another type. -/
  | context {slot : Slot} {e : EmitError} : s.context.contextLocal = some slot →
      s'.emission.emitter.slotOf slot = .error e →
      e = .localOutOfRange slot.index.toNat s'.emission.emitter.locals.size → LowerFault s s' e

/-- An act fails only for these reasons. -/
theorem Act.Hindered.fault {a : Act} {e : EmitError} {s s' : LowerState Empty}
    (h : a.Hindered s' e) (hlimit : s'.emission.emitter.locals.size ≤ maxLocals)
    (hlocal : s'.context.contextLocal = s.context.contextLocal) : LowerFault s s' e := by
  cases h with
  | load => exact .uninitialized _
  | store _ hfull => exact .full (Nat.le_antisymm hlimit hfull)
  | noContext hnone => exact .noContext _ (by rw [← hlocal, hnone])
  | context hslot hrefused =>
    exact .context (by rw [← hlocal, hslot]) hrefused (Emitter.slotOf_error hrefused)
  | verify => exact .noParents _ _

/-- Whatever a context and its emitter were used for before, lowering a tree fails only because of
a broken stack contract, a local that was not stored, a missing context local, missing enclosing
nodes, the limit on slots, or a context local that the emitter does not accept. In particular no
instruction is refused for its operand. -/
theorem lower_fault {log : List Access} {s s' : LowerState Empty} {env : Environment}
    {n : Node Empty} {expected : Option TypeRef} {e : EmitError} (h : Emissions log s)
    (hlower : n.lower env expected s = .error e s') : LowerFault s s' e := by
  have htakes := n.takes_lower env expected s
  rw [hlower] at htakes
  obtain ⟨done, next, rest, -, hblocked, hadvances, -⟩ := Stops.advances htakes h.accounts
  cases hblocked with
  | act hhindered => exact hhindered.fault hadvances.accounts.limit hadvances.contextLocal
  | refuse n b => exact .contract _ _ b

/-- A context local that the emitter does not have. -/
def foreignContext : LowerState Empty :=
  { stateWithLocal with context := { contextLocal := some ⟨7, default⟩ } }

/-- Stores a local and then loads the context local. -/
def loadsContext : Node Empty :=
  .imperative <| .block
    [dropped (.localInit header (.string default "text" default) default),
      dropped (.contextLocal default ⟨2, 1⟩)] default

theorem lower_fault_loadsContext :
    Result.error? (loadsContext.lower plainEnvironment none foreignContext) =
        some (.localOutOfRange 7 2) ∧
      LowerFault foreignContext
        (Result.state (loadsContext.lower plainEnvironment none foreignContext))
        (.localOutOfRange 7 2) := by
  have herror : Result.error? (loadsContext.lower plainEnvironment none foreignContext) =
      some (.localOutOfRange 7 2) := by decide +kernel
  have hrun : Run (fun _ => True) onlyEmitter [.defineLocal default]
      foreignContext.emission.emitter := .granted (m := oneMethod) .start trivial rfl
  exact ⟨herror, lower_fault (.start emitter_oneMethod hrun rfl) (Result.eq_error herror)⟩

end MarkupLowering
