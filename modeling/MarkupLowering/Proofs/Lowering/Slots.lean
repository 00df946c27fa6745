import MarkupLowering.Proofs.Emitter.Requests
import MarkupLowering.Proofs.Lowering.Plan

/-!
# MarkupLowering.Proofs.Lowering.Slots

**The slots of a context**: compiler locals and the context local never share one, whatever the
context went through before.

A context belongs to the emitter that it was used with first (`Used`). Between lowerings, which
may fail halfway, the emitter can be asked for anything and the module can change. All of this
keeps `Fits`: the context's slots are slots of the emitter, and they are apart.
-/

namespace MarkupLowering

open Emission LowerM

/-! ### Slots that fit -/

variable {ξ : Type}

/-- The context's slots are slots of the emitter, and no two are the same. -/
structure LowerState.Fits (s : LowerState ξ) : Prop where
  limit : s.emission.emitter.locals.size ≤ maxLocals
  slot : ∀ id slot, s.context.slots.lookup id = some slot →
    slot.index.toNat < s.emission.emitter.locals.size
  apart : ∀ id id' slot slot', s.context.slots.lookup id = some slot →
    s.context.slots.lookup id' = some slot' → slot.index = slot'.index → id = id'
  context : ∀ slot, s.context.contextLocal = some slot →
    slot.index.toNat < s.emission.emitter.locals.size
  contextApart : ∀ slot id slot', s.context.contextLocal = some slot →
    s.context.slots.lookup id = some slot' → slot'.index ≠ slot.index

namespace LowerState.Fits

variable {s s' : LowerState ξ}

/-- The same slots, in an emitter with more. -/
theorem mono (h : s.Fits) (hslots : s'.context.slots = s.context.slots)
    (hlocal : s'.context.contextLocal = s.context.contextLocal)
    (hadds : s.emission.emitter.AddsSlots s'.emission.emitter) : s'.Fits where
  limit := hadds.limit h.limit
  slot id slot hid := by
    rw [hslots] at hid
    exact Nat.lt_of_lt_of_le (h.slot id slot hid) hadds.le
  apart id id' slot slot' hid hid' := by
    rw [hslots] at hid hid'
    exact h.apart id id' slot slot' hid hid'
  context slot hs := by
    rw [hlocal] at hs
    exact Nat.lt_of_lt_of_le (h.context slot hs) hadds.le
  contextApart slot id slot' hs hid := by
    rw [hlocal] at hs
    rw [hslots] at hid
    exact h.contextApart slot id slot' hs hid

/-- A change that leaves slots and context local alone. -/
theorem same (h : s.Fits) (hslots : s'.context.slots = s.context.slots)
    (hlocal : s'.context.contextLocal = s.context.contextLocal)
    (hlocals : s'.emission.emitter.locals = s.emission.emitter.locals) : s'.Fits :=
  h.mono hslots hlocal (.of_same hlocals)

/-- A compiler local gets the slot that was just defined. -/
theorem define (h : s.Fits) {l : CompilerLocal} {slot : Slot} {emission : Emission}
    (hslot : slot.index = s.emission.emitter.locals.size.toUInt16)
    (hlt : s.emission.emitter.locals.size < maxLocals)
    (he : emission.emitter =
      { s.emission.emitter with locals := s.emission.emitter.locals.push l.type }) :
    LowerState.Fits ⟨emission, { s.context with slots := (l.id, slot) :: s.context.slots }⟩ := by
  have hindex : slot.index.toNat = s.emission.emitter.locals.size := by
    rw [hslot, Nat.toUInt16, UInt16.toNat_ofNat']
    exact Nat.mod_eq_of_lt hlt
  have hsize : emission.emitter.locals.size = s.emission.emitter.locals.size + 1 := by
    rw [he, Array.size_push]
  -- the new slot comes after all that were there
  have hnew : ∀ other : Slot, other.index.toNat < s.emission.emitter.locals.size →
      other.index ≠ slot.index := by
    intro other hother heq
    rw [heq, hindex] at hother
    exact Nat.lt_irrefl _ hother
  have hlookup : ∀ id found, List.lookup id ((l.id, slot) :: s.context.slots) = some found →
      (id = l.id ∧ found = slot) ∨ (id ≠ l.id ∧ s.context.slots.lookup id = some found) := by
    intro id found hfound
    rw [List.lookup_cons] at hfound
    split at hfound
    · rename_i hid
      cases hfound
      exact Or.inl ⟨beq_iff_eq.mp hid, rfl⟩
    · rename_i hid
      exact Or.inr ⟨beq_eq_false_iff_ne.mp (by simpa using hid), hfound⟩
  refine ⟨by rw [hsize]; exact hlt, ?_, ?_, ?_, ?_⟩
  · intro id found hfound
    rw [hsize]
    rcases hlookup id found hfound with ⟨-, rfl⟩ | ⟨-, hold⟩
    · rw [hindex]
      exact Nat.lt_succ_self _
    · exact Nat.lt_succ_of_lt (h.slot id found hold)
  · intro id id' found found' hfound hfound' heq
    rcases hlookup id found hfound with ⟨rfl, rfl⟩ | ⟨-, hold⟩ <;>
      rcases hlookup id' found' hfound' with ⟨rfl, rfl⟩ | ⟨-, hold'⟩
    · rfl
    · exact absurd heq.symm (hnew found' (h.slot id' found' hold'))
    · exact absurd heq (hnew found (h.slot id found hold))
    · exact h.apart id id' found found' hold hold' heq
  · intro contextSlot hs
    rw [hsize]
    exact Nat.lt_succ_of_lt (h.context contextSlot hs)
  · intro contextSlot id found hs hfound
    rcases hlookup id found hfound with ⟨-, rfl⟩ | ⟨-, hold⟩
    · exact (hnew contextSlot (h.context contextSlot hs)).symm
    · exact h.contextApart contextSlot id found hs hold

end LowerState.Fits

/-! ### Lowering keeps slots apart -/

/-- The step keeps the slots fitting, however it ends. -/
abbrev KeepsSlots {α : Type} (step : LowerM ξ α) : Prop := Keeps LowerState.Fits step

namespace KeepsSlots

variable {α : Type}

/-- A step of emission that only adds slots. -/
theorem emitting {step : EmitM α}
    (h : ∀ s : Emission, s.emitter.AddsSlots (Result.state (step s)).emitter) :
    KeepsSlots (emitting step : LowerM ξ α) := by
  intro s hs
  have hadds := h s.emission
  unfold LowerM.emitting
  cases hstep : step s.emission with
  | ok a emission =>
    rw [hstep] at hadds
    exact hs.mono rfl rfl hadds
  | error e emission =>
    rw [hstep] at hadds
    exact hs.mono rfl rfl hadds

/-- An instruction. -/
theorem emit (op : Opcode) (x : Operand) :
    KeepsSlots (LowerM.emitting (Emission.emit op x) : LowerM ξ Unit) := by
  refine emitting fun s => ?_
  cases hstep : Emission.emit op x s with
  | ok a s' => exact Request.addsSlots (r := .emit op x) hstep
  | error e s' =>
    rw [Result.state_error, atomic_emit op x s e s' hstep]
    exact .of_same rfl

theorem captured (line : Position) {step : LowerM ξ α} (h : KeepsSlots step) :
    KeepsSlots (captured line step) := by
  intro s hs
  unfold LowerM.captured
  split
  · exact h s hs
  · split
    · exact h s hs
    · rename_i file _ _
      dsimp only
      have hbegin := Emitter.sameCode_beginCapture s.emission.emitter
        (s.emission.module.document file).1 line
      have hin : LowerState.Fits { s with emission := (s.emission.beginCapture file line).2 } :=
        hs.same rfl rfl hbegin.locals
      have hout := h _ hin
      unfold LowerM.andThen
      -- the capture ends on failure as well
      split <;> rename_i hstep <;> rw [hstep] at hout
      all_goals exact hout.same rfl rfl (endCapture_locals _ _)

theorem dispatch [Extension ξ] {n : Node ξ} {step : LowerM ξ α} (h : KeepsSlots step) :
    KeepsSlots (dispatch n step) := by
  intro s hs
  have hin : LowerState.Fits { s with context := s.context.enter n } := hs.same rfl rfl rfl
  have hout := captured n.line h _ hin
  unfold LowerM.dispatch LowerM.andThen
  split <;> rename_i hstep <;> rw [hstep] at hout
  all_goals exact hout.same rfl rfl rfl

theorem loadLocal (l : CompilerLocal) (line : Position) :
    KeepsSlots (loadLocal l line : LowerM ξ Unit) := by
  refine Keeps.get_bind fun s hs => ?_
  cases s.context.slot? l with
  | none => exact hs
  | some slot => exact emit _ _ s hs

theorem slotFor (l : CompilerLocal) : KeepsSlots (slotFor l : LowerM ξ Slot) := by
  refine Keeps.get_bind fun s hs => ?_
  cases s.context.slot? l with
  | some slot => exact hs
  | none =>
    simp only [Bind.bind, EStateM.bind, LowerM.emitting]
    cases hstep : Emission.defineLocal l.type s.emission with
    | ok slot emission =>
      obtain ⟨hlt, hslot, he⟩ := defineLocal_inv hstep
      exact hs.define (by rw [hslot]) hlt he
    | error e emission =>
      obtain rfl := atomic_defineLocal l.type _ _ _ hstep
      exact hs

theorem storeLocal (l : CompilerLocal) : KeepsSlots (storeLocal l : LowerM ξ Unit) :=
  Keeps.bind (slotFor l) fun _ => emit _ _

theorem verifyParents (name : String) (line : Position) :
    KeepsSlots (verifyParents name line : LowerM ξ Unit) := by
  refine Keeps.get_bind fun s hs => ?_
  dsimp only
  split
  · exact hs
  · split
    · exact hs
    · exact hs.same rfl rfl rfl

theorem loadContext (line : Position) : KeepsSlots (loadContext line : LowerM Empty Unit) := by
  refine Keeps.get_bind fun s hs => ?_
  cases s.context.contextLocal with
  | none => exact hs
  | some slot => exact emit _ _ s hs

end KeepsSlots

/-- An act keeps slots apart: only a first store defines one. -/
theorem Act.keepsSlots (a : Act) : KeepsSlots a.perform := by
  cases a with
  | text | copy | drop | create | assign | box =>
    rw [Act.perform]
    exact KeepsSlots.emit _ _
  | load l line => exact KeepsSlots.loadLocal l line
  | store l => exact KeepsSlots.storeLocal l
  | context line => exact KeepsSlots.loadContext line
  | hook m => exact Keeps.bind (KeepsSlots.emit _ _) fun _ => KeepsSlots.emit _ _
  | convert target =>
    rw [Act.perform, MarkupLowering.convert]
    split
    · exact KeepsSlots.emit _ _
    · exact KeepsSlots.emit _ _
  | verify name line => exact KeepsSlots.verifyParents name line

theorem Plan.keepsSlots : ∀ p : Plan, KeepsSlots p.perform
  | .nothing => Keeps.pure _
  | .act a => a.keepsSlots
  | .refuse _ _ => Keeps.throw _
  | .seq p q => Keeps.bind p.keepsSlots fun _ => q.keepsSlots
  | .scoped _ p => KeepsSlots.dispatch p.keepsSlots

/-- Lowering a tree keeps slots apart. -/
theorem keepsSlots_lower (env : Environment) (n : Node Empty) (expected : Option TypeRef) :
    KeepsSlots (n.lower env expected) := by
  rw [n.lower_eq_perform]
  exact Keeps.bind (n.plan env expected).keepsSlots fun _ => Keeps.pure _

/-! ### Contexts in use -/

/-- The states that a context and its emitter get into. -/
inductive Used : LowerState Empty → Prop
  /-- A new context, on an emitter that was asked for anything before. The context local, if there
  is one, is a slot of the emitter. -/
  | start {m : Module} {owner : BodyOwner} {e₀ : Emitter} {log : List Request}
      {s : LowerState Empty} : m.emitter owner = .ok e₀ →
      Run (fun _ => True) e₀ log s.emission.emitter → s.context.slots = [] →
      (∀ slot, s.context.contextLocal = some slot →
        slot.index.toNat < s.emission.emitter.locals.size) → Used s
  /-- The module was changed by others. -/
  | elsewhere {s : LowerState Empty} (m : Module) : Used s → Used { s with emission.module := m }
  /-- The emitter was asked for something. -/
  | request {s : LowerState Empty} (r : Request) : Used s →
      Used { s with emission := Result.state (r.perform s.emission) }
  /-- A tree was lowered, or failed to be. -/
  | lower {s : LowerState Empty} (env : Environment) (n : Node Empty) (expected : Option TypeRef) :
      Used s → Used (Result.state (n.lower env expected s))
  | load {s : LowerState Empty} (l : CompilerLocal) (line : Position) : Used s →
      Used (Result.state (loadLocal l line s))
  | store {s : LowerState Empty} (l : CompilerLocal) : Used s →
      Used (Result.state (storeLocal l s))
  | verify {s : LowerState Empty} (name : String) (line : Position) : Used s →
      Used (Result.state (verifyParents name line s))

theorem Run.limit {M : Module → Prop} {e₀ e : Emitter} {log : List Request} (h₀ : e₀.Fresh)
    (h : Run M e₀ log e) : e.locals.size ≤ maxLocals := by
  refine Run.induct (P := fun _ e => e.locals.size ≤ maxLocals) ?_ ?_ h
  · rw [h₀.locals]
    exact Nat.zero_le _
  · exact fun hle _ hr => (Request.addsSlots hr).limit hle

theorem KeepsSlots.request {s : LowerState Empty} (h : s.Fits) (r : Request) :
    LowerState.Fits { s with emission := Result.state (r.perform s.emission) } := by
  cases hr : r.perform s.emission with
  | ok u emission => exact h.mono rfl rfl (Request.addsSlots hr)
  | error e emission =>
    rw [Result.state_error, Request.atomic_perform r _ _ _ hr]
    exact h

/-- However a context is used, its slots fit. -/
theorem Used.fits {s : LowerState Empty} (h : Used s) : s.Fits := by
  induction h with
  | @start m owner e₀ log s hnew hrun hslots hcontext =>
    obtain ⟨hfresh, -, -⟩ := Module.emitter_inv hnew
    refine ⟨hrun.limit hfresh, ?_, ?_, hcontext, ?_⟩ <;> rw [hslots]
    · exact fun _ _ h => by cases h
    · exact fun _ _ _ _ h => by cases h
    · exact fun _ _ _ _ h => by cases h
  | elsewhere m _ ih => exact ih.same rfl rfl rfl
  | request r _ ih => exact KeepsSlots.request ih r
  | lower env n expected _ ih => exact keepsSlots_lower env n expected _ ih
  | load l line _ ih => exact KeepsSlots.loadLocal l line _ ih
  | store l _ ih => exact KeepsSlots.storeLocal l _ ih
  | verify name line _ ih => exact KeepsSlots.verifyParents name line _ ih

end MarkupLowering
