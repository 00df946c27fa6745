import MarkupLowering.Emitter.Finish
import MarkupLowering.Proofs.Import.Tables
import MarkupLowering.Proofs.Steps

/-!
# MarkupLowering.Proofs.Emitter.Requests

**Histories of an emitter.** Whatever happens to a body before it is finished is a sequence of
requests to its emitter, some of which are refused.

* `Request.perform` is one request; the `_inv` lemmas say once what a granted one does.
* `Emission.reduction` lists the steps by which operands are reduced. What all of them have in
  common is proved by cases on the list, with no look at opcodes.
* `Run M e₀ log e` is a history from `e₀` to `e`. Other emitters and builders work on the same
  module in between, so every request is made in a module of its own, of which only `M` is known.
  The log holds the granted requests; refused ones leave no trace (`atomic_perform`).
* `script` performs requests in order, each of which has to be granted.
-/

namespace MarkupLowering

/-- What can be asked of an emitter until it finishes. -/
inductive Request
  | emit (op : Opcode) (x : Operand)
  | defineLocal (type : TypeRef)
  | defineLabel
  | markLabel (l : Label)
  | beginCapture (file : SourceFile) (position : Position)
  | endCapture (id : Nat)

namespace Request

open Emission

/-- Does what is asked, or fails. -/
def perform : Request → EmitM Unit
  | .emit op x => Emission.emit op x
  | .defineLocal type => do
    let _ ← Emission.defineLocal type
  | .defineLabel => do
    let _ ← Emission.defineLabel
  | .markLabel l => Emission.markLabel l
  | .beginCapture file position => fun s => .ok () (s.beginCapture file position).2
  | .endCapture id => fun s => .ok () (s.endCapture (some id))

/-- The instruction that a request asks for. -/
def instruction? : Request → Option (Opcode × Operand)
  | .emit op x => some (op, x)
  | _ => none

/-- Performs requests in order, up to the first that is refused. -/
def script : List Request → EmitM Unit
  | [] => pure ()
  | r :: rs => do
    r.perform
    script rs

end Request

/-- The instructions among requests, with the operands as they were asked for. -/
def emitted (log : List Request) : List (Opcode × Operand) := log.filterMap Request.instruction?

theorem emitted_append (log log' : List Request) :
    emitted (log ++ log') = emitted log ++ emitted log' := by
  simp [emitted]

@[simp] theorem emitted_emit (op : Opcode) (x : Operand) : emitted [.emit op x] = [(op, x)] := rfl

/-- A history from `e₀`: the granted requests, and the emitter after them. Each request is made
while the module is one of `M`. -/
inductive Run (M : Module → Prop) (e₀ : Emitter) : List Request → Emitter → Prop
  | start : Run M e₀ [] e₀
  | granted {log : List Request} {e : Emitter} {m : Module} {r : Request} {s : Emission} :
      Run M e₀ log e → M m → r.perform ⟨m, e⟩ = .ok () s → Run M e₀ (log ++ [r]) s.emitter
  | refused {log : List Request} {e : Emitter} {m : Module} {r : Request} {err : EmitError}
      {s : Emission} :
      Run M e₀ log e → M m → r.perform ⟨m, e⟩ = .error err s → Run M e₀ log s.emitter

/-- Two modules that may differ in their imports and documents, and agree in all else. -/
def Module.SameRows (m m' : Module) : Prop :=
  m' = { m with imports := m'.imports, documents := m'.documents }

theorem Module.SameRows.methods {m m' : Module} (h : m.SameRows m') : m'.methods = m.methods := by
  have hfield := congrArg Module.methods h
  exact hfield

/-! ### What reducing an operand does -/

/-- What an operand mentions. -/
def Operand.imports : Operand → List Import
  | .type t => [.type t]
  | .field f => [.field f]
  | .method m => [.method m]
  | .constructor c => [.constructor c]
  | .string text => [.string text]
  | _ => []

namespace Emission

/-- The steps by which operands are reduced, each with what the operand mentions. Which of them is
taken is a matter of opcode and operand, and makes no difference to what all of them leave alone. -/
inductive Reduction : List Import → EmitM PendingArgument → Prop
  | ready (a : Argument) : Reduction [] (pure (.ready a))
  /-- What is mentioned is imported. -/
  | token (i : Import) : Reduction [i] (token (·.importing i.perform))
  | argument (index : Int32) : Reduction [] (known (·.argument index))
  | slotAt (index : Int32) : Reduction [] (known (·.slotAt index))
  | slotOf (slot : Slot) : Reduction [] (known (·.slotOf slot))
  | branch (l : Label) : Reduction [] (branch l)
  /-- The opcode takes another kind of operand. -/
  | refused (is : List Import) (err : EmitError) : Reduction is (throw err)

theorem reduction (op : Opcode) (x : Operand) : Reduction x.imports (reduce op x) := by
  unfold reduce
  split
  case h_1 | h_2 | h_3 | h_4 | h_5 | h_6 => exact .ready _
  case h_7 => exact .token (.string _)
  case h_8 => exact .token (.field _)
  case h_9 => exact .token (.method _)
  case h_10 => exact .token (.constructor _)
  case h_11 => exact .token (.type _)
  case h_12 | h_13 => exact .argument _
  case h_14 | h_15 => exact .slotAt _
  case h_16 | h_17 => exact .slotOf _
  case h_18 | h_19 => exact .branch _
  case h_20 => exact .refused _ _

/-- What an operand is reduced to, by the type of operand that the opcode expects. Only the import
of an entity depends on the module. -/
inductive Reduces (m : Module) (e : Emitter) : OperandType → Operand → PendingArgument → Prop
  | none : Reduces m e .none .none (.ready .none)
  | shortInt (value : Int32) : Reduces m e .shortInt (.int value) (.ready (.int value))
  | int (value : Int32) : Reduces m e .int (.int value) (.ready (.int value))
  | long (value : Int64) : Reduces m e .long (.long value) (.ready (.long value))
  | float (bits : UInt32) : Reduces m e .float (.float bits) (.ready (.float bits))
  | double (bits : UInt64) : Reduces m e .double (.double bits) (.ready (.double bits))
  | string (text : String) :
      Reduces m e .string (.string text) (.ready (.token (m.internString text).1))
  | field (f : FieldRef) : Reduces m e .field (.field f) (.ready (.token (m.importField f).1))
  | method (r : MethodRef) : Reduces m e .method (.method r) (.ready (.token (m.importMethod r).1))
  | constructor (c : ConstructorRef) :
      Reduces m e .method (.constructor c) (.ready (.token (m.importConstructor c).1))
  | type (t : TypeRef) : Reduces m e .type (.type t) (.ready (.token (m.importType t).1))
  | argument {t : OperandType} {index : Int32} {a : Argument} : t.isArgument = true →
      e.argument index = .ok a → Reduces m e t (.int index) (.ready a)
  | slotAt {t : OperandType} {index : Int32} {a : Argument} : t.isSlot = true →
      e.slotAt index = .ok a → Reduces m e t (.int index) (.ready a)
  | slotOf {t : OperandType} {s : Slot} {a : Argument} : t.isSlot = true →
      e.slotOf s = .ok a → Reduces m e t (.slot s) (.ready a)
  | branch {t : OperandType} {l : Label} : t.isBranch = true →
      e.labels.knows l = true → Reduces m e t (.label l) (.branch l)

theorem known_inv {f : Emitter → Except EmitError Argument} {s s' : Emission} {p : PendingArgument}
    (h : known f s = .ok p s') : ∃ a, f s.emitter = .ok a ∧ p = .ready a ∧ s' = s := by
  unfold known at h
  split at h
  · rename_i a ha
    injection h with hp hs
    exact ⟨a, ha, hp.symm, hs.symm⟩
  · cases h

theorem branch_inv {l : Label} {s s' : Emission} {p : PendingArgument}
    (h : branch l s = .ok p s') : s.emitter.labels.knows l = true ∧ p = .branch l ∧ s' = s := by
  unfold branch at h
  split at h
  · rename_i hl
    injection h with hp hs
    exact ⟨hl, hp.symm, hs.symm⟩
  · cases h

theorem token_inv {f : Module → Token × Module} {s s' : Emission} {p : PendingArgument}
    (h : token f s = .ok p s') :
    p = .ready (.token (f s.module).1) ∧ s' = { s with module := (f s.module).2 } := by
  injection h with hp hs
  exact ⟨hp.symm, hs.symm⟩

/-- Reducing an operand may import, and leaves the emitter alone. -/
theorem reduce_inv {op : Opcode} {x : Operand} {s s' : Emission} {p : PendingArgument}
    (h : reduce op x s = .ok p s') :
    Reduces s.module s.emitter op.operandType x p ∧ s'.emitter = s.emitter ∧
      s.module.SameRows s'.module := by
  -- the row is chosen before the step sees the state
  generalize hm : reduce op x = step at h
  unfold reduce at hm
  split at hm <;> subst hm <;> rename_i ht
  case h_20 => cases h
  case h_1 | h_2 | h_3 | h_4 | h_5 | h_6 =>
    obtain ⟨rfl, rfl⟩ := pure_inv h
    rw [ht]
    exact ⟨by constructor, rfl, rfl⟩
  case h_7 | h_8 | h_9 | h_10 | h_11 =>
    obtain ⟨rfl, rfl⟩ := token_inv h
    rw [ht]
    exact ⟨by constructor, rfl, rfl⟩
  case h_12 | h_13 =>
    obtain ⟨a, ha, rfl, rfl⟩ := known_inv h
    exact ⟨.argument (by rw [ht]; rfl) ha, rfl, rfl⟩
  case h_14 | h_15 =>
    obtain ⟨a, ha, rfl, rfl⟩ := known_inv h
    exact ⟨.slotAt (by rw [ht]; rfl) ha, rfl, rfl⟩
  case h_16 | h_17 =>
    obtain ⟨a, ha, rfl, rfl⟩ := known_inv h
    exact ⟨.slotOf (by rw [ht]; rfl) ha, rfl, rfl⟩
  case h_18 | h_19 =>
    obtain ⟨hl, rfl, rfl⟩ := branch_inv h
    exact ⟨.branch (by rw [ht]; rfl) hl, rfl, rfl⟩

theorem resolve_inv {op : Opcode} {x : Operand} {s s' : Emission} {p : PendingArgument}
    (h : resolve op x s = .ok p s') :
    overflow? op x = none ∧ Reduces s.module s.emitter op.operandType x p ∧
      s'.emitter = s.emitter ∧ s.module.SameRows s'.module := by
  unfold resolve at h
  cases hx : overflow? op x with
  | some value =>
    rw [hx] at h
    cases h
  | none =>
    rw [hx] at h
    exact ⟨rfl, reduce_inv h⟩

/-! ### What a granted request does -/

theorem emit_inv {op : Opcode} {x : Operand} {s s' : Emission} (h : emit op x s = .ok () s') :
    ∃ p, overflow? op x = none ∧ Reduces s.module s.emitter op.operandType x p ∧
      s'.emitter = s.emitter.append ⟨op, p⟩ := by
  obtain ⟨p, s₁, hp, happ⟩ := bind_inv h
  obtain ⟨hx, hr, hs, -⟩ := resolve_inv hp
  refine ⟨p, hx, hr, ?_⟩
  injection happ with _ he
  rw [← he, ← hs]

theorem defineLocal_inv {type : TypeRef} {s s' : Emission} {slot : Slot}
    (h : defineLocal type s = .ok slot s') :
    s.emitter.locals.size < maxLocals ∧ slot = ⟨s.emitter.locals.size.toUInt16, type⟩ ∧
      s'.emitter = { s.emitter with locals := s.emitter.locals.push type } := by
  unfold defineLocal at h
  dsimp only at h
  split at h
  · rename_i hlt
    injection h with hslot hs
    exact ⟨hlt, hslot.symm, by rw [← hs]⟩
  · cases h

theorem markLabel_inv {l : Label} {s s' : Emission} (h : markLabel l s = .ok () s') :
    s.emitter.labels.knows l = true ∧
      s'.emitter = { s.emitter with labels := s.emitter.labels.stage l } := by
  unfold markLabel at h
  split at h
  · rename_i hl
    injection h with _ hs
    exact ⟨hl, by rw [← hs]⟩
  · cases h

end Emission

namespace Emitter

/-- Two emitters that may differ in their debug information, and agree in all else. -/
def SameCode (e e' : Emitter) : Prop :=
  e' = { e with debug := e'.debug, openCaptures := e'.openCaptures
                lastStart := e'.lastStart, nextCapture := e'.nextCapture }

theorem SameCode.trans {e e₁ e₂ : Emitter} (h₁ : SameCode e e₁) (h₂ : SameCode e₁ e₂) :
    SameCode e e₂ := by
  unfold SameCode at h₁ h₂ ⊢
  rw [h₁] at h₂
  exact h₂

theorem SameCode.instructions {e e' : Emitter} (h : SameCode e e') :
    e'.instructions = e.instructions := by
  have hfield := congrArg Emitter.instructions h
  exact hfield

theorem SameCode.locals {e e' : Emitter} (h : SameCode e e') : e'.locals = e.locals := by
  have hfield := congrArg Emitter.locals h
  exact hfield

theorem SameCode.labels {e e' : Emitter} (h : SameCode e e') : e'.labels = e.labels := by
  have hfield := congrArg Emitter.labels h
  exact hfield

theorem SameCode.owner {e e' : Emitter} (h : SameCode e e') :
    e'.row = e.row ∧ e'.method = e.method := by
  have hrow := congrArg Emitter.row h
  have hmethod := congrArg Emitter.method h
  exact ⟨hrow, hmethod⟩

theorem sameCode_record (e : Emitter) (c : OpenCapture) : SameCode e (e.record c) := by
  unfold record
  split <;> rfl

theorem sameCode_beginCapture (e : Emitter) (d : Document) (p : Position) :
    SameCode e (e.beginCapture d p).2 := by
  unfold beginCapture
  dsimp only
  split <;> rfl

theorem sameCode_endCapture (e : Emitter) (id : Nat) : SameCode e (e.endCapture id) := by
  unfold endCapture
  split
  · rfl
  · rename_i c _
    have herase : SameCode e { e with openCaptures := e.openCaptures.eraseP (·.id == id) } := rfl
    exact herase.trans (sameCode_record _ c)

theorem sameCode_endAllCaptures (e : Emitter) : SameCode e e.endAllCaptures := by
  have hfold : ∀ (cs : List OpenCapture) (e' : Emitter), SameCode e e' →
      SameCode e (cs.foldr (fun c e => e.record c) e') := by
    intro cs e' he
    induction cs with
    | nil => exact he
    | cons c cs ih => exact ih.trans (sameCode_record _ c)
  exact hfold e.openCaptures _ rfl

/-- Slots were only added, and not beyond the limit. -/
structure AddsSlots (e e' : Emitter) : Prop where
  le : e.locals.size ≤ e'.locals.size
  limit : e.locals.size ≤ Emission.maxLocals → e'.locals.size ≤ Emission.maxLocals

theorem AddsSlots.of_same {e e' : Emitter} (h : e'.locals = e.locals) :
    e.AddsSlots e' := by
  refine ⟨Nat.le_of_eq (by rw [h]), fun hle => ?_⟩
  rw [h]
  exact hle

theorem AddsSlots.of_push {e e' : Emitter} {type : TypeRef}
    (h : e' = { e with locals := e.locals.push type }) (hlt : e.locals.size < Emission.maxLocals) :
    e.AddsSlots e' := by
  have hsize : e'.locals.size = e.locals.size + 1 := by rw [h, Array.size_push]
  exact ⟨by omega, fun _ => by omega⟩

/-- An emitter that was not asked for anything yet. -/
structure Fresh (e : Emitter) : Prop where
  instructions : e.instructions = #[]
  locals : e.locals = #[]
  labels : e.labels = .empty

end Emitter

theorem Emission.endCapture_locals (s : Emission) (id : Option Nat) :
    (s.endCapture id).emitter.locals = s.emitter.locals := by
  cases id with
  | none => rfl
  | some id => exact (s.emitter.sameCode_endCapture id).locals

/-- The emitter of a method writes to the method's row, which is there and has no body. -/
theorem Module.emitter_inv {m : Module} {owner : BodyOwner} {e : Emitter}
    (h : m.emitter owner = .ok e) :
    e.Fresh ∧ e.method = owner.render ∧
      ∃ row, m.methods[e.row]? = some row ∧ row.body = none := by
  unfold Module.emitter at h
  split at h
  · cases h
  · split at h
    · cases h
    · rename_i row hrow
      split at h
      · cases h
      · rename_i hbody
        cases h
        exact ⟨⟨rfl, rfl, rfl⟩, rfl, row, hrow, by simpa using hbody⟩

namespace Request

open Emission

theorem beginCapture_inv {file : SourceFile} {position : Position} {s s' : Emission}
    (h : (Request.beginCapture file position).perform s = .ok () s') :
    s.emitter.SameCode s'.emitter := by
  injection h with _ hs
  rw [← hs]
  exact Emitter.sameCode_beginCapture _ _ _

theorem endCapture_inv {id : Nat} {s s' : Emission}
    (h : (Request.endCapture id).perform s = .ok () s') : s.emitter.SameCode s'.emitter := by
  injection h with _ hs
  rw [← hs]
  exact Emitter.sameCode_endCapture _ _

theorem defineLocal_inv {type : TypeRef} {s s' : Emission}
    (h : (Request.defineLocal type).perform s = .ok () s') :
    s.emitter.locals.size < maxLocals ∧
      s'.emitter = { s.emitter with locals := s.emitter.locals.push type } := by
  obtain ⟨slot, s₁, hd, hp⟩ := bind_inv h
  obtain ⟨-, rfl⟩ := pure_inv hp
  obtain ⟨hlt, -, he⟩ := Emission.defineLocal_inv hd
  exact ⟨hlt, he⟩

theorem defineLabel_inv {s s' : Emission} (h : Request.defineLabel.perform s = .ok () s') :
    s'.emitter = { s.emitter with labels := s.emitter.labels.define.2 } := by
  obtain ⟨l, s₁, hd, hp⟩ := bind_inv h
  obtain ⟨-, rfl⟩ := pure_inv hp
  injection hd with _ hs
  rw [← hs]
  rfl

/-- What is asked of an emitter only adds slots. -/
theorem addsSlots {r : Request} {s s' : Emission} (h : r.perform s = .ok () s') :
    s.emitter.AddsSlots s'.emitter := by
  cases r with
  | emit op x =>
    obtain ⟨p, -, -, hs⟩ := Emission.emit_inv h
    exact .of_same (by rw [hs]; rfl)
  | defineLocal type =>
    obtain ⟨hlt, hs⟩ := defineLocal_inv h
    exact .of_push hs hlt
  | defineLabel => exact .of_same (by rw [defineLabel_inv h])
  | markLabel l => exact .of_same (by rw [(markLabel_inv h).2])
  | beginCapture file position => exact .of_same (beginCapture_inv h).locals
  | endCapture id => exact .of_same (endCapture_inv h).locals

/-- A granted request appends the instruction that it asks for, or none. -/
theorem perform_code {r : Request} {s s' : Emission} (h : r.perform s = .ok () s') :
    (∃ op x p, r = .emit op x ∧ overflow? op x = none ∧
      Reduces s.module s.emitter op.operandType x p ∧ s'.emitter = s.emitter.append ⟨op, p⟩) ∨
    (r.instruction? = none ∧ s'.emitter.instructions = s.emitter.instructions) := by
  cases r with
  | emit op x =>
    obtain ⟨p, hx, hp, hs⟩ := Emission.emit_inv h
    exact Or.inl ⟨op, x, p, rfl, hx, hp, hs⟩
  | defineLocal type => exact Or.inr ⟨rfl, by rw [(defineLocal_inv h).2]⟩
  | defineLabel => exact Or.inr ⟨rfl, by rw [defineLabel_inv h]⟩
  | markLabel l => exact Or.inr ⟨rfl, by rw [(markLabel_inv h).2]⟩
  | beginCapture file position => exact Or.inr ⟨rfl, (beginCapture_inv h).instructions⟩
  | endCapture id => exact Or.inr ⟨rfl, (endCapture_inv h).instructions⟩

/-- A refused request leaves emitter and module as they were. -/
theorem atomic_perform (r : Request) : Atomic r.perform := by
  cases r with
  | emit op x => exact atomic_emit op x
  | defineLocal type => exact (atomic_defineLocal type).bind_total fun _ => total_pure _
  | defineLabel => exact ((total_onEmitter _).bind fun _ => total_pure _).atomic
  | markLabel l => exact atomic_markLabel l
  | beginCapture file position => exact fun _ _ _ h => by cases h
  | endCapture id => exact fun _ _ _ h => by cases h

/-- Requests reach into the module only to import and to look documents up. -/
theorem sameRows {r : Request} {s s' : Emission} (h : r.perform s = .ok () s') :
    s.module.SameRows s'.module := by
  cases r with
  | emit op x =>
    obtain ⟨p, s₁, hp, happ⟩ := bind_inv h
    obtain ⟨-, -, -, hrows⟩ := resolve_inv hp
    cases happ
    exact hrows
  | defineLocal type =>
    obtain ⟨slot, s₁, hd, hp⟩ := bind_inv h
    obtain ⟨-, rfl⟩ := pure_inv hp
    unfold Emission.defineLocal at hd
    dsimp only at hd
    split at hd
    · cases hd
      rfl
    · cases hd
  | defineLabel =>
    obtain ⟨l, s₁, hd, hp⟩ := bind_inv h
    obtain ⟨-, rfl⟩ := pure_inv hp
    cases hd
    rfl
  | markLabel l =>
    unfold perform Emission.markLabel at h
    dsimp only at h
    split at h
    · cases h
      rfl
    · cases h
  | beginCapture file position =>
    cases h
    rfl
  | endCapture id =>
    cases h
    rfl

/-- Requests leave alone what the emitter knows about its method. -/
theorem perform_owner {r : Request} {s s' : Emission} (h : r.perform s = .ok () s') :
    s'.emitter.row = s.emitter.row ∧ s'.emitter.method = s.emitter.method := by
  cases r with
  | emit op x =>
    obtain ⟨p, -, -, hs⟩ := Emission.emit_inv h
    rw [hs]
    exact ⟨rfl, rfl⟩
  | defineLocal type =>
    rw [(defineLocal_inv h).2]
    exact ⟨rfl, rfl⟩
  | defineLabel =>
    rw [defineLabel_inv h]
    exact ⟨rfl, rfl⟩
  | markLabel l =>
    rw [(markLabel_inv h).2]
    exact ⟨rfl, rfl⟩
  | beginCapture file position => exact (beginCapture_inv h).owner
  | endCapture id => exact (endCapture_inv h).owner

/-! ### Scripts -/

theorem script_append {rs rs' : List Request} {s s₁ s₂ : Emission}
    (h₁ : script rs s = .ok () s₁) (h₂ : script rs' s₁ = .ok () s₂) :
    script (rs ++ rs') s = .ok () s₂ := by
  induction rs generalizing s with
  | nil =>
    obtain ⟨-, rfl⟩ := pure_inv h₁
    exact h₂
  | cons r rs ih =>
    obtain ⟨_, s', hr, hrs⟩ := bind_inv h₁
    have htail := ih hrs
    simp only [List.cons_append, script, Bind.bind, EStateM.bind, hr]
    exact htail

theorem script_single {r : Request} {s s' : Emission} (h : r.perform s = .ok () s') :
    script [r] s = .ok () s' := by
  simp only [script, Bind.bind, EStateM.bind, h]
  rfl

end Request

/-- A history can be read off its last request: what holds at the start and is kept by granted
requests holds after every history. -/
theorem Run.induct {M : Module → Prop} {e₀ : Emitter} {P : List Request → Emitter → Prop}
    (start : P [] e₀)
    (step : ∀ {log e m r s}, P log e → M m → Request.perform r ⟨m, e⟩ = .ok () s →
      P (log ++ [r]) s.emitter)
    {log : List Request} {e : Emitter} (h : Run M e₀ log e) : P log e := by
  induction h with
  | start => exact start
  | granted _ hM hr ih => exact step ih hM hr
  | refused _ _ hr ih =>
    rw [Request.atomic_perform _ _ _ _ hr]
    exact ih

theorem Run.owner {M : Module → Prop} {e₀ e : Emitter} {log : List Request}
    (h : Run M e₀ log e) : e.row = e₀.row ∧ e.method = e₀.method := by
  refine Run.induct (P := fun _ e => e.row = e₀.row ∧ e.method = e₀.method) ⟨rfl, rfl⟩ ?_ h
  intro log e m r s hP _ hr
  have howner := Request.perform_owner hr
  exact ⟨howner.1.trans hP.1, howner.2.trans hP.2⟩

/-! ### A method to write -/

/-- A module with one method, which has no body. -/
def oneMethod : Module := { (default : Module) with methods := #[default] }

/-- The method of `oneMethod`. -/
def onlyMethod : BodyOwner := .method { (default : MethodRef) with definition := some ⟨0, 0⟩ }

/-- Its emitter. -/
def onlyEmitter : Emitter where
  row := 0
  method := onlyMethod.render
  hasThis := true
  paramCount := 0

theorem emitter_oneMethod : oneMethod.emitter onlyMethod = .ok onlyEmitter := rfl

end MarkupLowering
