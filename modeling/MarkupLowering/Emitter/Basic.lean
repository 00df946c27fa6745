import MarkupLowering.Atomic
import MarkupLowering.LabelTable
import MarkupLowering.Module.Basic
import MarkupLowering.Operand

/-!
# MarkupLowering.Emitter.Basic

**Writing a method body.** An emitter takes instructions one after the other. It checks each
operand against the opcode and reduces it at once, except that branches keep their label until
the body is finished.

Design points:

* Operations run on an `Emission`, the emitter and the module that it writes into: reducing an
  operand may import, and a debug point may add a document. An operation that fails changes
  neither.
* An operand is checked for the range of a short form first, whatever its kind, and for its kind
  second.
* A debug capture begins at the instruction that comes next. It begins only if no other began
  there, and it leaves a sequence point only if an instruction came before its end.
-/

namespace MarkupLowering

/-! ### State -/

/-- The operand of an instruction of an unfinished body. -/
inductive PendingArgument
  | ready (a : Argument)
  | branch (l : Label)
  deriving DecidableEq, Inhabited

/-- An instruction of an unfinished body. -/
structure PendingInstruction where
  opcode : Opcode
  argument : PendingArgument
  deriving DecidableEq, Inhabited

/-- A debug capture that has not ended. -/
structure OpenCapture where
  id : Nat
  document : Document
  position : Position
  /-- The instructions before it. -/
  start : Nat
  deriving DecidableEq, Inhabited

/-- A body in the making. -/
structure Emitter where
  /-- The row of the method. -/
  row : Nat
  /-- The method, in diagnostics. -/
  method : String
  /-- Whether the first argument is the object that the method was called on. -/
  hasThis : Bool
  paramCount : Nat
  instructions : Array PendingInstruction := #[]
  locals : Array TypeRef := #[]
  labels : LabelTable := .empty
  debug : DebugInfo := {}
  openCaptures : List OpenCapture := []
  /-- The instructions before the latest capture. -/
  lastStart : Option Nat := none
  nextCapture : Nat := 0
  deriving Inhabited

/-- An emitter and the module that it writes into. -/
structure Emission where
  module : Module
  emitter : Emitter
  deriving Inhabited

/-- A step of emission. State that a failing step has changed stays changed. -/
abbrev EmitM := EStateM EmitError Emission

/-- The emitter for the body of a method or constructor, which must not have one. -/
def Module.emitter (m : Module) (owner : BodyOwner) : Except EmitError Emitter :=
  match m.ownRow owner with
  | .error e => .error e
  | .ok row =>
    match m.methods[row]? with
    | none => .error (.foreignMember owner.render m.name)
    | some method =>
      if method.body.isSome then .error (.bodyAlreadyFinalized owner.render)
      else .ok { row, method := owner.render, hasThis := !method.isStatic
                 paramCount := method.params.length }

namespace Emitter

/-- The number of instructions so far. -/
def count (e : Emitter) : Nat := e.instructions.size

/-- The number of argument slots, with the one for the object. -/
def argumentCount (e : Emitter) : Nat := e.paramCount + e.hasThis.toNat

/-! ### Operands -/

/-- The argument slot with a given number. An instance method finds its object in slot zero and
its parameters after it. -/
def argument (e : Emitter) (index : Int32) : Except EmitError Argument :=
  match index.toInt with
  | .ofNat slot =>
    if slot < e.argumentCount then
      .ok <| if e.hasThis then
        match slot with
        | 0 => .this
        | slot + 1 => .param slot.toUInt16
      else .param slot.toUInt16
    else .error (.argumentOutOfRange slot e.argumentCount e.method)
  | index => .error (.argumentOutOfRange index e.argumentCount e.method)

/-- The local slot with a given number. -/
def slotAt (e : Emitter) (index : Int32) : Except EmitError Argument :=
  match index.toInt with
  | .ofNat slot =>
    if slot < e.locals.size then .ok (.slot slot.toUInt16)
    else .error (.localOutOfRange slot e.locals.size)
  | index => .error (.localOutOfRange index e.locals.size)

/-- The local slot of a handle, which must have the type that the slot was defined with. -/
def slotOf (e : Emitter) (s : Slot) : Except EmitError Argument :=
  match e.locals[s.index.toNat]? with
  | some type =>
    if type == s.type then .ok (.slot s.index)
    else .error (.localOutOfRange s.index.toNat e.locals.size)
  | none => .error (.localOutOfRange s.index.toNat e.locals.size)

/-- Appends an instruction, which binds the staged labels. -/
def append (e : Emitter) (i : PendingInstruction) : Emitter :=
  let index := e.instructions.size
  { e with instructions := e.instructions.push i, labels := e.labels.bindStaged index }

end Emitter

namespace Emission

/-- Reduces an operand to a token of the module. -/
def token (f : Module → Token × Module) : EmitM PendingArgument := fun s =>
  let (t, m) := f s.module
  .ok (.ready (.token t)) { s with module := m }

/-- Reduces an operand by what the emitter knows. -/
def known (f : Emitter → Except EmitError Argument) : EmitM PendingArgument := fun s =>
  match f s.emitter with
  | .ok a => .ok (.ready a) s
  | .error e => .error e s

/-- Whether an operand has a number that the opcode's short form cannot encode. -/
def overflow? (op : Opcode) (x : Operand) : Option Int :=
  x.shortValue?.filter fun value => !op.operandType.fitsShort value

/-- Reduces a branch to a label of this emitter. -/
def branch (l : Label) : EmitM PendingArgument := fun s =>
  if s.emitter.labels.knows l then .ok (.branch l) s else .error (.unknownLabel l) s

/-- Reduces an operand that is in the range of the opcode. -/
def reduce (op : Opcode) (x : Operand) : EmitM PendingArgument :=
  match op.operandType, x with
  | .none, .none => pure (.ready .none)
  | .shortInt, .int value => pure (.ready (.int value))
  | .int, .int value => pure (.ready (.int value))
  | .long, .long value => pure (.ready (.long value))
  | .float, .float bits => pure (.ready (.float bits))
  | .double, .double bits => pure (.ready (.double bits))
  | .string, .string text => token (·.internString text)
  | .field, .field f => token (·.importField f)
  | .method, .method m => token (·.importMethod m)
  | .method, .constructor c => token (·.importConstructor c)
  | .type, .type t => token (·.importType t)
  | .shortArgument, .int index => known (·.argument index)
  | .argument, .int index => known (·.argument index)
  | .shortSlot, .int index => known (·.slotAt index)
  | .slot, .int index => known (·.slotAt index)
  | .shortSlot, .slot s => known (·.slotOf s)
  | .slot, .slot s => known (·.slotOf s)
  | .shortBranch, .label l => branch l
  | .branch, .label l => branch l
  | _, _ => throw (.unsupportedOperand op x.kind)

/-- Checks an operand against the opcode and reduces it. -/
def resolve (op : Opcode) (x : Operand) : EmitM PendingArgument :=
  match overflow? op x with
  | some value => throw (.shortFormOutOfRange op value)
  | none => reduce op x

/-! ### Operations -/

/-- Applies a step that only concerns the emitter. -/
def onEmitter {α : Type} (f : Emitter → α × Emitter) : EmitM α := fun s =>
  let (a, e) := f s.emitter
  .ok a { s with emitter := e }

/-- Appends one instruction. -/
def emit (op : Opcode) (x : Operand) : EmitM Unit := do
  let argument ← resolve op x
  onEmitter fun e => ((), e.append ⟨op, argument⟩)

/-- The most local slots that a method can have. -/
def maxLocals : Nat := 65536

/-- Defines a local slot. -/
def defineLocal (type : TypeRef) : EmitM Slot := fun s =>
  let index := s.emitter.locals.size
  if index < maxLocals then
    .ok ⟨index.toUInt16, type⟩
      { module := (s.module.importType type).2
        emitter := { s.emitter with locals := s.emitter.locals.push type } }
  else .error (.invalidDefinition (.tooManyLocals s.emitter.method)) s

/-- Defines a label. -/
def defineLabel : EmitM Label :=
  onEmitter fun e =>
    let (l, labels) := e.labels.define
    (l, { e with labels })

/-- Marks a label: the next instruction will be its target. -/
def markLabel (l : Label) : EmitM Unit := fun s =>
  if s.emitter.labels.knows l then
    .ok () { s with emitter := { s.emitter with labels := s.emitter.labels.stage l } }
  else .error (.unknownLabel l) s

/-- Runs a step a number of times, up to its first failure. -/
def repeated (step : EmitM Unit) : Nat → EmitM Unit
  | 0 => pure ()
  | n + 1 => do
    step
    repeated step n

/-- Defines a number of local slots of one type and returns the last, and why the number was not
reached, if it was not. -/
def defineLocals (type : TypeRef) : Nat → Option Slot → EmitM (Option Slot × Option EmitError)
  | 0, last => pure (last, none)
  | n + 1, last => fun s =>
    match defineLocal type s with
    | .ok slot s => defineLocals type n (some slot) s
    | .error e s => .ok (last, some e) s

/-- The number of instructions so far. -/
def count : EmitM Nat := fun s => .ok s.emitter.count s

end Emission

/-! ### Failure changes nothing -/

namespace Emission

theorem total_token (f : Module → Token × Module) : Total (token f) := fun _ _ _ h => by cases h

theorem total_onEmitter {α : Type} (f : Emitter → α × Emitter) : Total (onEmitter f) :=
  fun _ _ _ h => by cases h

theorem atomic_known (f : Emitter → Except EmitError Argument) : Atomic (known f) := by
  intro s e s' h
  unfold known at h
  split at h
  · cases h
  · injection h with _ hs
    exact hs.symm

theorem atomic_branch (l : Label) : Atomic (branch l) := by
  intro s e s' h
  unfold branch at h
  split at h
  · cases h
  · injection h with _ hs
    exact hs.symm

theorem atomic_reduce (op : Opcode) (x : Operand) : Atomic (reduce op x) := by
  unfold reduce
  split
  all_goals first
    | exact atomic_pure _
    | exact (total_token _).atomic
    | exact atomic_known _
    | exact atomic_branch _
    | exact atomic_throw _

theorem atomic_resolve (op : Opcode) (x : Operand) : Atomic (resolve op x) := by
  unfold resolve
  split
  · exact atomic_throw _
  · exact atomic_reduce op x

/-- A refused instruction leaves emitter and module as they were. -/
theorem atomic_emit (op : Opcode) (x : Operand) : Atomic (emit op x) :=
  (atomic_resolve op x).bind_total fun _ => total_onEmitter _

theorem atomic_defineLocal (type : TypeRef) : Atomic (defineLocal type) := by
  intro s e s' h
  unfold defineLocal at h
  dsimp only at h
  split at h
  · cases h
  · injection h with _ hs
    exact hs.symm

theorem atomic_markLabel (l : Label) : Atomic (markLabel l) := by
  intro s e s' h
  unfold markLabel at h
  split at h
  · cases h
  · injection h with _ hs
    exact hs.symm

end Emission

/-! ### Debug captures -/

namespace Emitter

/-- Begins a capture, unless the latest one began at the same instruction. -/
def beginCapture (e : Emitter) (document : Document) (position : Position) :
    Option Nat × Emitter :=
  let start := e.count
  if e.lastStart = some start then (none, e)
  else
    let id := e.nextCapture
    (some id,
      { e with
        openCaptures := e.openCaptures ++ [⟨id, document, position, start⟩]
        lastStart := some start
        nextCapture := id + 1 })

/-- Records the point of a capture that has come to its end. -/
def record (e : Emitter) (c : OpenCapture) : Emitter :=
  if e.count ≤ c.start then e
  else { e with debug := e.debug.addPoint (.ofPosition c.start c.document c.position) }

/-- Ends a capture. An id that no open capture has is of no effect. -/
def endCapture (e : Emitter) (id : Nat) : Emitter :=
  match e.openCaptures.find? (·.id == id) with
  | none => e
  | some c => record { e with openCaptures := e.openCaptures.eraseP (·.id == id) } c

/-- Ends all captures, the latest first. -/
def endAllCaptures (e : Emitter) : Emitter :=
  e.openCaptures.foldr (fun c e => e.record c) { e with openCaptures := [] }

end Emitter

namespace Emission

/-- Begins a capture. The file's document is looked up or made in any case. -/
def beginCapture (s : Emission) (file : SourceFile) (position : Position) :
    Option Nat × Emission :=
  let (document, m) := s.module.document file
  let (id, e) := s.emitter.beginCapture document position
  (id, ⟨m, e⟩)

/-- Ends a capture, if one was begun. -/
def endCapture (s : Emission) (id : Option Nat) : Emission :=
  match id with
  | some id => { s with emitter := s.emitter.endCapture id }
  | none => s

end Emission

end MarkupLowering
