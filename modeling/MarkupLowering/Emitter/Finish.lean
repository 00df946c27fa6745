import MarkupLowering.Emitter.Basic

/-!
# MarkupLowering.Emitter.Finish

**Finishing a method body**: byte offsets are computed, branches are resolved, and the body is
given to its method.

Sizes do not depend on where branches go, so one pass computes all offsets. A second pass
resolves the branches in order; the first one that cannot be resolved decides the error.
-/

namespace MarkupLowering

namespace Emitter

/-- The offsets of a list of instructions, the first of which stands at `start`. -/
def offsetsFrom (start : Nat) : List PendingInstruction → List Nat
  | [] => []
  | i :: is => start :: offsetsFrom (start + i.opcode.encodedSize) is

/-- The bytes of a list of instructions. -/
def codeSize : List PendingInstruction → Nat
  | [] => 0
  | i :: is => i.opcode.encodedSize + codeSize is

@[simp] theorem length_offsetsFrom (start : Nat) (is : List PendingInstruction) :
    (offsetsFrom start is).length = is.length := by
  induction is generalizing start with
  | nil => rfl
  | cons i is ih => simp [offsetsFrom, ih]

@[simp] theorem codeSize_nil : codeSize [] = 0 := rfl

@[simp] theorem codeSize_cons (i : PendingInstruction) (is : List PendingInstruction) :
    codeSize (i :: is) = i.opcode.encodedSize + codeSize is := rfl

/-- The distance from the end of the instruction at `offset` to a target. -/
def displacement (op : Opcode) (offset target : Nat) : Int :=
  (target : Int) - ((offset : Int) + op.encodedSize)

/-- Resolves the branch at `index`, which stands at `offset`. -/
def resolveBranch (labels : LabelTable) (offsets : Array Nat) (index offset : Nat) (op : Opcode)
    (l : Label) : Except EmitError Argument :=
  match labels.resolve l with
  | none => .error (.unresolvedLabel l index)
  | some target =>
    let distance := displacement op offset (offsets.getD target 0)
    if op.operandType.fitsShort distance then .ok (.target target)
    else .error (.shortFormOutOfRange op distance)

/-- The finished operand of the instruction at `index`. -/
def finishArgument (labels : LabelTable) (offsets : Array Nat) (index offset : Nat)
    (i : PendingInstruction) : Except EmitError Argument :=
  match i.argument with
  | .ready a => .ok a
  | .branch l => resolveBranch labels offsets index offset i.opcode l

/-- Finishes a list of instructions, the first of which has number `index` and stands at
`offset`, onto the instructions finished before. -/
def finishFrom (labels : LabelTable) (offsets : Array Nat) (index offset : Nat)
    (done : Array Instruction) : List PendingInstruction → Except EmitError (Array Instruction)
  | [] => .ok done
  | i :: is =>
    match finishArgument labels offsets index offset i with
    | .error e => .error e
    | .ok argument =>
      finishFrom labels offsets (index + 1) (offset + i.opcode.encodedSize)
        (done.push ⟨offset, i.opcode, argument⟩) is

/-- The finished body. Labels marked after the last instruction have no target, and captures
still open end here. -/
def finishedBody (e : Emitter) : Except EmitError Body :=
  let e := endAllCaptures { e with labels := e.labels.unbindStaged }
  let pending := e.instructions.toList
  match finishFrom e.labels (offsetsFrom 0 pending).toArray 0 0 #[] pending with
  | .error err => .error err
  | .ok instructions =>
    .ok { instructions, locals := e.locals, codeSize := codeSize pending, debug := e.debug.sorted }

/-- Finishes the body and gives it to the method, which must not have one yet. -/
def finish (e : Emitter) : EStateM EmitError Module Unit := fun m =>
  match e.finishedBody with
  | .error err => .error err m
  | .ok body =>
    if (m.methods[e.row]?.bind MethodRow.body).isSome then
      .error (.bodyAlreadyFinalized e.method) m
    else .ok () (m.setBody e.row body)

end Emitter

end MarkupLowering
