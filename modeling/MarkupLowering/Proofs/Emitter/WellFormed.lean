import MarkupLowering.Proofs.Emitter.Outcome
import MarkupLowering.Proofs.Import.Tables

/-!
# MarkupLowering.Proofs.Emitter.WellFormed

**Finished bodies can be encoded**, whatever was asked of their emitter.

What makes a body well formed (`Body.WellFormed`) is established at different times and has to
last until the body is installed: operands get their kind and range when they are emitted
(`Typed`, `Encodes`), slots are checked against a table that grows, and branches are resolved and
measured at the end. `finish_wellFormed` puts it together.
-/

namespace MarkupLowering

/-! ### Operands of the right kind -/

/-- Whether an operand is of the kind that an operand type declares. -/
def OperandType.admits : OperandType → Argument → Bool
  | .none, .none => true
  | .shortInt, .int _ | .int, .int _ => true
  | .long, .long _ => true
  | .float, .float _ => true
  | .double, .double _ => true
  | .string, .token (.string _) => true
  | .field, .token (.fieldDef _) | .field, .token (.memberRef _) => true
  | .method, .token (.methodDef _) | .method, .token (.memberRef _) => true
  | .type, .token (.typeDef _) | .type, .token (.typeRef _) | .type, .token (.typeSpec _) => true
  | .shortSlot, .slot _ | .slot, .slot _ => true
  | .shortArgument, .this | .argument, .this => true
  | .shortArgument, .param _ | .argument, .param _ => true
  | .shortBranch, .target _ | .branch, .target _ => true
  | _, _ => false

namespace OperandType

theorem isBranch_of_admits {t : OperandType} {n : Nat} (h : t.admits (.target n) = true) :
    t.isBranch = true := by
  cases t <;> first | rfl | cases h

theorem admits_target {t : OperandType} (h : t.isBranch = true) (n : Nat) :
    t.admits (.target n) = true := by
  cases t <;> first | rfl | cases h

theorem admits_slot {t : OperandType} (h : t.isSlot = true) (n : UInt16) :
    t.admits (.slot n) = true := by
  cases t <;> first | rfl | cases h

theorem admits_argument {t : OperandType} (h : t.isArgument = true) {a : Argument}
    (ha : a = .this ∨ ∃ n, a = .param n) : t.admits a = true := by
  obtain rfl | ⟨n, rfl⟩ := ha <;> cases t <;> first | rfl | cases h

end OperandType

/-- The operand type that the token of an import is for. -/
def Import.operandType : Import → OperandType
  | .type _ => .type
  | .field _ => .field
  | .method _ | .constructor _ => .method
  | .string _ => .string

/-- The token of an import is an operand of the right kind. -/
theorem Import.operandType_admits (unit : Nat) (i : Import) {t : ImportTables} (ht : t.Keyed) :
    i.operandType.admits (.token (i.perform unit t).1) = true := by
  have h := i.admits_perform unit ht
  generalize (i.perform unit t).1 = token at h ⊢
  cases i <;> cases token <;> first | rfl | cases h

/-- What an operand is reduced to is of the kind that the opcode declares. -/
theorem admits_of_reduces {m : Module} {e : Emitter} {t : OperandType} {x : Operand}
    {a : Argument} (hm : m.imports.Keyed) (h : Emission.Reduces m e t x (.ready a)) :
    t.admits a = true := by
  cases h with
  | string text => exact Import.operandType_admits m.id (.string text) hm
  | field f => exact Import.operandType_admits m.id (.field f) hm
  | method r => exact Import.operandType_admits m.id (.method r) hm
  | constructor c => exact Import.operandType_admits m.id (.constructor c) hm
  | type t => exact Import.operandType_admits m.id (.type t) hm
  | argument hta ha => exact OperandType.admits_argument hta (Emitter.argument_inv ha)
  | slotAt hts ha =>
    obtain ⟨n, -, -, rfl⟩ := Emitter.slotAt_inv ha
    exact OperandType.admits_slot hts _
  | slotOf hts ha =>
    obtain ⟨rfl, -⟩ := Emitter.slotOf_inv ha
    exact OperandType.admits_slot hts _
  | _ => rfl

/-- Every operand that is ready is of the kind that its opcode declares. -/
def Emitter.Typed (e : Emitter) : Prop :=
  ∀ (k : Nat) (i : PendingInstruction) (a : Argument),
    e.instructions[k]? = some i → i.argument = .ready a → i.opcode.operandType.admits a = true

theorem Emitter.Typed.step {r : Request} {s s' : Emission} (h : s.emitter.Typed)
    (hm : s.module.imports.Keyed) (hr : r.perform s = .ok () s') : s'.emitter.Typed := by
  intro k i a hi ha
  rcases Request.perform_code hr with ⟨op, x, p, -, -, hred, hs⟩ | ⟨-, hs⟩
  · rw [hs, Emitter.append, Array.getElem?_push] at hi
    split at hi
    · cases hi
      subst ha
      exact admits_of_reduces hm hred
    · exact h k i a hi ha
  · rw [hs] at hi
    exact h k i a hi ha

theorem Emitter.Typed.of_run {e₀ e : Emitter} {log : List Request} (h₀ : e₀.Fresh)
    (h : Run (fun m => m.imports.Reached) e₀ log e) : e.Typed := by
  refine Run.induct (P := fun _ e => e.Typed) ?_ ?_ h
  · intro k i a hi
    rw [h₀.instructions] at hi
    simp at hi
  · exact fun ht hm hr => ht.step hm.keyed hr

/-! ### Well-formed bodies -/

/-- The distance that the branch at one instruction has to another. -/
def Instruction.distance (i target : Instruction) : Int :=
  Emitter.displacement i.opcode i.offset target.offset

/-- A body that can be encoded. -/
structure Body.WellFormed (b : Body) : Prop where
  /-- Instructions follow each other without gaps. -/
  first : ∀ i, b.instructions[0]? = some i → i.offset = 0
  next : ∀ k i j, b.instructions[k]? = some i → b.instructions[k + 1]? = some j →
    j.offset = i.offset + i.opcode.encodedSize
  codeSize : b.codeSize = Opcode.totalSize (b.instructions.toList.map (·.opcode))
  /-- Operands are of the kind that the opcode declares. -/
  kind : ∀ (k : Nat) (i : Instruction), b.instructions[k]? = some i →
    i.opcode.operandType.admits i.argument = true
  /-- Targets are instructions of the body. -/
  target : ∀ (k : Nat) (i : Instruction) (t : Nat), b.instructions[k]? = some i →
    i.argument = .target t → t < b.size
  /-- Branches, and nothing else, have a target. -/
  targetOffset : ∀ (k : Nat) (i : Instruction), b.instructions[k]? = some i →
    ((b.targetOffset? k).isSome = true ↔ i.opcode.operandType.isBranch = true)
  locals : b.locals.size ≤ 65536
  slot : ∀ (k : Nat) (i : Instruction) (n : UInt16), b.instructions[k]? = some i →
    i.argument = .slot n → n.toNat < b.locals.size
  /-- Short operands fit one byte. -/
  shortInt : ∀ (k : Nat) (i : Instruction) (v : Int32), b.instructions[k]? = some i →
    i.opcode.operandType = .shortInt → i.argument = .int v → -128 ≤ v.toInt ∧ v.toInt ≤ 127
  shortSlot : ∀ (k : Nat) (i : Instruction) (n : UInt16), b.instructions[k]? = some i →
    i.opcode.operandType = .shortSlot → i.argument = .slot n → n.toNat ≤ 255
  shortBranch : ∀ (k : Nat) (i j : Instruction) (t : Nat), b.instructions[k]? = some i →
    i.opcode.operandType = .shortBranch → i.argument = .target t → b.instructions[t]? = some j →
    -128 ≤ i.distance j ∧ i.distance j ≤ 127
  /-- Long branches fit four bytes. -/
  branch : ∀ (k : Nat) (i j : Instruction) (t : Nat), b.instructions[k]? = some i →
    i.argument = .target t → b.instructions[t]? = some j →
    -0x80000000 ≤ i.distance j ∧ i.distance j < 0x80000000

/-- The number of a short operand is in range: it was checked as it was asked for. -/
theorem Encodes.fits {slots : Nat} {op : Opcode} {x : Operand} {i : PendingInstruction} {n : Int}
    (h : Encodes slots (op, x) i) (hn : i.argument.number? = some n) :
    op.operandType.fitsShort n = true := by
  have hrange := h.range
  simp only [Emission.overflow?, h.number n hn, Option.filter_some] at hrange
  split at hrange
  · cases hrange
  · rename_i hfit
    simpa using hfit

theorem offsetIn_mono (log : List Request) {k k' : Nat} (h : k ≤ k') :
    offsetIn log k ≤ offsetIn log k' := by
  induction h with
  | refl => exact Nat.le_refl _
  | @step k' _ ih =>
    exact Nat.le_trans ih (offsetIn_le_succ log k')

theorem offsetIn_le (log : List Request) (k : Nat) :
    offsetIn log k ≤ offsetIn log (emitted log).length := by
  by_cases hk : k ≤ (emitted log).length
  · exact offsetIn_mono log hk
  · refine Nat.le_of_eq ?_
    rw [offsetIn, offsetIn, List.take_of_length_le (by omega), List.take_length]

/-- An instruction of a finished body, told from the history. -/
inductive Finished (log : List Request) (slots k : Nat) : Instruction → Prop
  /-- A branch to where its label resolves, in range. -/
  | branch {op : Opcode} {l : Label} {t : Nat} : op.operandType.isBranch = true →
      (emitted log)[k]? = some (op, .label l) → ResolvesTo log l t →
      op.operandType.fitsShort ((offsetIn log t : Int) - offsetIn log (k + 1)) = true →
      Finished log slots k ⟨offsetIn log k, op, .target t⟩
  /-- Any other instruction, with an operand that stands for the one that was asked for. -/
  | plain {op : Opcode} {x : Operand} {a : Argument} : op.operandType.isBranch = false →
      (emitted log)[k]? = some (op, x) → op.operandType.admits a = true →
      Encodes slots (op, x) ⟨op, .ready a⟩ → Finished log slots k ⟨offsetIn log k, op, a⟩

namespace Finished

variable {log : List Request} {slots k : Nat} {instr : Instruction}

/-- Each instruction of a finished body was asked for, at its place in the history. -/
theorem of_finishedBody {e : Emitter} {body : Body} (hw : Written log e) (ht : Tracks log e)
    (hty : e.Typed) (h : e.finishedBody = .ok body) (hk : body.instructions[k]? = some instr) :
    Finished log e.locals.size k instr := by
  obtain ⟨x, i, hp, hi, henc, hoffset, ha⟩ := Emitter.finishedBody_getElem? hw h hk
  obtain ⟨offset, op, a⟩ := instr
  obtain ⟨iop, p⟩ := i
  obtain rfl : iop = op := henc.opcode
  obtain rfl : offset = offsetIn log k := hoffset
  rcases Emitter.finishedAt_ok hw ht hp ha with hready | ⟨l, t, hl, hr, htarget, hfit⟩
  · obtain rfl : p = .ready a := hready
    refine .plain ?_ hp (hty k _ a hi rfl) henc
    cases hb : iop.operandType.isBranch with
    | false => rfl
    | true =>
      -- a branch would have kept its label
      obtain ⟨l, hx⟩ := henc.isBranch.mpr hb
      cases (henc.label l).mpr hx
  · obtain rfl : p = .branch l := hl
    obtain rfl : a = .target t := htarget
    obtain rfl : x = .label l := (henc.label l).mp rfl
    exact .branch (henc.isBranch.mp ⟨l, rfl⟩) hp hr hfit

theorem offset (h : Finished log slots k instr) : instr.offset = offsetIn log k := by
  cases h <;> rfl

/-- The operand that was asked for. -/
theorem asked (h : Finished log slots k instr) :
    ∃ x, (emitted log)[k]? = some (instr.opcode, x) := by
  cases h with
  | branch _ hp _ _ => exact ⟨_, hp⟩
  | plain _ hp _ _ => exact ⟨_, hp⟩

theorem next (h : Finished log slots k instr) :
    offsetIn log (k + 1) = instr.offset + instr.opcode.encodedSize := by
  obtain ⟨x, hp⟩ := h.asked
  rw [offsetIn_succ hp, h.offset]

theorem admits (h : Finished log slots k instr) :
    instr.opcode.operandType.admits instr.argument = true := by
  cases h with
  | branch hb _ _ _ => exact OperandType.admits_target hb _
  | plain _ _ ha _ => exact ha

theorem target_inv {t : Nat} (h : Finished log slots k instr) (ha : instr.argument = .target t) :
    instr.opcode.operandType.isBranch = true ∧ t < (emitted log).length ∧
      instr.opcode.operandType.fitsShort
        ((offsetIn log t : Int) - offsetIn log (k + 1)) = true := by
  cases h with
  | branch hb hp hl hfit =>
    cases ha
    exact ⟨hb, hl.lt, hfit⟩
  | plain hb hp hadm _ =>
    obtain rfl := ha
    rw [OperandType.isBranch_of_admits hadm] at hb
    cases hb

theorem slot_inv {n : UInt16} (h : Finished log slots k instr) (ha : instr.argument = .slot n) :
    n.toNat < slots ∧ instr.opcode.operandType.fitsShort n.toNat = true ∧
      ∃ x, (emitted log)[k]? = some (instr.opcode, x) ∧ x.shortValue? = some (n.toNat : Int) := by
  cases h with
  | branch _ _ _ _ => cases ha
  | @plain op x a _ hp _ henc =>
    obtain rfl : a = .slot n := ha
    exact ⟨henc.slot n rfl, henc.fits rfl, x, hp, henc.number _ rfl⟩

theorem int_inv {v : Int32} (h : Finished log slots k instr) (ha : instr.argument = .int v) :
    instr.opcode.operandType.fitsShort v.toInt = true := by
  cases h with
  | branch _ _ _ _ => cases ha
  | @plain op x a _ _ _ henc =>
    obtain rfl : a = .int v := ha
    exact henc.fits rfl

end Finished

/-! ### From the history to the body -/

/-- A body that was finished after a history. -/
structure Body.Records (b : Body) (log : List Request) : Prop where
  size : b.size = (emitted log).length
  opcodes : b.instructions.toList.map (·.opcode) = (emitted log).map Prod.fst
  codeSize : b.codeSize = offsetIn log (emitted log).length
  locals : b.locals.size ≤ Emission.maxLocals
  instruction : ∀ (k : Nat) (i : Instruction), b.instructions[k]? = some i →
    Finished log b.locals.size k i

namespace Body.Records

variable {b : Body} {log : List Request}

theorem of_finishedBody {e : Emitter} (hw : Written log e) (ht : Tracks log e) (hty : e.Typed)
    (h : e.finishedBody = .ok b) : b.Records log := by
  obtain ⟨hlocals, hcode, hsize, -⟩ := Emitter.finishedBody_inv hw h
  have hopcodes := Emitter.finishedBody_opcodes hw h
  refine ⟨hsize, hopcodes, hcode, by rw [hlocals]; exact hw.slots, fun k i hi => ?_⟩
  rw [hlocals]
  exact .of_finishedBody hw ht hty h hi

theorem codeSize_eq_totalSize (h : b.Records log) :
    b.codeSize = Opcode.totalSize (b.instructions.toList.map (·.opcode)) := by
  rw [h.codeSize, h.opcodes, offsetIn, List.take_length]

/-- Branches have a target, and nothing else has one. -/
theorem targetOffset?_isSome (h : b.Records log) {k : Nat} {i : Instruction}
    (hk : b.instructions[k]? = some i) :
    (b.targetOffset? k).isSome = true ↔ i.opcode.operandType.isBranch = true := by
  rw [Body.targetOffset?, hk]
  cases h.instruction k i hk with
  | branch hb _ hl _ =>
    have hlt := hl.lt
    rw [← h.size] at hlt
    refine ⟨fun _ => hb, fun _ => ?_⟩
    simp only [Option.bind_eq_bind, Option.bind_some, Option.isSome_map]
    rw [Array.getElem?_eq_getElem hlt]
    rfl
  | @plain op x a hb hp hadm henc =>
    have hnone : ∀ t, a ≠ .target t := by
      rintro t rfl
      rw [OperandType.isBranch_of_admits hadm] at hb
      cases hb
    simp [hb]

/-- The distance of a branch, told from the history. -/
theorem distance (h : b.Records log) {k t : Nat} {i j : Instruction}
    (hk : b.instructions[k]? = some i) (ht : b.instructions[t]? = some j) :
    i.distance j = (offsetIn log t : Int) - offsetIn log (k + 1) := by
  rw [Instruction.distance, Emitter.displacement, (h.instruction t j ht).offset,
    (h.instruction k i hk).next]
  omega

/-- A body of less than two gigabytes that was finished after some history is well formed. -/
theorem wellFormed (h : b.Records log) (hbound : b.codeSize < 0x80000000) : b.WellFormed where
  first i hi := by
    rw [(h.instruction 0 i hi).offset]
    rfl
  next k i j hi hj := by
    rw [(h.instruction (k + 1) j hj).offset, (h.instruction k i hi).next]
  codeSize := h.codeSize_eq_totalSize
  kind k i hi := (h.instruction k i hi).admits
  target k i t hi ht := by
    rw [h.size]
    exact ((h.instruction k i hi).target_inv ht).2.1
  targetOffset k i hi := h.targetOffset?_isSome hi
  locals := h.locals
  slot k i n hi hn := ((h.instruction k i hi).slot_inv hn).1
  shortInt k i v hi hop hv := by
    have hfit := (h.instruction k i hi).int_inv hv
    simpa [hop, OperandType.fitsShort] using hfit
  shortSlot k i n hi hop hn := by
    have hfit := ((h.instruction k i hi).slot_inv hn).2.1
    have hle : (n.toNat : Int) ≤ 255 := by simpa [hop, OperandType.fitsShort] using hfit
    omega
  shortBranch k i j t hi hop ht hj := by
    have hfit := ((h.instruction k i hi).target_inv ht).2.2
    rw [h.distance hi hj]
    simpa [hop, OperandType.fitsShort] using hfit
  branch k i j t hi _ hj := by
    -- both ends lie within the body, so the distance is at most its size
    have hleft := offsetIn_le log t
    have hright := offsetIn_le log (k + 1)
    rw [← h.codeSize] at hleft hright
    rw [h.distance hi hj]
    omega

end Body.Records

/-! ### The main statement -/

/-- Every body that is installed is well formed. It holds the opcodes that were granted, in
order, and its slots are those that were asked for. -/
theorem finish_wellFormed {m m' m'' : Module} {owner : BodyOwner} {e₀ e : Emitter}
    {log : List Request} (hnew : m.emitter owner = .ok e₀)
    (hrun : Run (fun m => m.imports.Reached) e₀ log e)
    (hsize : offsetIn log (emitted log).length < 0x80000000)
    (hlater : m.Leads m') (hfinish : e.finish m' = .ok () m'') :
    ∃ body, m''.bodyAt e₀.row = some body ∧ body.WellFormed ∧
      body.instructions.toList.map (·.opcode) = (emitted log).map Prod.fst ∧
      ∀ (k : Nat) (i : Instruction) (n : UInt16), body.instructions[k]? = some i →
        i.argument = .slot n →
        ∃ x, (emitted log)[k]? = some (i.opcode, x) ∧ x.shortValue? = some (n.toNat : Int) := by
  obtain ⟨hfresh, -, row, hrow, -⟩ := Module.emitter_inv hnew
  obtain ⟨body, hbody, hm''⟩ := Emitter.finish_inv hfinish
  have hrec := Body.Records.of_finishedBody (.of_run hfresh hrun) (.of_run hfresh hrun)
    (.of_run hfresh hrun) hbody
  refine ⟨body, ?_, hrec.wellFormed (by rw [hrec.codeSize]; exact hsize), hrec.opcodes, ?_⟩
  · have hlt := (Array.getElem?_eq_some_iff.mp hrow).1
    rw [hm'', hrun.owner.1]
    exact Module.bodyAt_setBody (Nat.lt_of_lt_of_le hlt hlater.methods_le) body
  · exact fun k i n hi hn => ((hrec.instruction k i hi).slot_inv hn).2.2

/-- A backward branch over a load from a slot. -/
def shortLoop : List Request :=
  [.defineLocal default, .defineLabel, .markLabel ⟨0⟩, .emit .ldlocS (.int 0),
    .emit .brfalseS (.label ⟨0⟩)]

theorem run_shortLoop :
    ∃ e, Run (fun m => m.imports.Reached) onlyEmitter shortLoop e ∧
      ∃ m, e.finish oneMethod = .ok () m := by
  have hm : oneMethod.imports.Reached := .empty
  refine ⟨_, .granted (m := oneMethod) (.granted (m := oneMethod) (.granted (m := oneMethod)
    (.granted (m := oneMethod) (.granted (m := oneMethod) .start hm rfl) hm rfl) hm rfl) hm rfl)
    hm rfl, ?_⟩
  exact ⟨_, rfl⟩

theorem finish_wellFormed_shortLoop :
    ∃ e m body, Run (fun m => m.imports.Reached) onlyEmitter shortLoop e ∧
      e.finish oneMethod = .ok () m ∧ m.bodyAt 0 = some body ∧ body.WellFormed := by
  obtain ⟨e, hrun, m, hfinish⟩ := run_shortLoop
  obtain ⟨body, hbody, hwell, -, -⟩ :=
    finish_wellFormed emitter_oneMethod hrun (by decide) .refl hfinish
  exact ⟨e, m, body, hrun, hfinish, hbody, hwell⟩

end MarkupLowering
