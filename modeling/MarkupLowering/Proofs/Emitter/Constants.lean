import MarkupLowering.Emitter.Instructions
import MarkupLowering.Proofs.Emitter.Requests

/-!
# MarkupLowering.Proofs.Emitter.Constants

**Integer constants** are loaded exactly, by the shortest instruction that there is.

Three kinds of instruction load an integer: opcodes that stand for a number, the short form, whose
immediate is one signed byte, and the long form (`loads?`). A request for a number chooses among
them by tests of its own (`EncodedAs`), and the emitter then tests the range of the short form once
more; `emit_of_encodedAs` says that the two agree on every number, so that no request is refused.
-/

namespace MarkupLowering

open Emission

/-! ### Instructions that load integers -/

/-- The number that an opcode stands for. -/
def Opcode.constant? : Opcode → Option Int32
  | .ldcI4M1 => some (-1)
  | .ldcI4n0 => some 0
  | .ldcI4n1 => some 1
  | .ldcI4n2 => some 2
  | .ldcI4n3 => some 3
  | .ldcI4n4 => some 4
  | .ldcI4n5 => some 5
  | .ldcI4n6 => some 6
  | .ldcI4n7 => some 7
  | .ldcI4n8 => some 8
  | _ => none

/-- The number that an instruction loads, if it loads an integer. The immediate of the short form
is one byte, which is extended with its sign. -/
def PendingInstruction.loads? (i : PendingInstruction) : Option Int32 :=
  match i.opcode, i.argument with
  | .ldcI4S, .ready (.int value) => some value.toInt8.toInt32
  | .ldcI4, .ready (.int value) => some value
  | op, .ready .none => op.constant?
  | _, _ => none

namespace Opcode

variable {op : Opcode} {value : Int32}

/-- Opcodes that stand for a number have no operand. -/
theorem operandType_of_constant? (h : op.constant? = some value) : op.operandType = .none := by
  cases op <;> first | rfl | cases h

theorem encodedSize_of_constant? (h : op.constant? = some value) : op.encodedSize = 1 := by
  cases op <;> first | rfl | cases h

/-- The opcode that is chosen for a small number stands for it, and no other does. -/
theorem smallConstant?_eq_some_iff :
    smallConstant? value = some op ↔ op.constant? = some value := by
  constructor
  · intro h
    have hvalue := Int32.ofInt_toInt value
    unfold smallConstant? at h
    split at h
    case h_11 => cases h
    all_goals
      rename_i hint
      rw [hint] at hvalue
      cases h
      rw [← hvalue]
      rfl
  · intro h
    cases op <;> first | cases h; rfl | cases h

end Opcode

/-! ### Requests for numbers -/

/-- The opcode and the operand that a number is loaded with. -/
inductive EncodedAs (value : Int32) : Opcode → Operand → Prop
  | opcode {op : Opcode} : op.constant? = some value → EncodedAs value op .none
  | short : (∀ op : Opcode, op.constant? ≠ some value) →
      -128 ≤ value.toInt ∧ value.toInt ≤ 127 → EncodedAs value .ldcI4S (.int value)
  | long : (∀ op : Opcode, op.constant? ≠ some value) →
      ¬ (-128 ≤ value.toInt ∧ value.toInt ≤ 127) → EncodedAs value .ldcI4 (.int value)

theorem encodedAs_constantEncoding (value : Int32) :
    EncodedAs value (constantEncoding value).1 (constantEncoding value).2 := by
  unfold constantEncoding
  cases hsmall : smallConstant? value with
  | some op => exact .opcode (Opcode.smallConstant?_eq_some_iff.mp hsmall)
  | none =>
    have hnone (op : Opcode) : op.constant? ≠ some value := by
      rw [ne_eq, ← Opcode.smallConstant?_eq_some_iff, hsmall]
      exact nofun
    dsimp only
    split
    · exact .short hnone ‹_›
    · exact .long hnone ‹_›

/-! ### Every request is granted -/

/-- An operand that is in range and needs no look-up is written as it is. -/
theorem emit_of_reduce {op : Opcode} {x : Operand} {a : Argument} (hrange : overflow? op x = none)
    (h : reduce op x = pure (.ready a)) (s : Emission) :
    emit op x s = .ok () { s with emitter := s.emitter.append ⟨op, .ready a⟩ } := by
  unfold emit resolve
  rw [hrange]
  dsimp only
  rw [h]
  rfl

/-- One signed byte keeps the numbers of its range. -/
theorem toInt32_toInt8 {value : Int32} (h : -128 ≤ value.toInt ∧ value.toInt ≤ 127) :
    value.toInt8.toInt32 = value := by
  rw [← Int32.toInt_inj, Int8.toInt_toInt32, Int32.toInt_toInt8]
  exact Int.bmod_eq_of_le (by omega) (by omega)

/-- Numbers are not refused, and the instruction that is appended loads the number asked for. -/
theorem emit_of_encodedAs {value : Int32} {op : Opcode} {x : Operand} (h : EncodedAs value op x) :
    ∃ a : Argument, PendingInstruction.loads? ⟨op, .ready a⟩ = some value ∧
      ∀ s, emit op x s = .ok () { s with emitter := s.emitter.append ⟨op, .ready a⟩ } := by
  cases h with
  | opcode hop =>
    refine ⟨.none, ?_, emit_of_reduce rfl ?_⟩
    · rw [← hop]
      cases op <;> rfl
    · unfold reduce
      rw [Opcode.operandType_of_constant? hop]
  | short _ hrange =>
    have hfits : OperandType.shortInt.fitsShort value.toInt = true := by
      simpa [OperandType.fitsShort] using hrange
    refine ⟨.int value, congrArg some (toInt32_toInt8 hrange), emit_of_reduce ?_ rfl⟩
    simp [overflow?, Operand.shortValue?, Opcode.operandType, Option.filter, hfits]
  | long => exact ⟨.int value, rfl, emit_of_reduce rfl rfl⟩

/-! ### Nothing shorter loads the same number -/

/-- The instruction is of one of the three kinds, and a short form loads no number that its byte
cannot hold. -/
theorem PendingInstruction.loads?_inv {i : PendingInstruction} {value : Int32}
    (h : i.loads? = some value) :
    i.opcode.constant? = some value ∨
      i.opcode = .ldcI4S ∧ (-128 ≤ value.toInt ∧ value.toInt ≤ 127) ∨ i.opcode = .ldcI4 := by
  obtain ⟨op, a⟩ := i
  unfold loads? at h
  split at h
  · rename_i v hop _
    obtain rfl := Option.some.inj h
    have hlow := Int8.le_toInt v.toInt8
    have hhigh := Int8.toInt_lt v.toInt8
    rw [Int8.toInt_toInt32]
    exact Or.inr (Or.inl ⟨hop, by omega, by omega⟩)
  · exact Or.inr (Or.inr ‹_›)
  · exact Or.inl h
  · cases h

/-- Whatever loads the value is no shorter: where it has an opcode of its own, that is one byte, and
otherwise the competitor is of the same form or a longer one. -/
theorem encodedSize_le {value : Int32} {op : Opcode} {x : Operand} (h : EncodedAs value op x)
    {i : PendingInstruction} (hi : i.loads? = some value) :
    op.encodedSize ≤ i.opcode.encodedSize := by
  cases h with
  | opcode hop =>
    rw [Opcode.encodedSize_of_constant? hop]
    exact i.opcode.encodedSize_pos
  | short hnone _ =>
    rcases PendingInstruction.loads?_inv hi with hop | ⟨hop, -⟩ | hop
    · exact absurd hop (hnone _)
    · exact Nat.le_of_eq (congrArg _ hop.symm)
    · rw [hop]
      decide
  | long hnone hrange =>
    rcases PendingInstruction.loads?_inv hi with hop | ⟨-, hshort⟩ | hop
    · exact absurd hop (hnone _)
    · exact absurd hshort hrange
    · exact Nat.le_of_eq (congrArg _ hop.symm)

/-! ### The main statement -/

/-- Asked for an integer, an emitter appends one instruction that loads it, in whatever state it
is, and changes nothing else. No opcode and operand that an emitter accepts in any state give a
shorter instruction that loads the same number. -/
theorem ldcI4_exact_shortest (value : Int32) :
    ∃ i : PendingInstruction, i.loads? = some value ∧
      (∀ s, ldcI4 value s = .ok () { s with emitter := s.emitter.append i }) ∧
      ∀ op x s s' j, emit op x s = .ok () s' → s'.emitter.instructions.back? = some j →
        j.loads? = some value → i.opcode.encodedSize ≤ op.encodedSize := by
  have hencoded := encodedAs_constantEncoding value
  obtain ⟨a, hloads, hemit⟩ := emit_of_encodedAs hencoded
  refine ⟨_, hloads, hemit, fun op x s s' j hop hj hsame => ?_⟩
  obtain ⟨p, -, -, hs⟩ := emit_inv hop
  -- the last instruction is the one that was asked for
  have hlast : j = ⟨op, p⟩ := by
    simpa [hs, Emitter.append] using hj.symm
  have hle := encodedSize_le hencoded hsame
  rw [hlast] at hle
  exact hle

/-- The long form is accepted for 127 and loads it, but the instruction that is chosen is
shorter. -/
theorem ldcI4_exact_shortest_longForm :
    ∃ i : PendingInstruction, i.loads? = some 127 ∧
      ∃ s', emit .ldcI4 (.int 127) ⟨oneMethod, onlyEmitter⟩ = .ok () s' ∧
        s'.emitter.instructions.back? = some ⟨.ldcI4, .ready (.int 127)⟩ ∧
        i.opcode.encodedSize ≤ Opcode.ldcI4.encodedSize := by
  obtain ⟨i, hloads, -, hshortest⟩ := ldcI4_exact_shortest 127
  exact ⟨i, hloads, _, rfl, rfl,
    hshortest .ldcI4 (.int 127) ⟨oneMethod, onlyEmitter⟩ _ _ rfl rfl rfl⟩

end MarkupLowering
