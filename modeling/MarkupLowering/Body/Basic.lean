import MarkupLowering.Body.Debug
import MarkupLowering.Decimal.Plain
import MarkupLowering.Import.Token
import MarkupLowering.Opcode
import MarkupLowering.TypeRef.Basic

/-!
# MarkupLowering.Body.Basic

**Finished method bodies**: instructions with byte offsets, operands reduced to tokens and slots,
branches resolved to instruction indices, and a listing of them.
-/

namespace MarkupLowering

/-! ### Instructions -/

/-- The operand of a finished instruction. -/
inductive Argument
  | none
  | int (value : Int32)
  | long (value : Int64)
  | float (bits : UInt32)
  | double (bits : UInt64)
  /-- A type, field, method, constructor or string. -/
  | token (t : Token)
  /-- A local slot. -/
  | slot (index : UInt16)
  /-- The object that an instance method was called on. -/
  | this
  /-- A declared parameter. -/
  | param (index : UInt16)
  /-- The instruction that a branch goes to. -/
  | target (index : Nat)
  deriving DecidableEq, Inhabited

namespace Argument

/-- Equality of what arguments mean: floating-point numbers compare as numbers. -/
def same : Argument → Argument → Bool
  | .float a, .float b => Decimal.single.sameNumber a.toNat b.toNat
  | .double a, .double b => Decimal.double.sameNumber a.toNat b.toNat
  | a, b => a == b

/-- The text of an argument in a listing. -/
def render : Argument → String
  | .none => ""
  | .int value => toString value.toInt
  | .long value => toString value.toInt
  | .float bits => Decimal.single.render bits.toNat
  | .double bits => Decimal.double.render bits.toNat
  | .token t => t.render
  | .slot index => "V_" ++ toString index.toNat
  | .this => "this"
  | .param index => "A_" ++ toString index.toNat
  | .target index => "IL#" ++ toString index

end Argument

/-- A finished instruction. -/
structure Instruction where
  /-- The bytes before it. -/
  offset : Nat
  opcode : Opcode
  argument : Argument
  deriving DecidableEq, Inhabited

namespace Instruction

/-- Equality of what instructions mean. -/
def same (a b : Instruction) : Bool :=
  a.offset == b.offset && a.opcode == b.opcode && a.argument.same b.argument

/-- The line of an instruction in a listing, without the line end. -/
def render (i : Instruction) : String :=
  "IL_" ++ Text.Hex.render 4 i.offset ++ ": " ++ i.opcode.mnemonic ++
    match i.argument with
    | .none => ""
    | a => " " ++ a.render

end Instruction

/-! ### Bodies -/

/-- The body of a method or constructor. -/
structure Body where
  instructions : Array Instruction
  locals : Array TypeRef
  /-- The bytes of all instructions. -/
  codeSize : Nat
  debug : DebugInfo
  deriving Inhabited

namespace Body

/-- The number of instructions. -/
def size (b : Body) : Nat := b.instructions.size

/-- Whether two lists agree element by element. -/
def agree {α : Type} (same : α → α → Bool) : List α → List α → Bool
  | [], [] => true
  | a :: as, b :: bs => same a b && agree same as bs
  | _, _ => false

/-- Equality of what bodies mean: types compare by identity and floating-point numbers as
numbers, so a body that loads a not-a-number differs from itself. -/
def same (a b : Body) : Bool :=
  agree Instruction.same a.instructions.toList b.instructions.toList &&
    agree (· == ·) a.locals.toList b.locals.toList &&
    a.codeSize == b.codeSize && a.debug == b.debug

/-- The offset that the branch at `index` goes to. -/
def targetOffset? (b : Body) (index : Nat) : Option Nat := do
  let i ← b.instructions[index]?
  match i.argument with
  | .target t => (b.instructions[t]?).map Instruction.offset
  | _ => none

/-- The listing: a line for each instruction, each with its line end. -/
def listing (b : Body) : String :=
  b.instructions.foldl (fun text i => text ++ i.render ++ "\n") ""

end Body

end MarkupLowering
