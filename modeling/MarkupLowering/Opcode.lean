/-!
# MarkupLowering.Opcode

The **instruction set** of the target stack machine.

An opcode is one byte, or two bytes of which the first is `0xFE`, and fixes the kind of operand
that follows it (`OperandType`). Short forms give their operand one byte; `fitsShort` says which
values survive that.
-/

namespace MarkupLowering

/-! ### Operand types -/

/-- The operand that an opcode expects. -/
inductive OperandType
  /-- No operand. -/
  | none
  /-- A signed 8-bit number. -/
  | shortInt
  /-- A signed 32-bit number. -/
  | int
  /-- A signed 64-bit number. -/
  | long
  /-- A 32-bit floating-point number. -/
  | float
  /-- A 64-bit floating-point number. -/
  | double
  | string
  | field
  /-- A method or constructor. -/
  | method
  | type
  /-- A local slot, as an 8-bit index. -/
  | shortSlot
  /-- A local slot, as a 16-bit index. -/
  | slot
  /-- An argument slot, as an 8-bit index. -/
  | shortArgument
  /-- An argument slot, as a 16-bit index. -/
  | argument
  /-- A branch target, as an 8-bit displacement. -/
  | shortBranch
  /-- A branch target, as a 32-bit displacement. -/
  | branch
  deriving DecidableEq, Inhabited

namespace OperandType

/-- The bytes that the operand takes. -/
def size : OperandType → Nat
  | .none => 0
  | .shortInt | .shortSlot | .shortArgument | .shortBranch => 1
  | .slot | .argument => 2
  | .int | .float | .string | .field | .method | .type | .branch => 4
  | .long | .double => 8

/-- Whether the operand is an argument slot. -/
def isArgument : OperandType → Bool
  | .shortArgument | .argument => true
  | _ => false

/-- Whether the operand is a local slot. -/
def isSlot : OperandType → Bool
  | .shortSlot | .slot => true
  | _ => false

/-- Whether the operand is a branch target. -/
def isBranch : OperandType → Bool
  | .shortBranch | .branch => true
  | _ => false

/-- Whether `value` survives the one byte that a short operand has. Numbers and displacements are
signed. Slots are unsigned; a negative slot passes here, since no method has one. -/
def fitsShort (t : OperandType) (value : Int) : Bool :=
  match t with
  | .shortInt | .shortBranch => -128 ≤ value && value ≤ 127
  | .shortSlot | .shortArgument => value ≤ 255
  | _ => true

/-- The name of an operand type in the instruction set's standard. -/
def name : OperandType → String
  | .none => "InlineNone"
  | .shortInt => "ShortInlineI"
  | .int => "InlineI"
  | .long => "InlineI8"
  | .float => "ShortInlineR"
  | .double => "InlineR"
  | .string => "InlineString"
  | .field => "InlineField"
  | .method => "InlineMethod"
  | .type => "InlineType"
  | .shortSlot => "ShortInlineVar"
  | .slot => "InlineVar"
  | .shortArgument => "ShortInlineArg"
  | .argument => "InlineArg"
  | .shortBranch => "ShortInlineBrTarget"
  | .branch => "InlineBrTarget"

/-- Every operand type. -/
def all : List OperandType := [
  .none, .shortInt, .int, .long, .float, .double, .string, .field, .method, .type, .shortSlot,
  .slot, .shortArgument, .argument, .shortBranch, .branch]

/-- The operand type with a given name. -/
def ofName? (name : String) : Option OperandType := all.find? fun t => t.name == name

theorem ofName?_name (t : OperandType) : ofName? t.name = some t := by cases t <;> rfl

end OperandType

/-! ### Opcodes -/

/-- The operations of the machine. -/
inductive Opcode
  | nop | ldargS | ldargaS | stargS | ldlocS | ldlocaS | stlocS | ldnull | ldcI4M1 | ldcI4n0
  | ldcI4n1 | ldcI4n2 | ldcI4n3 | ldcI4n4 | ldcI4n5 | ldcI4n6 | ldcI4n7 | ldcI4n8 | ldcI4S
  | ldcI4 | ldcI8 | ldcR4 | ldcR8 | dup | pop | call | ret | brS | brfalseS | brtrueS | br
  | brfalse | brtrue | callvirt | ldstr | newobj | castclass | isinst | ldfld | stfld | ldsfld
  | stsfld | box | unboxAny | ldarg | ldarga | starg | ldloc | ldloca | stloc
  deriving DecidableEq, Inhabited

namespace Opcode

/-- Every opcode, by ascending code. -/
def all : List Opcode := [
  .nop, .ldargS, .ldargaS, .stargS, .ldlocS, .ldlocaS, .stlocS, .ldnull, .ldcI4M1, .ldcI4n0,
  .ldcI4n1, .ldcI4n2, .ldcI4n3, .ldcI4n4, .ldcI4n5, .ldcI4n6, .ldcI4n7, .ldcI4n8, .ldcI4S,
  .ldcI4, .ldcI8, .ldcR4, .ldcR8, .dup, .pop, .call, .ret, .brS, .brfalseS, .brtrueS, .br,
  .brfalse, .brtrue, .callvirt, .ldstr, .newobj, .castclass, .isinst, .ldfld, .stfld, .ldsfld,
  .stsfld, .box, .unboxAny, .ldarg, .ldarga, .starg, .ldloc, .ldloca, .stloc]

/-- The encoding of an opcode. -/
def code : Opcode → UInt16
  | .nop => 0x00
  | .ldargS => 0x0e
  | .ldargaS => 0x0f
  | .stargS => 0x10
  | .ldlocS => 0x11
  | .ldlocaS => 0x12
  | .stlocS => 0x13
  | .ldnull => 0x14
  | .ldcI4M1 => 0x15
  | .ldcI4n0 => 0x16
  | .ldcI4n1 => 0x17
  | .ldcI4n2 => 0x18
  | .ldcI4n3 => 0x19
  | .ldcI4n4 => 0x1a
  | .ldcI4n5 => 0x1b
  | .ldcI4n6 => 0x1c
  | .ldcI4n7 => 0x1d
  | .ldcI4n8 => 0x1e
  | .ldcI4S => 0x1f
  | .ldcI4 => 0x20
  | .ldcI8 => 0x21
  | .ldcR4 => 0x22
  | .ldcR8 => 0x23
  | .dup => 0x25
  | .pop => 0x26
  | .call => 0x28
  | .ret => 0x2a
  | .brS => 0x2b
  | .brfalseS => 0x2c
  | .brtrueS => 0x2d
  | .br => 0x38
  | .brfalse => 0x39
  | .brtrue => 0x3a
  | .callvirt => 0x6f
  | .ldstr => 0x72
  | .newobj => 0x73
  | .castclass => 0x74
  | .isinst => 0x75
  | .ldfld => 0x7b
  | .stfld => 0x7d
  | .ldsfld => 0x7e
  | .stsfld => 0x80
  | .box => 0x8c
  | .unboxAny => 0xa5
  | .ldarg => 0xfe09
  | .ldarga => 0xfe0a
  | .starg => 0xfe0b
  | .ldloc => 0xfe0c
  | .ldloca => 0xfe0d
  | .stloc => 0xfe0e

/-- The mnemonic of an opcode. -/
def mnemonic : Opcode → String
  | .nop => "nop"
  | .ldargS => "ldarg.s"
  | .ldargaS => "ldarga.s"
  | .stargS => "starg.s"
  | .ldlocS => "ldloc.s"
  | .ldlocaS => "ldloca.s"
  | .stlocS => "stloc.s"
  | .ldnull => "ldnull"
  | .ldcI4M1 => "ldc.i4.m1"
  | .ldcI4n0 => "ldc.i4.0"
  | .ldcI4n1 => "ldc.i4.1"
  | .ldcI4n2 => "ldc.i4.2"
  | .ldcI4n3 => "ldc.i4.3"
  | .ldcI4n4 => "ldc.i4.4"
  | .ldcI4n5 => "ldc.i4.5"
  | .ldcI4n6 => "ldc.i4.6"
  | .ldcI4n7 => "ldc.i4.7"
  | .ldcI4n8 => "ldc.i4.8"
  | .ldcI4S => "ldc.i4.s"
  | .ldcI4 => "ldc.i4"
  | .ldcI8 => "ldc.i8"
  | .ldcR4 => "ldc.r4"
  | .ldcR8 => "ldc.r8"
  | .dup => "dup"
  | .pop => "pop"
  | .call => "call"
  | .ret => "ret"
  | .brS => "br.s"
  | .brfalseS => "brfalse.s"
  | .brtrueS => "brtrue.s"
  | .br => "br"
  | .brfalse => "brfalse"
  | .brtrue => "brtrue"
  | .callvirt => "callvirt"
  | .ldstr => "ldstr"
  | .newobj => "newobj"
  | .castclass => "castclass"
  | .isinst => "isinst"
  | .ldfld => "ldfld"
  | .stfld => "stfld"
  | .ldsfld => "ldsfld"
  | .stsfld => "stsfld"
  | .box => "box"
  | .unboxAny => "unbox.any"
  | .ldarg => "ldarg"
  | .ldarga => "ldarga"
  | .starg => "starg"
  | .ldloc => "ldloc"
  | .ldloca => "ldloca"
  | .stloc => "stloc"

/-- The operand that an opcode expects. -/
def operandType : Opcode → OperandType
  | .ldargS | .ldargaS | .stargS => .shortArgument
  | .ldarg | .ldarga | .starg => .argument
  | .ldlocS | .ldlocaS | .stlocS => .shortSlot
  | .ldloc | .ldloca | .stloc => .slot
  | .ldcI4S => .shortInt
  | .ldcI4 => .int
  | .ldcI8 => .long
  | .ldcR4 => .float
  | .ldcR8 => .double
  | .ldstr => .string
  | .call | .callvirt | .newobj => .method
  | .ldfld | .stfld | .ldsfld | .stsfld => .field
  | .castclass | .isinst | .box | .unboxAny => .type
  | .brS | .brfalseS | .brtrueS => .shortBranch
  | .br | .brfalse | .brtrue => .branch
  | .nop | .ldnull | .ldcI4M1 | .ldcI4n0 | .ldcI4n1 | .ldcI4n2 | .ldcI4n3 | .ldcI4n4 | .ldcI4n5
  | .ldcI4n6 | .ldcI4n7 | .ldcI4n8 | .dup | .pop | .ret => .none

/-- The opcode with a given encoding. -/
def ofCode? (c : UInt16) : Option Opcode := all.find? fun op => op.code == c

/-- The opcode with a given mnemonic. -/
def ofMnemonic? (m : String) : Option Opcode := all.find? fun op => op.mnemonic == m

/-- The mnemonic as one word: its parts capitalized, and numbers set apart by an underscore. -/
def identifier (op : Opcode) : String :=
  String.join ((op.mnemonic.splitOn ".").map fun part =>
    match part.toList with
    | [] => ""
    | c :: cs => if c.isDigit then "_" ++ part else String.ofList (c.toUpper :: cs))

/-- The bytes of the opcode itself. -/
def size (op : Opcode) : Nat := if op.code > 0xff then 2 else 1

/-- The bytes of the opcode and its operand. -/
def encodedSize (op : Opcode) : Nat := op.size + op.operandType.size

theorem mem_all (op : Opcode) : op ∈ all := by cases op <;> decide

theorem ofCode?_code (op : Opcode) : ofCode? op.code = some op := by cases op <;> rfl

theorem encodedSize_pos (op : Opcode) : 0 < op.encodedSize := by cases op <;> decide

end Opcode

end MarkupLowering
