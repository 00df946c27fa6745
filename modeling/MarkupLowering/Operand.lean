import MarkupLowering.Error
import MarkupLowering.Member

/-!
# MarkupLowering.Operand

What an instruction is **asked to refer to**, before it is checked against the opcode and reduced
to tokens, slots and targets.
-/

namespace MarkupLowering

/-- A typed local slot of one method. -/
structure Slot where
  index : UInt16
  type : TypeRef
  deriving Inhabited

/-- Slots are equal when index and type are. -/
instance : BEq Slot := ⟨fun a b => a.index == b.index && a.type == b.type⟩

/-- The operand that comes with an opcode. Floating-point numbers are given by their encoding. -/
inductive Operand
  | none
  | int (value : Int32)
  | long (value : Int64)
  | float (bits : UInt32)
  | double (bits : UInt64)
  | string (text : String)
  | field (f : FieldRef)
  | method (m : MethodRef)
  | constructor (c : ConstructorRef)
  | type (t : TypeRef)
  | slot (s : Slot)
  | label (l : Label)
  deriving Inhabited

namespace Operand

/-- The kind of an operand, in diagnostics. -/
def kind : Operand → String
  | .none => "none"
  | .int _ => "int32"
  | .long _ => "int64"
  | .float _ => "float32"
  | .double _ => "float64"
  | .string _ => "string"
  | .field _ => "field"
  | .method _ => "method"
  | .constructor _ => "constructor"
  | .type _ => "type"
  | .slot _ => "local"
  | .label _ => "label"

/-- The number that a short form would have to encode, for operands that have one. -/
def shortValue? : Operand → Option Int
  | .int value => some value.toInt
  | .slot s => some s.index.toNat
  | _ => Option.none

end Operand

end MarkupLowering
