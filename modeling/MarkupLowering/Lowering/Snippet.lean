import MarkupLowering.Lowering.Context

/-!
# MarkupLowering.Lowering.Snippet

**Snippets**: leaves that write a fixed sequence of instructions without operands and report a
stack effect of their own. Nothing ties the reported effect to the instructions; that is left to
the checks around the leaf.
-/

namespace MarkupLowering

/-- A leaf of fixed instructions. -/
structure Snippet where
  name : String
  line : Position
  needsParents : Bool
  valueType : TypeRef
  opcodes : List Opcode
  effect : StackEffect
  deriving Inhabited

/-- Emits opcodes without operands, in order. -/
def emitAll : List Opcode → EmitM Unit
  | [] => pure ()
  | op :: ops => do
    Emission.emit op .none
    emitAll ops

instance : ExtensionCode Snippet where
  name := Snippet.name
  line := Snippet.line
  needsParents := Snippet.needsParents
  valueType := Snippet.valueType
  code s := do
    emitAll s.opcodes
    pure s.effect

end MarkupLowering
