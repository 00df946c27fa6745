import MarkupLowering.Emitter.Basic

/-!
# MarkupLowering.Emitter.Instructions

Single **instructions by name**, with the operand that fits each. Integer constants take the
shortest encoding, and calls go through the dispatch table exactly when the method has an object
that is not held in place.
-/

namespace MarkupLowering.Emission

/-! ### Plain instructions -/

def nop : EmitM Unit := emit .nop .none
def dup : EmitM Unit := emit .dup .none
def pop : EmitM Unit := emit .pop .none
def ret : EmitM Unit := emit .ret .none
def ldnull : EmitM Unit := emit .ldnull .none

/-! ### Constants -/

/-- The opcode that loads a small number without operand. -/
def smallConstant? (value : Int32) : Option Opcode :=
  match value.toInt with
  | -1 => some .ldcI4M1
  | 0 => some .ldcI4n0
  | 1 => some .ldcI4n1
  | 2 => some .ldcI4n2
  | 3 => some .ldcI4n3
  | 4 => some .ldcI4n4
  | 5 => some .ldcI4n5
  | 6 => some .ldcI4n6
  | 7 => some .ldcI4n7
  | 8 => some .ldcI4n8
  | _ => none

/-- The shortest instruction that loads a number. -/
def constantEncoding (value : Int32) : Opcode × Operand :=
  match smallConstant? value with
  | some op => (op, .none)
  | none =>
    if -128 ≤ value.toInt ∧ value.toInt ≤ 127 then (.ldcI4S, .int value) else (.ldcI4, .int value)

def ldcI4 (value : Int32) : EmitM Unit := emit (constantEncoding value).1 (constantEncoding value).2
def ldcI8 (value : Int64) : EmitM Unit := emit .ldcI8 (.long value)
def ldcR4 (bits : UInt32) : EmitM Unit := emit .ldcR4 (.float bits)
def ldcR8 (bits : UInt64) : EmitM Unit := emit .ldcR8 (.double bits)
def ldstr (text : String) : EmitM Unit := emit .ldstr (.string text)

/-! ### Locals and arguments -/

def ldloc (s : Slot) : EmitM Unit := emit .ldloc (.slot s)
def ldloca (s : Slot) : EmitM Unit := emit .ldloca (.slot s)
def stloc (s : Slot) : EmitM Unit := emit .stloc (.slot s)
def ldarg (index : UInt16) : EmitM Unit := emit .ldarg (.int (.ofNat index.toNat))
def starg (index : UInt16) : EmitM Unit := emit .starg (.int (.ofNat index.toNat))

/-! ### Members and types -/

def ldfld (f : FieldRef) : EmitM Unit := emit .ldfld (.field f)
def stfld (f : FieldRef) : EmitM Unit := emit .stfld (.field f)
def ldsfld (f : FieldRef) : EmitM Unit := emit .ldsfld (.field f)
def stsfld (f : FieldRef) : EmitM Unit := emit .stsfld (.field f)
def newobj (c : ConstructorRef) : EmitM Unit := emit .newobj (.constructor c)

/-- The opcode that calls a method. -/
def callOpcode (m : MethodRef) : Opcode :=
  if m.isStatic || m.declaring.isValueType then .call else .callvirt

def call (m : MethodRef) : EmitM Unit := emit (callOpcode m) (.method m)
def box (t : TypeRef) : EmitM Unit := emit .box (.type t)
def unboxAny (t : TypeRef) : EmitM Unit := emit .unboxAny (.type t)
def castclass (t : TypeRef) : EmitM Unit := emit .castclass (.type t)
def isinst (t : TypeRef) : EmitM Unit := emit .isinst (.type t)

/-! ### Branches -/

def br (l : Label) : EmitM Unit := emit .br (.label l)
def brtrue (l : Label) : EmitM Unit := emit .brtrue (.label l)
def brfalse (l : Label) : EmitM Unit := emit .brfalse (.label l)

end MarkupLowering.Emission
