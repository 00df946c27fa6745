import MarkupLowering.Emitter.Instructions
import MarkupLowering.Lowering.Config
import MarkupLowering.Tree.Basic

/-!
# MarkupLowering.Lowering.Context

What nodes of one method share while they are lowered: the chain of enclosing nodes, the slots of
compiler locals, and the context local; and how a node is **dispatched** and its result checked.

Design points:

* Dispatching a node puts it on the chain, opens a debug capture if the node stands in a file, and
  undoes both however the node ends.
* What was dispatched is recorded with the enclosing nodes it sees (`Context.trace`,
  `Context.parents`).
* The slot of a compiler local is defined by the first store to it.
-/

namespace MarkupLowering

/-! ### Stack effects -/

/-- What a node did to the stack: how many items it took, and the type of the value it left. -/
structure StackEffect where
  consumed : UInt32
  result : Option TypeRef
  deriving Inhabited

namespace StackEffect

/-- One value left, nothing taken. -/
def value (type : TypeRef) : StackEffect := ⟨0, some type⟩

/-- No value left. -/
def void (consumed : UInt32) : StackEffect := ⟨consumed, none⟩

def producesValue (e : StackEffect) : Bool := e.result.isSome

/-- The net change of the stack height, in 32-bit arithmetic. -/
def delta (e : StackEffect) : Int32 :=
  (if e.producesValue then 1 else 0) - e.consumed.toInt32

end StackEffect

/-! ### State -/

/-- A dispatched node and the nodes around it, the innermost first. -/
structure Dispatch (ξ : Type) where
  node : Node ξ
  parents : List (Node ξ)

/-- What the nodes of one method share. -/
structure Context (ξ : Type) where
  /-- The file that nodes with a position stand in. -/
  file : Option SourceFile := none
  contextLocal : Option Slot := none
  /-- The node being lowered and the nodes around it, the innermost first. -/
  ancestors : List (Node ξ) := []
  /-- The slots of compiler locals, by their numbers. -/
  slots : List (Nat × Slot) := []
  /-- Whether some node that needs enclosing nodes was found to have them. -/
  parentsVerified : Bool := false
  /-- All nodes dispatched so far, the latest first. -/
  trace : List (Dispatch ξ) := []

/-- Everything that lowering changes. -/
structure LowerState (ξ : Type) where
  emission : Emission
  context : Context ξ

/-- A step of lowering. State that a failing step has changed stays changed. -/
abbrev LowerM (ξ : Type) := EStateM EmitError (LowerState ξ)

/-- The code of a further kind of leaf. -/
class ExtensionCode (ξ : Type) extends Extension ξ where
  code : ξ → EmitM StackEffect

instance : ExtensionCode Empty where
  code := Empty.elim

variable {ξ : Type}

namespace Context

/-- The nodes around the node being lowered, the innermost first. -/
def parents (c : Context ξ) : List (Node ξ) := c.ancestors.tail

/-- The slot of a compiler local. -/
def slot? (c : Context ξ) (l : CompilerLocal) : Option Slot := c.slots.lookup l.id

/-- Whether a compiler local was stored. -/
def isInitialized (c : Context ξ) (l : CompilerLocal) : Bool := (c.slot? l).isSome

/-- The context in which a node is lowered. The node is recorded with what `parents` returns there,
which is what the node itself gets when it asks for the nodes around it. -/
def enter (c : Context ξ) (n : Node ξ) : Context ξ :=
  let entered := { c with ancestors := n :: c.ancestors }
  { entered with trace := ⟨n, entered.parents⟩ :: c.trace }

/-- The context after the innermost node was lowered. -/
def leave (c : Context ξ) : Context ξ := { c with ancestors := c.ancestors.tail }

@[simp] theorem ancestors_enter (c : Context ξ) (n : Node ξ) :
    (c.enter n).ancestors = n :: c.ancestors := rfl

/-- A node has around it what was there before. -/
@[simp] theorem parents_enter (c : Context ξ) (n : Node ξ) : (c.enter n).parents = c.ancestors :=
  rfl

@[simp] theorem trace_enter (c : Context ξ) (n : Node ξ) :
    (c.enter n).trace = ⟨n, c.ancestors⟩ :: c.trace := rfl

end Context

namespace LowerM

/-- Runs a step of emission. -/
def emitting {α : Type} (step : EmitM α) : LowerM ξ α := fun s =>
  match step s.emission with
  | .ok a emission => .ok a { s with emission }
  | .error e emission => .error e { s with emission }

/-- Runs a step from a context as a step of emission. Outcome and context are returned, and what
was emitted stays, however the step ended. -/
def runIn {α : Type} (c : Context ξ) (step : LowerM ξ α) : EmitM (Except EmitError α × Context ξ) :=
  fun s => match step ⟨s, c⟩ with
  | .ok a s => .ok (.ok a, s.context) s.emission
  | .error e s => .ok (.error e, s.context) s.emission

/-- Runs a step and changes the state after it, however it ended. -/
def andThen {α : Type} (step : LowerM ξ α) (f : LowerState ξ → LowerState ξ) :
    LowerM ξ α := fun s =>
  match step s with
  | .ok a s => .ok a (f s)
  | .error e s => .error e (f s)

/-- Runs a step inside a debug capture, if there is a file and the position is one in it. -/
def captured {α : Type} (line : Position) (step : LowerM ξ α) : LowerM ξ α := fun s =>
  match s.context.file with
  | none => step s
  | some file =>
    if line.isSynthetic then step s
    else
      let (id, emission) := s.emission.beginCapture file line
      andThen step (fun s => { s with emission := s.emission.endCapture id }) { s with emission }

variable [Extension ξ]

/-- Lowers a node by its own code, with the node on the chain. -/
def dispatch {α : Type} (n : Node ξ) (step : LowerM ξ α) : LowerM ξ α := fun s =>
  andThen (captured n.line step) (fun s => { s with context := s.context.leave })
    { s with context := s.context.enter n }

/-! ### Contracts -/

/-- Fails because a node broke its stack contract. -/
def breach {α : Type} (n : Node ξ) (b : Breach) : LowerM ξ α :=
  throw (.stackContract n.name n.line b)

/-- Checks that a value node left one value that can be stored as `expected`, and boxes a value
held in place where a reference is expected. -/
def checkValue (h : Hierarchy) (n : Node ξ) (expected : TypeRef) (effect : StackEffect) :
    LowerM ξ StackEffect :=
  if effect.consumed ≠ 0 then breach n (.valueConsumed effect.consumed)
  else match effect.result with
    | none => breach n (.noValue expected.fullName)
    | some actual =>
      if !h.assignable expected actual then
        breach n (.notAssignable actual.fullName expected.fullName)
      else if actual.isValueType && !expected.isValueType then do
        emitting (Emission.box actual)
        pure (.value expected)
      else pure effect

/-- Checks that an imperative node left the stack as it was. -/
def checkImperative (n : Node ξ) (effect : StackEffect) : LowerM ξ StackEffect :=
  match effect.result with
  | some actual => breach n (.unexpectedValue actual.fullName)
  | none =>
    if effect.consumed ≠ 0 then breach n (.imperativeConsumed effect.consumed) else pure effect

/-- Checks that a manipulation node took one value and left none. -/
def checkManipulation (n : Node ξ) (effect : StackEffect) : LowerM ξ StackEffect :=
  match effect.result with
  | some actual => breach n (.unexpectedValue actual.fullName)
  | none =>
    if effect.consumed ≠ 1 then breach n (.manipulationConsumed effect.consumed) else pure effect

omit [Extension ξ]

/-! ### Compiler locals -/

/-- Loads a compiler local. -/
def loadLocal (l : CompilerLocal) (line : Position) : LowerM ξ Unit := do
  match (← get).context.slot? l with
  | none => throw (.uninitializedLocal line)
  | some slot => emitting (Emission.ldloc slot)

/-- The slot of a compiler local, defined when there is none. -/
def slotFor (l : CompilerLocal) : LowerM ξ Slot := do
  match (← get).context.slot? l with
  | some slot => pure slot
  | none =>
    let slot ← emitting (Emission.defineLocal l.type)
    modify fun s => { s with context.slots := (l.id, slot) :: s.context.slots }
    pure slot

/-- Stores the top of the stack in a compiler local. -/
def storeLocal (l : CompilerLocal) : LowerM ξ Unit := do
  let slot ← slotFor l
  emitting (Emission.stloc slot)

/-! ### Enclosing nodes -/

/-- Checks that there are enclosing nodes. One success stands for the rest of the method. -/
def verifyParents (name : String) (line : Position) : LowerM ξ Unit := do
  let c := (← get).context
  if c.parentsVerified then pure ()
  else if c.parents.isEmpty then throw (.missingParentStack name line)
  else modify fun s => { s with context.parentsVerified := true }

end LowerM

end MarkupLowering
