import MarkupLowering.Lowering.Context

/-!
# MarkupLowering.Lowering.Basic

**Lowering** node trees to instructions.

A node's own code (`code`) lowers its children through dispatch, which checks what each child
left on the stack, and emits its own instructions around them. The stack after the code of a value
node is the stack before with one value more, after that of a manipulation node with one value
less, and after that of an imperative node the same.
-/

namespace MarkupLowering

open Emission LowerM

variable {ξ : Type} [ExtensionCode ξ] (env : Environment)

/-- The stack contract of a child whose own code is `code`: it is dispatched, and its value is
delivered as `expected`. -/
def deliver (n : ValueNode ξ) (expected : TypeRef) (code : LowerM ξ StackEffect) :
    LowerM ξ StackEffect := do
  let effect ← dispatch (.value n) code
  checkValue env.hierarchy (.value n) expected effect

/-- The stack contract of a statement whose own code is `code`. -/
def execute (n : ImperativeNode ξ) (code : LowerM ξ StackEffect) : LowerM ξ StackEffect := do
  let effect ← dispatch (.imperative n) code
  checkImperative (.imperative n) effect

/-- The stack contract of a manipulation whose own code is `code`. -/
def manipulate (n : ManipulationNode ξ) (code : LowerM ξ StackEffect) : LowerM ξ StackEffect := do
  let effect ← dispatch (.manipulation n) code
  checkManipulation (.manipulation n) effect

/-- Calls the initialization hook on the value on the stack, if its type gets one. -/
def callHook (type : TypeRef) : LowerM ξ Unit :=
  match env.beginInitFor type with
  | none => pure ()
  | some hook => do
    emitting dup
    emitting (call hook)

/-- Converts the object on the stack to a type. -/
def convert (target : TypeRef) : LowerM ξ Unit :=
  emitting (if target.isValueType then unboxAny target else castclass target)

/-- Loads the context local. -/
def loadContext (line : Position) : LowerM ξ Unit := do
  match (← get).context.contextLocal with
  | none => throw (.missingContextLocal line)
  | some slot => emitting (ldloc slot)

mutual

/-- The code of a value node. -/
def ValueNode.code : ValueNode ξ → LowerM ξ StackEffect
  | .string type text _ => do
    emitting (ldstr text)
    pure (.value type)
  | .localRef l line => do
    loadLocal l line
    pure (.value l.type)
  | .localInit l value _ => do
    let effect ← deliver env value l.type value.code
    emitting dup
    storeLocal l
    pure effect
  | .beginInit value => do
    let effect ← deliver env value value.valueType value.code
    callHook env value.valueType
    pure effect
  | .contextLocal type line => do
    loadContext line
    pure (.value type)
  | .cast value target _ => do
    let _ ← deliver env value env.config.core.object value.code
    convert target
    pure (.value target)
  | .parentStack value line => do
    verifyParents (ValueNode.parentStack value line).name line
    deliver env value value.valueType value.code
  | .newObject constructor arguments line =>
    if constructor.params.length = arguments.length then do
      argumentsCode arguments constructor.params
      emitting (newobj constructor)
      pure (.value constructor.declaring)
    else
      breach (.value (.newObject constructor arguments line))
        (.argumentCount constructor.render constructor.params.length arguments.length)
  | .extension x => emitting (ExtensionCode.code x)

/-- The code of constructor arguments, each delivered as its parameter. -/
def argumentsCode : List (ValueNode ξ) → List TypeRef → LowerM ξ Unit
  | value :: values, param :: params => do
    let _ ← deliver env value param value.code
    argumentsCode values params
  | _, _ => pure ()

/-- The code of an imperative node. -/
def ImperativeNode.code : ImperativeNode ξ → LowerM ξ StackEffect
  | .valueManipulation value manipulation _ => do
    let _ ← deliver env value value.valueType value.code
    let _ ← manipulate manipulation manipulation.code
    pure (.void 0)
  | .block children _ => do
    statementsCode children
    pure (.void 0)
  | .extension x => emitting (ExtensionCode.code x)

/-- The code of statements in order. -/
def statementsCode : List (ImperativeNode ξ) → LowerM ξ Unit
  | [] => pure ()
  | child :: children => do
    let _ ← execute child child.code
    statementsCode children

/-- The code of a manipulation node. -/
def ManipulationNode.code : ManipulationNode ξ → LowerM ξ StackEffect
  | .imperative body _ => do
    emitting pop
    let _ ← execute body body.code
    pure (.void 1)
  | .assign property value line =>
    match property.setter with
    | none => breach (.manipulation (.assign property value line))
        (.noSetter property.name.text property.declaring.fullName)
    | some setter => do
      let _ ← deliver env value property.type value.code
      emitting (call setter)
      pure (.void 1)
  | .group children _ => do
    groupCode children
    pure (.void 1)
  | .extension x => emitting (ExtensionCode.code x)

/-- The code of manipulations of one value. Each takes the value, so all but the last work on a
copy; without any the value is dropped. -/
def groupCode : List (ManipulationNode ξ) → LowerM ξ Unit
  | [] => emitting pop
  | [child] => do
    let _ ← manipulate child child.code
    pure ()
  | child :: children => do
    emitting dup
    let _ ← manipulate child child.code
    groupCode children

end

/-! ### Entry points -/

/-- Lowers a value node whose value is to be stored as `expected`. -/
def lowerValue (n : ValueNode ξ) (expected : TypeRef) : LowerM ξ StackEffect :=
  deliver env n expected (n.code env)

/-- Lowers a statement. -/
def lowerImperative (n : ImperativeNode ξ) : LowerM ξ StackEffect := execute n (n.code env)

/-- Lowers a node that takes the value on the stack. -/
def lowerManipulation (n : ManipulationNode ξ) : LowerM ξ StackEffect := manipulate n (n.code env)

/-- Lowers a node of any role; a value is stored as `expected`, or else as its own type. -/
def Node.lower (n : Node ξ) (expected : Option TypeRef) : LowerM ξ StackEffect :=
  match n with
  | .value n => lowerValue env n (expected.getD n.valueType)
  | .imperative n => lowerImperative env n
  | .manipulation n => lowerManipulation env n

end MarkupLowering
