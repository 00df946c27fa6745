import MarkupLowering.Attributes
import MarkupLowering.Opcode
import MarkupLowering.Position

/-!
# MarkupLowering.Error

Why code generation fails. Every cause has a constructor; its wording is given once, by
`EmitError.message`.
-/

namespace MarkupLowering

/-- A branch target of one method body. -/
structure Label where
  id : Nat
  deriving DecidableEq, Inhabited

/-- A label in diagnostics. -/
def Label.render (l : Label) : String := "L" ++ toString l.id

/-- How a node, or what it was given, broke its stack contract. Types and members appear by
name. -/
inductive Breach
  /-- A value node took items from the stack. -/
  | valueConsumed (count : UInt32)
  /-- A value node left no value. -/
  | noValue (expected : String)
  /-- A value node left a value of the wrong type. -/
  | notAssignable (actual expected : String)
  /-- A node that should leave no value left one. -/
  | unexpectedValue (actual : String)
  /-- An imperative node took items from the stack. -/
  | imperativeConsumed (count : UInt32)
  /-- A manipulation node did not take exactly one item. -/
  | manipulationConsumed (count : UInt32)
  /-- A constructor was given the wrong number of arguments. -/
  | argumentCount (constructor : String) (expected actual : Nat)
  /-- A property without setter was assigned. -/
  | noSetter (property owner : String)
  deriving DecidableEq

/-- The wording of a breach. -/
def Breach.message : Breach → String
  | .valueConsumed count => s!"value node consumed {count.toNat} stack item(s)"
  | .noValue expected => s!"resulted in void while caller expected '{expected}'"
  | .notAssignable actual expected =>
    s!"resulted in '{actual}', which is not assignable to '{expected}'"
  | .unexpectedValue actual => s!"resulted in '{actual}' while caller expected void"
  | .imperativeConsumed count => s!"imperative node consumed {count.toNat} stack item(s)"
  | .manipulationConsumed count =>
    s!"manipulation node consumed {count.toNat} stack item(s) instead of 1"
  | .argumentCount constructor expected actual =>
    s!"'{constructor}' takes {expected} argument(s), {actual} supplied"
  | .noSetter property owner => s!"property '{property}' of '{owner}' has no setter"

/-- Why a module cannot hold a definition. -/
inductive DefinitionFault
  | nestedVisibility (name : String) (visibility : Visibility)
  | unnamedType
  | unnamedMember (kind owner : String)
  | foreignAccessor (accessor property owner : String)
  | initializerParameters (owner : String)
  | notAnInterface (name : String)
  | tooManyLocals (method : String)
  deriving DecidableEq

/-- The wording of a definition fault. -/
def DefinitionFault.message : DefinitionFault → String
  | .nestedVisibility name visibility =>
    s!"top-level type '{name}' cannot use {visibility.name} visibility"
  | .unnamedType => "type name must not be empty"
  | .unnamedMember kind owner => s!"{kind} on '{owner}' must have a name"
  | .foreignAccessor accessor property owner =>
    s!"accessor '{accessor}' of property '{property}' is not declared on '{owner}'"
  | .initializerParameters owner => s!"static constructor of '{owner}' cannot take parameters"
  | .notAnInterface name => s!"'{name}' is not an interface"
  | .tooManyLocals method => s!"too many locals in '{method}'"

/-- Why code generation fails. -/
inductive EmitError
  /-- The opcode does not take an operand of this kind. -/
  | unsupportedOperand (opcode : Opcode) (operand : String)
  /-- A number, slot or displacement does not fit the one byte of a short form. -/
  | shortFormOutOfRange (opcode : Opcode) (value : Int)
  /-- A branch goes to a label that no instruction has. -/
  | unresolvedLabel (label : Label) (instruction : Nat)
  /-- The emitter did not define the label. -/
  | unknownLabel (label : Label)
  /-- The method has no such argument. -/
  | argumentOutOfRange (index : Int) (count : Nat) (method : String)
  /-- The method has no such local. -/
  | localOutOfRange (index : Int) (count : Nat)
  /-- A node broke its stack contract. -/
  | stackContract (node : String) (line : Position) (breach : Breach)
  /-- A compiler local was read before it was stored. -/
  | uninitializedLocal (line : Position)
  /-- The method has no context local. -/
  | missingContextLocal (line : Position)
  /-- A node that needs ancestors has none. -/
  | missingParentStack (node : String) (line : Position)
  /-- The initialization hook is declared on another type. -/
  | initHookMismatch (hookType method : String)
  /-- A member belongs to another module. -/
  | foreignMember (member unit : String)
  /-- The method already has a body. -/
  | bodyAlreadyFinalized (method : String)
  /-- The module cannot hold the definition. -/
  | invalidDefinition (fault : DefinitionFault)
  deriving DecidableEq

/-- The name of the cause of an error. -/
def EmitError.name : EmitError → String
  | .unsupportedOperand .. => "UnsupportedOperand"
  | .shortFormOutOfRange .. => "ShortFormOutOfRange"
  | .unresolvedLabel .. => "UnresolvedLabel"
  | .unknownLabel .. => "UnknownLabel"
  | .argumentOutOfRange .. => "ArgumentOutOfRange"
  | .localOutOfRange .. => "LocalOutOfRange"
  | .stackContract .. => "StackContract"
  | .uninitializedLocal .. => "UninitializedLocal"
  | .missingContextLocal .. => "MissingContextLocal"
  | .missingParentStack .. => "MissingParentStack"
  | .initHookMismatch .. => "InitHookMismatch"
  | .foreignMember .. => "ForeignMember"
  | .bodyAlreadyFinalized .. => "BodyAlreadyFinalized"
  | .invalidDefinition .. => "InvalidDefinition"

/-- The wording of an error. -/
def EmitError.message : EmitError → String
  | .unsupportedOperand opcode operand =>
    s!"opcode '{opcode.mnemonic}' does not accept an operand of kind '{operand}'"
  | .shortFormOutOfRange opcode value =>
    s!"'{opcode.mnemonic}' cannot encode {value} in its short form"
  | .unresolvedLabel label instruction =>
    s!"branch at instruction {instruction} targets {label.render}, which was never marked"
  | .unknownLabel label => s!"{label.render} was not defined by this emitter"
  | .argumentOutOfRange index count method =>
    s!"argument index {index} is out of range for '{method}' ({count} slots)"
  | .localOutOfRange index count =>
    s!"local index {index} is out of range ({count} locals defined)"
  | .stackContract node line breach => s!"{node} at {line.render}: {breach.message}"
  | .uninitializedLocal line =>
    s!"attempt to read uninitialized local variable at {line.render}"
  | .missingContextLocal line => s!"no context local is available at {line.render}"
  | .missingParentStack node line =>
    s!"{node} at {line.render} requires the parent node stack, but none was recorded"
  | .initHookMismatch hookType method =>
    s!"initialization hook '{method}' is not declared on '{hookType}'"
  | .foreignMember member unit => s!"'{member}' is not defined in {unit}"
  | .bodyAlreadyFinalized method => s!"body of '{method}' has already been finalized"
  | .invalidDefinition fault => s!"invalid definition: {fault.message}"

end MarkupLowering
