import MarkupLowering.Member
import MarkupLowering.Position

/-!
# MarkupLowering.Tree.Basic

The **node trees** that are lowered to method bodies. Every node plays one of three roles:

* a `ValueNode` leaves one value of a known type on the stack;
* an `ImperativeNode` leaves the stack as it found it;
* a `ManipulationNode` takes the one value that its parent left there.

The trees are open: each role has a constructor for leaves of a further type `ξ`, which the class
`Extension` describes. Trees over `Empty` have the built-in nodes only.
-/

namespace MarkupLowering

/-- A local that the compiler introduces. Two are the same exactly when their numbers are. -/
structure CompilerLocal where
  id : Nat
  type : TypeRef
  name : Option String
  deriving Inhabited

instance : BEq CompilerLocal := ⟨fun a b => a.id == b.id⟩

/-! ### Nodes -/

mutual

/-- Nodes that produce a value. -/
inductive ValueNode (ξ : Type)
  /-- A text from the markup, with the type that it has at run time. -/
  | string (type : TypeRef) (text : String) (line : Position)
  /-- Loads a compiler local that was stored before. -/
  | localRef (temp : CompilerLocal) (line : Position)
  /-- Stores a value in a compiler local and leaves it on the stack. -/
  | localInit (temp : CompilerLocal) (value : ValueNode ξ) (line : Position)
  /-- Calls the initialization hook on a value, if its type has one. -/
  | beginInit (value : ValueNode ξ)
  /-- Loads the context object of the method. -/
  | contextLocal (type : TypeRef) (line : Position)
  /-- Converts a value to a type, checked at run time. -/
  | cast (value : ValueNode ξ) (target : TypeRef) (line : Position)
  /-- Marks a value whose evaluation looks at the enclosing nodes. -/
  | parentStack (value : ValueNode ξ) (line : Position)
  /-- Creates an object. -/
  | newObject (constructor : ConstructorRef) (arguments : List (ValueNode ξ)) (line : Position)
  | extension (x : ξ)

/-- Nodes that are executed for their effect. -/
inductive ImperativeNode (ξ : Type)
  /-- Pushes a value and hands it to a manipulation. -/
  | valueManipulation (value : ValueNode ξ) (manipulation : ManipulationNode ξ) (line : Position)
  /-- Statements in order. -/
  | block (children : List (ImperativeNode ξ)) (line : Position)
  | extension (x : ξ)

/-- Nodes that operate on a value that was left on the stack. -/
inductive ManipulationNode (ξ : Type)
  /-- Drops the value and executes a statement. -/
  | imperative (body : ImperativeNode ξ) (line : Position)
  /-- Assigns a property of the value. -/
  | assign (property : PropertyRef) (value : ValueNode ξ) (line : Position)
  /-- Applies several manipulations to the value. -/
  | group (children : List (ManipulationNode ξ)) (line : Position)
  | extension (x : ξ)

end

/-- A node of any role. -/
inductive Node (ξ : Type)
  | value (n : ValueNode ξ)
  | imperative (n : ImperativeNode ξ)
  | manipulation (n : ManipulationNode ξ)

/-- What the lowering has to know of a further kind of leaf, apart from the code it writes. -/
class Extension (ξ : Type) where
  /-- The name in diagnostics. -/
  name : ξ → String
  line : ξ → Position
  /-- Whether lowering the leaf looks at the enclosing nodes. -/
  needsParents : ξ → Bool
  /-- The type of the value, where the leaf stands for one. -/
  valueType : ξ → TypeRef

instance : Extension Empty where
  name := Empty.elim
  line := Empty.elim
  needsParents := Empty.elim
  valueType := Empty.elim

variable {ξ : Type} [Extension ξ]

/-! ### Names, lines and types -/

namespace ValueNode

/-- The name of a node in diagnostics. -/
def name : ValueNode ξ → String
  | .string .. => "StringConstantNode"
  | .localRef .. => "LocalRefNode"
  | .localInit .. => "LocalInitNode"
  | .beginInit _ => "BeginInitNode"
  | .contextLocal .. => "ContextLocalNode"
  | .cast .. => "RuntimeCastNode"
  | .parentStack .. => "NeedsParentStackNode"
  | .newObject .. => "NewObjectNode"
  | .extension x => Extension.name x

/-- The position of a node; a hook call stands where its value stands. -/
def line : ValueNode ξ → Position
  | .string _ _ line | .localRef _ line | .localInit _ _ line | .contextLocal _ line
  | .cast _ _ line | .parentStack _ line | .newObject _ _ line => line
  | .beginInit value => value.line
  | .extension x => Extension.line x

/-- Whether lowering the node itself looks at the enclosing nodes. -/
def needsParents : ValueNode ξ → Bool
  | .parentStack .. => true
  | .extension x => Extension.needsParents x
  | _ => false

/-- The type of the value that a node produces. -/
def valueType : ValueNode ξ → TypeRef
  | .string type _ _ => type
  | .localRef v _ => v.type
  | .localInit _ value _ => value.valueType
  | .beginInit value => value.valueType
  | .contextLocal type _ => type
  | .cast _ target _ => target
  | .parentStack value _ => value.valueType
  | .newObject constructor _ _ => constructor.declaring
  | .extension x => Extension.valueType x

end ValueNode

namespace ImperativeNode

/-- The name of a node in diagnostics. -/
def name : ImperativeNode ξ → String
  | .valueManipulation .. => "ValueManipulationNode"
  | .block .. => "ImperativeBlockNode"
  | .extension x => Extension.name x

/-- The position of a node. -/
def line : ImperativeNode ξ → Position
  | .valueManipulation _ _ line | .block _ line => line
  | .extension x => Extension.line x

/-- Whether lowering the node itself looks at the enclosing nodes. -/
def needsParents : ImperativeNode ξ → Bool
  | .extension x => Extension.needsParents x
  | _ => false

end ImperativeNode

namespace ManipulationNode

/-- The name of a node in diagnostics. -/
def name : ManipulationNode ξ → String
  | .imperative .. => "ManipulationImperativeNode"
  | .assign .. => "PropertyAssignmentNode"
  | .group .. => "ManipulationGroupNode"
  | .extension x => Extension.name x

/-- The position of a node. -/
def line : ManipulationNode ξ → Position
  | .imperative _ line | .assign _ _ line | .group _ line => line
  | .extension x => Extension.line x

/-- Whether lowering the node itself looks at the enclosing nodes. -/
def needsParents : ManipulationNode ξ → Bool
  | .extension x => Extension.needsParents x
  | _ => false

end ManipulationNode

namespace Node

def name : Node ξ → String
  | .value n => n.name
  | .imperative n => n.name
  | .manipulation n => n.name

def line : Node ξ → Position
  | .value n => n.line
  | .imperative n => n.line
  | .manipulation n => n.line

def needsParents : Node ξ → Bool
  | .value n => n.needsParents
  | .imperative n => n.needsParents
  | .manipulation n => n.needsParents

end Node

end MarkupLowering
