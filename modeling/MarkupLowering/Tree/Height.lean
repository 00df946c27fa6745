import MarkupLowering.Tree.Basic

/-!
# MarkupLowering.Tree.Height

The height of a node tree: the number of nodes on its longest path.
-/

namespace MarkupLowering

variable {ξ : Type}

mutual

/-- The number of nodes on the longest path from a value node to a leaf. -/
def ValueNode.height : ValueNode ξ → Nat
  | .string .. | .localRef .. | .contextLocal .. | .extension _ => 1
  | .localInit _ value _ | .beginInit value | .cast value _ _ | .parentStack value _ =>
    value.height + 1
  | .newObject _ arguments _ => valuesHeight arguments + 1

/-- The height of the highest of some value nodes. -/
def valuesHeight : List (ValueNode ξ) → Nat
  | [] => 0
  | n :: ns => max n.height (valuesHeight ns)

/-- The number of nodes on the longest path from an imperative node to a leaf. -/
def ImperativeNode.height : ImperativeNode ξ → Nat
  | .valueManipulation value manipulation _ => max value.height manipulation.height + 1
  | .block children _ => imperativesHeight children + 1
  | .extension _ => 1

/-- The height of the highest of some imperative nodes. -/
def imperativesHeight : List (ImperativeNode ξ) → Nat
  | [] => 0
  | n :: ns => max n.height (imperativesHeight ns)

/-- The number of nodes on the longest path from a manipulation node to a leaf. -/
def ManipulationNode.height : ManipulationNode ξ → Nat
  | .imperative body _ => body.height + 1
  | .assign _ value _ => value.height + 1
  | .group children _ => manipulationsHeight children + 1
  | .extension _ => 1

/-- The height of the highest of some manipulation nodes. -/
def manipulationsHeight : List (ManipulationNode ξ) → Nat
  | [] => 0
  | n :: ns => max n.height (manipulationsHeight ns)

end

/-- The height of a node of any role. -/
def Node.height : Node ξ → Nat
  | .value n => n.height
  | .imperative n => n.height
  | .manipulation n => n.height

end MarkupLowering
