import MarkupLowering.Tree.Height

/-!
# MarkupLowering.Tree.Visitor

**Walking** node trees and putting other nodes in the place of theirs.

A visitor sees each node before its children. The hook for the node's role may put another node
in its place; it is the substitute that is then pushed, and whose children are walked. After the
children the node is popped.

A hook could put ever higher trees in place, so a walk is limited: substitutes may make the tree
higher by `Visitor.growth` altogether. A walk that exceeds the limit has no result.
-/

namespace MarkupLowering

/-- What to do at the nodes of a tree, with a state `σ`. -/
structure Visitor (σ ξ : Type) where
  onValue : ValueNode ξ → StateM σ (ValueNode ξ) := pure
  onImperative : ImperativeNode ξ → StateM σ (ImperativeNode ξ) := pure
  onManipulation : ManipulationNode ξ → StateM σ (ManipulationNode ξ) := pure
  /-- Runs before the children of a node are walked. -/
  push : Node ξ → σ → σ := fun _ s => s
  /-- Runs after the children of the node pushed last. -/
  pop : σ → σ := id
  /-- How much higher the substitutes may make a path. -/
  growth : Nat := 0

namespace Visitor

variable {σ ξ : Type}

/-- A step of a walk. -/
abbrev WalkM (σ : Type) := StateT σ Option

/-- Runs a hook. -/
def hook {α : Type} (h : StateM σ α) : WalkM σ α := fun s => some (h s)

/-- Runs a step between the push and the pop of a node. -/
def around {α : Type} (v : Visitor σ ξ) (n : Node ξ) (children : WalkM σ α) : WalkM σ α := do
  modify (v.push n)
  let a ← children
  modify v.pop
  pure a

/-- Applies a step to the elements of a list in order. -/
def each {α : Type} (f : α → WalkM σ α) : List α → WalkM σ (List α)
  | [] => pure []
  | a :: as => do
    let a ← f a
    let as ← each f as
    pure (a :: as)

mutual

/-- Walks a value node, on paths of at most `limit` nodes. -/
def walkValue (v : Visitor σ ξ) : Nat → ValueNode ξ → WalkM σ (ValueNode ξ)
  | 0, _ => fun _ => none
  | limit + 1, n => do
    let n ← hook (v.onValue n)
    v.around (.value n) <| match n with
      | .localInit l value line => do
        pure (.localInit l (← walkValue v limit value) line)
      | .beginInit value => do
        pure (.beginInit (← walkValue v limit value))
      | .cast value target line => do
        pure (.cast (← walkValue v limit value) target line)
      | .parentStack value line => do
        pure (.parentStack (← walkValue v limit value) line)
      | .newObject constructor arguments line => do
        pure (.newObject constructor (← each (walkValue v limit) arguments) line)
      | leaf => pure leaf

/-- Walks an imperative node, on paths of at most `limit` nodes. -/
def walkImperative (v : Visitor σ ξ) : Nat → ImperativeNode ξ → WalkM σ (ImperativeNode ξ)
  | 0, _ => fun _ => none
  | limit + 1, n => do
    let n ← hook (v.onImperative n)
    v.around (.imperative n) <| match n with
      | .valueManipulation value manipulation line => do
        let value ← walkValue v limit value
        let manipulation ← walkManipulation v limit manipulation
        pure (.valueManipulation value manipulation line)
      | .block children line => do
        pure (.block (← each (walkImperative v limit) children) line)
      | leaf => pure leaf

/-- Walks a manipulation node, on paths of at most `limit` nodes. -/
def walkManipulation (v : Visitor σ ξ) : Nat → ManipulationNode ξ → WalkM σ (ManipulationNode ξ)
  | 0, _ => fun _ => none
  | limit + 1, n => do
    let n ← hook (v.onManipulation n)
    v.around (.manipulation n) <| match n with
      | .imperative body line => do
        pure (.imperative (← walkImperative v limit body) line)
      | .assign property value line => do
        pure (.assign property (← walkValue v limit value) line)
      | .group children line => do
        pure (.group (← each (walkManipulation v limit) children) line)
      | leaf => pure leaf

end

/-- Walks a tree, from a state to the resulting tree and a state. -/
def walk (v : Visitor σ ξ) (n : Node ξ) (s : σ) : Option (Node ξ × σ) :=
  let limit := n.height + v.growth
  match n with
  | .value n => (v.walkValue limit n s).map fun (n, s) => (.value n, s)
  | .imperative n => (v.walkImperative limit n s).map fun (n, s) => (.imperative n, s)
  | .manipulation n => (v.walkManipulation limit n s).map fun (n, s) => (.manipulation n, s)

/-! ### Scanning -/

variable [Extension ξ]

/-- Notes whether some node needs its enclosing nodes. -/
def parentScan : Visitor Bool ξ where
  push n found := found || n.needsParents

end Visitor

/-- Whether some node of a tree needs its enclosing nodes. -/
def Node.scanParents {ξ : Type} [Extension ξ] (n : Node ξ) : Bool :=
  match Visitor.parentScan.walk n false with
  | some (_, found) => found
  | none => false

end MarkupLowering
