import MarkupLowering.Tree.Visitor

/-!
# MarkupLowering.Tree.Rules

**Replacement rules**: a visitor that puts given nodes in the place of nodes with given names, a
limited number of times, and keeps a log of its walk.
-/

namespace MarkupLowering

/-- What happens on a walk. -/
inductive WalkEvent
  /-- The hook of a role sees a node, before any replacement. -/
  | hook (role name : String)
  /-- A node is pushed, to the given depth. -/
  | push (name : String) (depth : Nat)
  /-- The node at the given depth is popped. -/
  | pop (depth : Nat)
  deriving DecidableEq

/-- The text of an event. -/
def WalkEvent.render : WalkEvent → String
  | .hook role name => role ++ " " ++ name
  | .push name depth => "push " ++ name ++ " " ++ toString depth
  | .pop depth => "pop " ++ toString depth

/-- Puts a node in the place of nodes named `target`, up to `left` times. For each role there is
the substitute, or the reason why the rule has none; the reason counts only if the rule is used. -/
structure Rule (ε ξ : Type) where
  target : String
  left : Nat
  value : Except ε (ValueNode ξ)
  imperative : Except ε (ImperativeNode ξ)
  manipulation : Except ε (ManipulationNode ξ)

/-- The rules still in force and the log, the latest event last. -/
structure RuleState (ε ξ : Type) where
  rules : List (Rule ε ξ)
  depth : Nat := 0
  events : Array WalkEvent := #[]
  /-- Why the first rule that was used without substitute had none. -/
  failure : Option ε := none

variable {ε ξ : Type}

namespace Rule

/-- The first rule in force for a name, and the rules after its use. -/
def use (name : String) : List (Rule ε ξ) → Option (Rule ε ξ) × List (Rule ε ξ)
  | [] => (none, [])
  | r :: rs =>
    if r.target == name && r.left > 0 then (some r, { r with left := r.left - 1 } :: rs)
    else
      let (found, rs) := use name rs
      (found, r :: rs)

/-- The height of a substitute, if there is one. -/
def substituteHeight {α : Type} (height : α → Nat) : Except ε α → Nat
  | .ok n => height n
  | .error _ => 0

/-- How much the rule can add to the height of a path. -/
def growth (r : Rule ε ξ) : Nat :=
  r.left * max (substituteHeight ValueNode.height r.value)
    (max (substituteHeight ImperativeNode.height r.imperative)
      (substituteHeight ManipulationNode.height r.manipulation))

/-- The hook of a role: logs the node and replaces it if a rule says so. A node whose rule has no
substitute stays in its place, and the walk has failed. -/
def hook {α : Type} (role : String) (name : α → String) (pick : Rule ε ξ → Except ε α) (n : α) :
    StateM (RuleState ε ξ) α := fun s =>
  let (rule, rules) := use (name n) s.rules
  let s := { s with rules, events := s.events.push (.hook role (name n)) }
  match rule.map pick with
  | none => (n, s)
  | some (.ok substitute) => (substitute, s)
  | some (.error e) => (n, { s with failure := s.failure.or (some e) })

variable [Extension ξ]

/-- The visitor that applies rules. -/
def visitor (rules : List (Rule ε ξ)) : Visitor (RuleState ε ξ) ξ where
  onValue := hook "value" ValueNode.name Rule.value
  onImperative := hook "imperative" ImperativeNode.name Rule.imperative
  onManipulation := hook "manipulation" ManipulationNode.name Rule.manipulation
  push n s := { s with depth := s.depth + 1, events := s.events.push (.push n.name (s.depth + 1)) }
  pop s := { s with depth := s.depth - 1, events := s.events.push (.pop s.depth) }
  growth := rules.foldl (fun sum r => sum + r.growth) 0

/-- Applies rules to a tree, and tells what happened; or why the first rule that was used without
substitute had none. -/
def apply (rules : List (Rule ε ξ)) (n : Node ξ) :
    Option (Except ε (Node ξ × Array WalkEvent)) :=
  ((visitor rules).walk n { rules }).map fun (n, s) =>
    match s.failure with
    | none => .ok (n, s.events)
    | some e => .error e

end Rule

end MarkupLowering
