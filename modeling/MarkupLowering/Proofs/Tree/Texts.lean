import MarkupLowering.Proofs.Tree.Walk

/-!
# MarkupLowering.Proofs.Tree.Texts

**Rewriting the texts of a tree.** A visitor that gives string nodes other texts and leaves all
other nodes alone rewrites every string node once, wherever it is, and nothing else.

* `Node.mapTexts` is the tree with other texts, by one case for each kind of node.
* `Visitor.RewritesTexts` says what the hooks do, each with the one node that it sees. The
  substitute of a string node is as high as the node, so the walk stays within its limit.
* `Visitor.walk_mapTexts` says what becomes of the tree. `Visitor.textRewriter` is such a visitor.
-/

namespace MarkupLowering

variable {σ ξ : Type}

/-! ### Trees with other texts -/

section Trees

variable (f : String → String)

mutual

/-- A value node whose texts are mapped. -/
def ValueNode.mapTexts : ValueNode ξ → ValueNode ξ
  | .string type text line => .string type (f text) line
  | .localRef l line => .localRef l line
  | .localInit l value line => .localInit l value.mapTexts line
  | .beginInit value => .beginInit value.mapTexts
  | .contextLocal type line => .contextLocal type line
  | .cast value target line => .cast value.mapTexts target line
  | .parentStack value line => .parentStack value.mapTexts line
  | .newObject c arguments line => .newObject c (argumentsMapTexts arguments) line
  | .extension x => .extension x

/-- Value nodes whose texts are mapped. -/
def argumentsMapTexts : List (ValueNode ξ) → List (ValueNode ξ)
  | [] => []
  | value :: values => value.mapTexts :: argumentsMapTexts values

/-- An imperative node whose texts are mapped. -/
def ImperativeNode.mapTexts : ImperativeNode ξ → ImperativeNode ξ
  | .valueManipulation value manipulation line =>
    .valueManipulation value.mapTexts manipulation.mapTexts line
  | .block children line => .block (statementsMapTexts children) line
  | .extension x => .extension x

/-- Imperative nodes whose texts are mapped. -/
def statementsMapTexts : List (ImperativeNode ξ) → List (ImperativeNode ξ)
  | [] => []
  | child :: children => child.mapTexts :: statementsMapTexts children

/-- A manipulation node whose texts are mapped. -/
def ManipulationNode.mapTexts : ManipulationNode ξ → ManipulationNode ξ
  | .imperative body line => .imperative body.mapTexts line
  | .assign property value line => .assign property value.mapTexts line
  | .group children line => .group (groupMapTexts children) line
  | .extension x => .extension x

/-- Manipulation nodes whose texts are mapped. -/
def groupMapTexts : List (ManipulationNode ξ) → List (ManipulationNode ξ)
  | [] => []
  | child :: children => child.mapTexts :: groupMapTexts children

end

/-- A tree whose texts are mapped. -/
def Node.mapTexts : Node ξ → Node ξ
  | .value n => .value (n.mapTexts f)
  | .imperative n => .imperative (n.mapTexts f)
  | .manipulation n => .manipulation (n.mapTexts f)

/-- A value node whose own text is mapped, if it has one. Its children stay as they are. -/
def ValueNode.mapText : ValueNode ξ → ValueNode ξ
  | .string type text line => .string type (f text) line
  | n => n

end Trees

/-! ### What texts have no part in -/

section Kept

variable (f : String → String)

@[simp] theorem length_argumentsMapTexts (values : List (ValueNode ξ)) :
    (argumentsMapTexts f values).length = values.length := by
  induction values with
  | nil => rfl
  | cons value values ih => exact congrArg Nat.succ ih

variable [Extension ξ]

@[simp] theorem ValueNode.name_mapTexts (n : ValueNode ξ) : (n.mapTexts f).name = n.name := by
  cases n <;> rfl

@[simp] theorem ValueNode.line_mapTexts : ∀ n : ValueNode ξ, (n.mapTexts f).line = n.line
  | .beginInit value => value.line_mapTexts
  | .string .. | .localRef .. | .localInit .. | .contextLocal .. | .cast .. | .parentStack ..
  | .newObject .. | .extension _ => rfl

@[simp] theorem ValueNode.valueType_mapTexts :
    ∀ n : ValueNode ξ, (n.mapTexts f).valueType = n.valueType
  | .localInit _ value _ | .beginInit value | .parentStack value _ => value.valueType_mapTexts
  | .string .. | .localRef .. | .contextLocal .. | .cast .. | .newObject .. | .extension _ => rfl

@[simp] theorem Node.name_mapTexts (n : Node ξ) : (n.mapTexts f).name = n.name := by
  cases n with
  | value n => exact n.name_mapTexts f
  | imperative n | manipulation n => cases n <;> rfl

@[simp] theorem Node.line_mapTexts (n : Node ξ) : (n.mapTexts f).line = n.line := by
  cases n with
  | value n => exact n.line_mapTexts f
  | imperative n | manipulation n => cases n <;> rfl

end Kept

/-! ### Visitors that rewrite texts -/

namespace Visitor

/-- The hooks map the text of every string node that they see, and return all other nodes. -/
structure RewritesTexts (f : String → String) (v : Visitor σ ξ) : Prop where
  value : ∀ n s, (v.onValue n s).1 = n.mapText f
  imperative : ∀ n s, (v.onImperative n s).1 = n
  manipulation : ∀ n s, (v.onManipulation n s).1 = n

/-- The step has a result from every state, and returns `a`. -/
def Returns {α : Type} (step : WalkM σ α) (a : α) : Prop := ∀ s, ∃ s', step s = some (a, s')

namespace Returns

variable {α β : Type} {a : α} {b : β}

protected theorem pure (a : α) : Returns (Pure.pure a : WalkM σ α) a := fun s => ⟨s, rfl⟩

theorem bind {step : WalkM σ α} {next : α → WalkM σ β} (h : Returns step a)
    (hnext : Returns (next a) b) : Returns (step >>= next) b := by
  intro s
  obtain ⟨s₁, hstep⟩ := h s
  obtain ⟨s₂, hrest⟩ := hnext s₁
  exact ⟨s₂, by simp only [Bind.bind, StateT.bind, hstep, Option.bind_some, hrest]⟩

/-- What is returned is built into something else. -/
theorem andPure {step : WalkM σ α} (h : Returns step a) (g : α → β) :
    Returns (do let a ← step; Pure.pure (g a)) (g a) := h.bind (.pure (g a))

theorem around {v : Visitor σ ξ} {n : Node ξ} {children : WalkM σ α} (h : Returns children a) :
    Returns (v.around n children) a := by
  have hpush : Returns (modify (v.push n)) ⟨⟩ := fun s => ⟨v.push n s, rfl⟩
  have hpop : Returns (modify v.pop) ⟨⟩ := fun s => ⟨v.pop s, rfl⟩
  exact hpush.bind (h.bind (hpop.andPure fun _ => a))

/-- A node is walked as what its hook puts in its place. -/
theorem node {v : Visitor σ ξ} {role : α → Node ξ} {step : StateM σ α} {children : α → WalkM σ α}
    {n : α} (hstep : ∀ s, (step s).1 = n) (h : Returns (children n) a) :
    Returns (do let n ← hook step; v.around (role n) (children n)) a := by
  have hhook : Returns (hook step) n :=
    fun s => ⟨(step s).2, congrArg some (Prod.ext (hstep s) rfl)⟩
  exact hhook.bind h.around

end Returns

section Walk

variable {v : Visitor σ ξ} {f : String → String}

mutual

/-- Walking a value node returns it with its texts mapped. -/
theorem returns_value (hv : v.RewritesTexts f) : ∀ (n : ValueNode ξ) {limit : Nat},
    n.height ≤ limit → Returns (v.walkValue limit n) (n.mapTexts f)
  | .string .., _, h | .localRef .., _, h | .contextLocal .., _, h | .extension _, _, h => by
    obtain ⟨limit, rfl, -⟩ := exists_limit h
    unfold walkValue ValueNode.mapTexts
    exact .node (hv.value _) (.pure _)
  | .localInit l value line, _, h => by
    obtain ⟨limit, rfl, hvalue⟩ := exists_limit h
    unfold walkValue ValueNode.mapTexts
    exact .node (hv.value _)
      ((returns_value hv value hvalue).andPure (ValueNode.localInit l · line))
  | .beginInit value, _, h => by
    obtain ⟨limit, rfl, hvalue⟩ := exists_limit h
    unfold walkValue ValueNode.mapTexts
    exact .node (hv.value _) ((returns_value hv value hvalue).andPure ValueNode.beginInit)
  | .cast value target line, _, h => by
    obtain ⟨limit, rfl, hvalue⟩ := exists_limit h
    unfold walkValue ValueNode.mapTexts
    exact .node (hv.value _)
      ((returns_value hv value hvalue).andPure (ValueNode.cast · target line))
  | .parentStack value line, _, h => by
    obtain ⟨limit, rfl, hvalue⟩ := exists_limit h
    unfold walkValue ValueNode.mapTexts
    exact .node (hv.value _)
      ((returns_value hv value hvalue).andPure (ValueNode.parentStack · line))
  | .newObject c arguments line, _, h => by
    obtain ⟨limit, rfl, harguments⟩ := exists_limit h
    unfold walkValue ValueNode.mapTexts
    exact .node (hv.value _)
      ((returns_arguments hv arguments harguments).andPure (ValueNode.newObject c · line))

/-- A walk through arguments returns them with their texts mapped. The limit is enough for each. -/
theorem returns_arguments (hv : v.RewritesTexts f) : ∀ (values : List (ValueNode ξ)) {limit : Nat},
    valuesHeight values ≤ limit →
      Returns (each (v.walkValue limit) values) (argumentsMapTexts f values)
  | [], _, _ => .pure []
  | value :: values, limit, h => by
    obtain ⟨hvalue, hvalues⟩ := Nat.max_le.mp h
    unfold argumentsMapTexts each
    exact (returns_value hv value hvalue).bind
      ((returns_arguments hv values hvalues).andPure (value.mapTexts f :: ·))

/-- Walking an imperative node returns it with its texts mapped. -/
theorem returns_imperative (hv : v.RewritesTexts f) : ∀ (n : ImperativeNode ξ) {limit : Nat},
    n.height ≤ limit → Returns (v.walkImperative limit n) (n.mapTexts f)
  | .valueManipulation value manipulation line, _, h => by
    obtain ⟨limit, rfl, hboth⟩ := exists_limit h
    obtain ⟨hvalue, hmanipulation⟩ := Nat.max_le.mp hboth
    unfold walkImperative ImperativeNode.mapTexts
    exact .node (hv.imperative _) ((returns_value hv value hvalue).bind
      ((returns_manipulation hv manipulation hmanipulation).andPure
        (ImperativeNode.valueManipulation (value.mapTexts f) · line)))
  | .block children line, _, h => by
    obtain ⟨limit, rfl, hchildren⟩ := exists_limit h
    unfold walkImperative ImperativeNode.mapTexts
    exact .node (hv.imperative _)
      ((returns_statements hv children hchildren).andPure (ImperativeNode.block · line))
  | .extension _, _, h => by
    obtain ⟨limit, rfl, -⟩ := exists_limit h
    unfold walkImperative ImperativeNode.mapTexts
    exact .node (hv.imperative _) (.pure _)

/-- A walk through statements returns them with their texts mapped. -/
theorem returns_statements (hv : v.RewritesTexts f) : ∀ (children : List (ImperativeNode ξ))
    {limit : Nat}, imperativesHeight children ≤ limit →
      Returns (each (v.walkImperative limit) children) (statementsMapTexts f children)
  | [], _, _ => .pure []
  | child :: children, limit, h => by
    obtain ⟨hchild, hchildren⟩ := Nat.max_le.mp h
    unfold statementsMapTexts each
    exact (returns_imperative hv child hchild).bind
      ((returns_statements hv children hchildren).andPure (child.mapTexts f :: ·))

/-- Walking a manipulation node returns it with its texts mapped. -/
theorem returns_manipulation (hv : v.RewritesTexts f) : ∀ (n : ManipulationNode ξ) {limit : Nat},
    n.height ≤ limit → Returns (v.walkManipulation limit n) (n.mapTexts f)
  | .imperative body line, _, h => by
    obtain ⟨limit, rfl, hbody⟩ := exists_limit h
    unfold walkManipulation ManipulationNode.mapTexts
    exact .node (hv.manipulation _)
      ((returns_imperative hv body hbody).andPure (ManipulationNode.imperative · line))
  | .assign property value line, _, h => by
    obtain ⟨limit, rfl, hvalue⟩ := exists_limit h
    unfold walkManipulation ManipulationNode.mapTexts
    exact .node (hv.manipulation _)
      ((returns_value hv value hvalue).andPure (ManipulationNode.assign property · line))
  | .group children line, _, h => by
    obtain ⟨limit, rfl, hchildren⟩ := exists_limit h
    unfold walkManipulation ManipulationNode.mapTexts
    exact .node (hv.manipulation _)
      ((returns_group hv children hchildren).andPure (ManipulationNode.group · line))
  | .extension _, _, h => by
    obtain ⟨limit, rfl, -⟩ := exists_limit h
    unfold walkManipulation ManipulationNode.mapTexts
    exact .node (hv.manipulation _) (.pure _)

/-- A walk through the children of a group returns them with their texts mapped. -/
theorem returns_group (hv : v.RewritesTexts f) : ∀ (children : List (ManipulationNode ξ))
    {limit : Nat}, manipulationsHeight children ≤ limit →
      Returns (each (v.walkManipulation limit) children) (groupMapTexts f children)
  | [], _, _ => .pure []
  | child :: children, limit, h => by
    obtain ⟨hchild, hchildren⟩ := Nat.max_le.mp h
    unfold groupMapTexts each
    exact (returns_manipulation hv child hchild).bind
      ((returns_group hv children hchildren).andPure (child.mapTexts f :: ·))

end

/-- The walk maps the text of every string node once and changes nothing else. -/
theorem walk_mapTexts (hv : v.RewritesTexts f) (n : Node ξ) (s : σ) :
    ∃ s', v.walk n s = some (n.mapTexts f, s') := by
  unfold walk
  cases n with
  | value n =>
    obtain ⟨s', hwalk⟩ := returns_value hv n (Nat.le_add_right n.height v.growth) s
    exact ⟨s', congrArg (Option.map _) hwalk⟩
  | imperative n =>
    obtain ⟨s', hwalk⟩ := returns_imperative hv n (Nat.le_add_right n.height v.growth) s
    exact ⟨s', congrArg (Option.map _) hwalk⟩
  | manipulation n =>
    obtain ⟨s', hwalk⟩ := returns_manipulation hv n (Nat.le_add_right n.height v.growth) s
    exact ⟨s', congrArg (Option.map _) hwalk⟩

end Walk

/-- A visitor that maps texts, and counts the nodes around the one that it is at. -/
def textRewriter (f : String → String) : Visitor Nat ξ where
  onValue n := pure (n.mapText f)
  push _ depth := depth + 1
  pop depth := depth - 1

theorem rewritesTexts_textRewriter (f : String → String) :
    (textRewriter f : Visitor Nat ξ).RewritesTexts f :=
  ⟨fun _ _ => rfl, fun _ _ => rfl, fun _ _ => rfl⟩

end Visitor

end MarkupLowering
