import MarkupLowering.Proofs.Emitter.OperandKinds
import MarkupLowering.Proofs.Lowering.Simulation
import MarkupLowering.Proofs.Tree.Walk

/-!
# MarkupLowering.Proofs.Lowering.Parents

**Markers that need enclosing nodes.** A marker fails if no node is around it, unless another marker
was found to have one before. A scan of the tree tells whether there are markers at all.

That a marker was found to have enclosing nodes is kept in a flag of the context. The flag is read
and set in the midst of lowering, so it is tied to something that can be looked at afterwards: the
trace of what was dispatched, each node with the nodes around it.

* `Node.scanParents_iff`: the scan finds the nodes that need enclosing nodes, wherever they are.
* `Context.Accounts` is what one step makes of flag and trace: the flag is set if it was, or if a
  marker was dispatched below some node. `Heeds` says that of a step for all states. As in
  `Traversal`, every kind of node is gone through once (`heeds_lower`), and the marker is the only
  case that does not just pass on what its parts do.
* Which nodes these are is known from the traversal (`Node.exists_seen`). In a tree, the root is the
  only node that can be without enclosing nodes, and only if there were none before.
* `Series` are the states in which trees are lowered one after the other. `Series.verified_iff` is
  their invariant, and follows by induction from what one tree does.
* `scanParents_predicts` is the main statement.
-/

namespace MarkupLowering

open Emission LowerM

variable {ξ : Type}

/-- Whether a node marks that its value looks at the enclosing nodes. -/
def Node.isMarker : Node ξ → Bool
  | .value (.parentStack ..) => true
  | _ => false

/-- A marker that was dispatched below some node. From then on no marker fails. -/
def Dispatch.Verifies (d : Dispatch ξ) : Prop := d.node.isMarker = true ∧ d.parents ≠ []

/-- The result is the failure of a marker that has no enclosing nodes. -/
def MissesParents {σ α : Type} (r : EStateM.Result EmitError σ α) : Prop :=
  ∃ name line, Result.error? r = some (.missingParentStack name line)

/-- Leaves of a further kind that do not ask for enclosing nodes. -/
structure LeavesIndifferent (ξ : Type) [ExtensionCode ξ] : Prop where
  /-- The scan passes them by. -/
  needsParents : ∀ x : ξ, Extension.needsParents x = false
  /-- Their code does not fail in the way a marker does. -/
  code : ∀ (x : ξ) (s : Emission), ¬ MissesParents (ExtensionCode.code x s)

/-! ### Scanning -/

section Scan

variable [Extension ξ]

/-- The scan leaves the tree as it is, so a walk with it is the list of its calls. -/
theorem Visitor.substitutesNothing_parentScan :
    (parentScan : Visitor Bool ξ).SubstitutesNothing :=
  ⟨fun _ _ => rfl, fun _ _ => rfl, fun _ _ => rfl⟩

/-- The scan notes what is pushed. -/
theorem Visitor.performAll_parentScan (calls : List (Call ξ)) (found : Bool) :
    parentScan.performAll calls found =
      (found || (calls.filterMap Call.pushed?).any Node.needsParents) := by
  induction calls generalizing found with
  | nil => simp [performAll]
  | cons c calls ih =>
    rw [performAll_cons, ih]
    cases c with
    | hook n => cases n <;> rfl
    | push n =>
      show (found || n.needsParents || _) = _
      simp [Call.pushed?, Bool.or_assoc]
    | pop => rfl

omit [Extension ξ] in
/-- The nodes that some calls see, without what is around them. -/
theorem Call.node_seen (which : Call ξ → Option (Node ξ)) (before : List (Node ξ))
    (calls : List (Call ξ)) :
    (seen which before calls).map Dispatch.node = calls.filterMap which := by
  induction calls generalizing before with
  | nil => rfl
  | cons c calls ih =>
    rw [seen, List.map_append, ih, List.filterMap_cons]
    cases which c <;> rfl

omit [Extension ξ] in
/-- What is pushed are the nodes of the tree. -/
theorem Node.pushed_calls (n : Node ξ) :
    n.calls.filterMap Call.pushed? = n.occurrences.map (·.node) := by
  rw [← Call.node_seen Call.pushed? [] n.calls, n.calls_cover.pushes, List.map_map]
  rfl

/-- The scan finds a node that needs enclosing nodes, at any depth. -/
theorem Node.scanParents_iff (n : Node ξ) :
    n.scanParents = true ↔ ∃ o ∈ n.occurrences, o.node.needsParents = true := by
  rw [scanParents, Visitor.walk_eq Visitor.substitutesNothing_parentScan]
  show Visitor.parentScan.performAll n.calls false = true ↔ _
  rw [Visitor.performAll_parentScan, n.pushed_calls]
  simp

/-- A marker needs enclosing nodes. That nothing else does holds only if further leaves do not
(`Node.needsParents_iff`). -/
theorem Node.needsParents_of_isMarker {n : Node ξ} (h : n.isMarker = true) :
    n.needsParents = true := by
  unfold isMarker at h
  split at h
  · rfl
  · cases h

end Scan

/-- Of the built-in nodes only markers need enclosing nodes. -/
theorem Node.needsParents_iff [ExtensionCode ξ] (hleaf : LeavesIndifferent ξ) (n : Node ξ) :
    n.needsParents = true ↔ n.isMarker = true := by
  refine ⟨fun h => ?_, needsParents_of_isMarker⟩
  cases n with
  | value n =>
    cases n with
    | parentStack => rfl
    | extension x =>
      exact absurd h (by simp [needsParents, ValueNode.needsParents, hleaf.needsParents])
    | _ => cases h
  | imperative n =>
    cases n with
    | extension x =>
      exact absurd h (by simp [needsParents, ImperativeNode.needsParents, hleaf.needsParents])
    | _ => cases h
  | manipulation n =>
    cases n with
    | extension x =>
      exact absurd h (by simp [needsParents, ManipulationNode.needsParents, hleaf.needsParents])
    | _ => cases h

/-! ### The flag and what was dispatched -/

/-- From one context to another some nodes were dispatched, and the flag was set if one of them
verifies. If a marker was missing its enclosing nodes, then no marker had had any before, and it
is one of these nodes. -/
def Context.Accounts (c c' : Context ξ) (missing : Prop) : Prop :=
  ∃ seen, c'.trace = seen ++ c.trace ∧
    (c'.parentsVerified = true ↔ c.parentsVerified = true ∨ ∃ d ∈ seen, d.Verifies) ∧
    (missing → c.parentsVerified = false ∧ ∃ d ∈ seen, d.node.isMarker = true ∧ d.parents = [])

namespace Context.Accounts

variable {c c₁ c₂ : Context ξ} {missing : Prop}

/-- Nothing was dispatched and nothing changed. -/
theorem refl (c : Context ξ) (h : ¬ missing) : c.Accounts c missing :=
  ⟨[], rfl, by simp, fun hmissing => absurd hmissing h⟩

/-- Nothing was dispatched, but slots may have been defined. -/
theorem of_eq (htrace : c₁.trace = c.trace) (hverified : c₁.parentsVerified = c.parentsVerified)
    (h : ¬ missing) : c.Accounts c₁ missing :=
  ⟨[], htrace, by simp [hverified], fun hmissing => absurd hmissing h⟩

/-- One part after another. The first one has not failed. If the second fails for want of enclosing
nodes, the flag was not set before it, and since it is never taken back, not before the first one
either. -/
theorem trans (h : c.Accounts c₁ False) (h' : c₁.Accounts c₂ missing) : c.Accounts c₂ missing := by
  obtain ⟨seen, htrace, hverified, -⟩ := h
  obtain ⟨seen', htrace', hverified', hmissing⟩ := h'
  refine ⟨seen' ++ seen, by rw [htrace', htrace, List.append_assoc], ?_, fun hm => ?_⟩
  · rw [hverified', hverified, or_assoc]
    simp only [List.mem_append, or_and_right, exists_or]
    rw [or_comm (a := ∃ d, d ∈ seen' ∧ d.Verifies)]
  · obtain ⟨hunverified, d, hd, hmarker⟩ := hmissing hm
    refine ⟨?_, d, List.mem_append_left _ hd, hmarker⟩
    cases hflag : c.parentsVerified with
    | false => rfl
    | true => exact absurd (hverified.mpr (Or.inl hflag)) (by simp [hunverified])

end Context.Accounts

/-- A step that sets the flag for the markers that it dispatches, and fails for want of enclosing
nodes only where such a marker has none. -/
def Heeds {α : Type} (step : LowerM ξ α) : Prop :=
  ∀ s : LowerState ξ,
    s.context.Accounts (Result.state (step s)).context (MissesParents (step s))

/-- The same of the own code of a node, which runs with the node on the chain. -/
def HeedsWithin {α : Type} (n : Node ξ) (code : LowerM ξ α) : Prop :=
  ∀ s : LowerState ξ,
    s.context.Accounts (Result.state (code { s with context := s.context.enter n })).context
      (MissesParents (code { s with context := s.context.enter n }))

/-- Emitters know nothing of nodes, and have no such error. -/
theorem not_missesParents_emit (op : Opcode) (x : Operand) (s : Emission) :
    ¬ MissesParents (Emission.emit op x s) := by
  rintro ⟨name, line, h⟩
  have hrefused := (emit_error_iff.mp (Result.eq_error h)).2
  cases hrefused with
  | lacks _ _ hlacks => cases hlacks

theorem not_missesParents_defineLocal (type : TypeRef) (s : Emission) :
    ¬ MissesParents (Emission.defineLocal type s) := by
  rintro ⟨name, line, h⟩
  unfold Emission.defineLocal at h
  dsimp only at h
  split at h <;> cases h

namespace Heeds

variable {α β : Type}

protected theorem pure (a : α) : Heeds (Pure.pure a : LowerM ξ α) :=
  fun s => .refl s.context nofun

/-- Other failures leave the flag alone. -/
theorem throw {e : EmitError} (he : ∀ name line, e ≠ .missingParentStack name line) :
    Heeds (throw e : LowerM ξ α) :=
  fun s => .refl s.context fun ⟨name, line, h⟩ => he name line (Option.some.inj h)

/-- Where the first step fails, the sequence fails in the same way. Otherwise the contexts are
joined by `Context.Accounts.trans`. -/
theorem bind {step : LowerM ξ α} {next : α → LowerM ξ β} (h : Heeds step)
    (hnext : ∀ a, Heeds (next a)) : Heeds (step >>= next) := by
  intro s
  have hfirst := h s
  simp only [Bind.bind, EStateM.bind]
  cases hstep : step s with
  | error e s₁ =>
    rw [hstep] at hfirst
    exact hfirst
  | ok a s₁ =>
    rw [hstep] at hfirst
    have hsecond := hnext a s₁
    obtain ⟨seen, htrace, hverified, -⟩ := hfirst
    exact Context.Accounts.trans ⟨seen, htrace, hverified, False.elim⟩ hsecond

/-- A step that looks at the state first. -/
theorem get_bind {next : LowerState ξ → LowerM ξ α} (h : ∀ s, Heeds (next s)) :
    Heeds (get >>= next) := fun s => h s s

/-- Steps of emission do not change the context. -/
theorem emitting {step : EmitM α} (h : ∀ s, ¬ MissesParents (step s)) :
    Heeds (LowerM.emitting step : LowerM ξ α) := by
  intro s
  have hstep := h s.emission
  unfold LowerM.emitting
  cases hresult : step s.emission with
  | ok a emission => exact .refl s.context nofun
  | error e emission =>
    rw [hresult] at hstep
    exact .refl s.context hstep

theorem emit (op : Opcode) (x : Operand) :
    Heeds (LowerM.emitting (Emission.emit op x) : LowerM ξ Unit) :=
  emitting (not_missesParents_emit op x)

theorem loadLocal (l : CompilerLocal) (line : Position) :
    Heeds (LowerM.loadLocal l line : LowerM ξ Unit) := by
  refine get_bind fun s => ?_
  cases s.context.slot? l with
  | none => exact .throw nofun
  | some slot => exact emit _ _

theorem storeLocal (l : CompilerLocal) : Heeds (LowerM.storeLocal l : LowerM ξ Unit) := by
  refine Heeds.bind ?_ fun slot => emit _ _
  refine get_bind fun s => ?_
  cases s.context.slot? l with
  | some slot => exact .pure _
  | none =>
    refine (emitting (not_missesParents_defineLocal l.type)).bind fun slot => ?_
    -- the slot is noted in the context, beside flag and trace
    exact fun s => .of_eq rfl rfl nofun

/-! Dispatch. The node is recorded when it is entered, before its code runs. So what is proved of
the code is stated from the context around the node (`HeedsWithin`), where the marker differs. -/

/-- A node that is no marker leaves the flag to the nodes below it. -/
theorem within {n : Node ξ} (hn : n.isMarker = false) {code : LowerM ξ α} (h : Heeds code) :
    HeedsWithin n code := by
  intro s
  have hentered : s.context.Accounts (s.context.enter n) False := by
    refine ⟨[⟨n, s.context.ancestors⟩], s.context.trace_enter n, ?_, False.elim⟩
    simp [Context.enter, Dispatch.Verifies, hn]
  exact hentered.trans (h { s with context := s.context.enter n })

/-- The check of a node that has just been put on the chain. What it finds around the node is what
was on the chain before, since `Context.parents` leaves out the node itself. -/
theorem verifyParents_enter (n : Node ξ) (name : String) (line : Position) (s : LowerState ξ) :
    verifyParents name line { s with context := s.context.enter n } =
      if s.context.parentsVerified = true ∨ s.context.ancestors ≠ [] then
        .ok () { s with context := { s.context.enter n with parentsVerified := true } }
      else .error (.missingParentStack name line) { s with context := s.context.enter n } := by
  unfold verifyParents
  rw [MarkupLowering.get_bind]
  have hflag : (s.context.enter n).parentsVerified = s.context.parentsVerified := rfl
  dsimp only
  by_cases hverified : s.context.parentsVerified = true
  · have hsame : { s.context.enter n with parentsVerified := true } = s.context.enter n := by
      simp [Context.enter, hverified]
    rw [if_pos (hflag.trans hverified), if_pos (Or.inl hverified), hsame]
    rfl
  · rw [if_neg (hflag ▸ hverified), Context.parents_enter]
    cases hancestors : s.context.ancestors with
    | nil =>
      simp [hverified]
      rfl
    | cons a as =>
      simp
      rfl

/-- A marker sets the flag if there are nodes around it, and fails if there are none and the flag is
not set. -/
theorem within_marker {value : ValueNode ξ} {line : Position} {name : String}
    {rest : Unit → LowerM ξ α} (h : Heeds (rest ())) :
    HeedsWithin (.value (.parentStack value line)) (verifyParents name line >>= rest) := by
  intro s
  simp only [Bind.bind, EStateM.bind, verifyParents_enter]
  by_cases hgranted : s.context.parentsVerified = true ∨ s.context.ancestors ≠ []
  -- the flag is set now, and it was before or this very dispatch verifies
  · rw [if_pos hgranted]
    refine Context.Accounts.trans ⟨[⟨_, s.context.ancestors⟩], rfl, ?_, False.elim⟩ (h _)
    simpa [Dispatch.Verifies, Node.isMarker] using hgranted
  -- the marker itself is what misses its enclosing nodes
  · rw [if_neg hgranted]
    obtain ⟨hunverified, halone⟩ := not_or.mp hgranted
    have hnone : s.context.ancestors = [] := Decidable.not_not.mp halone
    refine ⟨[⟨.value (.parentStack value line), s.context.ancestors⟩], rfl, ?_, fun _ => ?_⟩
    · simp [Context.enter, Dispatch.Verifies, hnone]
    · exact ⟨by simpa using hunverified, _, List.mem_singleton_self _, rfl, hnone⟩

/-- Captures do not touch the context. -/
theorem captured {n : Node ξ} {code : LowerM ξ α} (h : HeedsWithin n code) (line : Position) :
    HeedsWithin n (captured line code) := by
  intro s
  unfold LowerM.captured
  dsimp only
  cases (s.context.enter n).file with
  | none => exact h s
  | some file =>
    dsimp only
    by_cases hline : line.isSynthetic = true
    · rw [if_pos hline]
      exact h s
    · rw [if_neg hline]
      have hin := h { s with emission := (s.emission.beginCapture file line).2 }
      unfold LowerM.andThen
      dsimp only at hin ⊢
      cases hcode : code ⟨(s.emission.beginCapture file line).2, s.context.enter n⟩ with
      | ok a s' | error e s' =>
        rw [hcode] at hin
        exact hin

/-- The node is taken off the chain again, which neither flag nor trace notices. -/
theorem dispatch [Extension ξ] {n : Node ξ} {code : LowerM ξ α} (h : HeedsWithin n code) :
    Heeds (dispatch n code) := by
  intro s
  have hin := captured h n.line s
  unfold LowerM.dispatch LowerM.andThen
  cases hcode : LowerM.captured n.line code { s with context := s.context.enter n } with
  | ok a s' | error e s' =>
    rw [hcode] at hin
    exact hin

/-- A breach of a contract is another failure. -/
theorem breach [Extension ξ] (n : Node ξ) (b : Breach) : Heeds (breach n b : LowerM ξ α) :=
  .throw nofun

theorem checkValue [Extension ξ] (h : Hierarchy) (n : Node ξ) (expected : TypeRef)
    (effect : StackEffect) : Heeds (checkValue h n expected effect) := by
  unfold LowerM.checkValue
  split
  · exact breach n _
  · split
    · exact breach n _
    · split
      · exact breach n _
      · split
        · exact (emit _ _).bind fun _ => .pure _
        · exact .pure _

theorem checkImperative [Extension ξ] (n : Node ξ) (effect : StackEffect) :
    Heeds (checkImperative n effect) := by
  unfold LowerM.checkImperative
  split
  · exact breach n _
  · split
    · exact breach n _
    · exact .pure _

theorem checkManipulation [Extension ξ] (n : Node ξ) (effect : StackEffect) :
    Heeds (checkManipulation n effect) := by
  unfold LowerM.checkManipulation
  split
  · exact breach n _
  · split
    · exact breach n _
    · exact .pure _

end Heeds

section Code

variable (env : Environment)

theorem heeds_callHook (type : TypeRef) : Heeds (callHook env type : LowerM ξ Unit) := by
  unfold callHook
  split
  · exact .pure _
  · exact (Heeds.emit _ _).bind fun _ => Heeds.emit _ _

theorem heeds_convert (target : TypeRef) : Heeds (convert target : LowerM ξ Unit) := by
  unfold convert
  split
  · exact Heeds.emit _ _
  · exact Heeds.emit _ _

theorem heeds_loadContext (line : Position) : Heeds (loadContext line : LowerM ξ Unit) := by
  refine Heeds.get_bind fun s => ?_
  cases s.context.contextLocal with
  | none => exact .throw nofun
  | some slot => exact Heeds.emit _ _

variable [ExtensionCode ξ]

theorem heeds_deliver {n : ValueNode ξ} {code : LowerM ξ StackEffect}
    (h : HeedsWithin (.value n) code) (expected : TypeRef) : Heeds (deliver env n expected code) :=
  (Heeds.dispatch h).bind fun effect => .checkValue _ _ _ effect

theorem heeds_execute {n : ImperativeNode ξ} {code : LowerM ξ StackEffect} (h : Heeds code) :
    Heeds (execute n code) :=
  (Heeds.dispatch (Heeds.within rfl h)).bind fun effect => .checkImperative _ effect

theorem heeds_manipulate {n : ManipulationNode ξ} {code : LowerM ξ StackEffect} (h : Heeds code) :
    Heeds (manipulate n code) :=
  (Heeds.dispatch (Heeds.within rfl h)).bind fun effect => .checkManipulation _ effect

mutual

/-- The code of a value node heeds the markers, the node itself included. -/
theorem heeds_value (hleaf : LeavesIndifferent ξ) :
    ∀ n : ValueNode ξ, HeedsWithin (.value n) (n.code env)
  | .string type text line => by
    unfold ValueNode.code
    exact Heeds.within rfl ((Heeds.emit _ _).bind fun _ => .pure _)
  | .localRef l line => by
    unfold ValueNode.code
    exact Heeds.within rfl ((Heeds.loadLocal l line).bind fun _ => .pure _)
  | .localInit l value line => by
    unfold ValueNode.code
    refine Heeds.within rfl ((heeds_deliver env (heeds_value hleaf value) _).bind fun _ => ?_)
    exact (Heeds.emit _ _).bind fun _ => (Heeds.storeLocal l).bind fun _ => .pure _
  | .beginInit value => by
    unfold ValueNode.code
    refine Heeds.within rfl ((heeds_deliver env (heeds_value hleaf value) _).bind fun _ => ?_)
    exact (heeds_callHook env _).bind fun _ => .pure _
  | .contextLocal type line => by
    unfold ValueNode.code
    exact Heeds.within rfl ((heeds_loadContext line).bind fun _ => .pure _)
  | .cast value target line => by
    unfold ValueNode.code
    refine Heeds.within rfl ((heeds_deliver env (heeds_value hleaf value) _).bind fun _ => ?_)
    exact (heeds_convert target).bind fun _ => .pure _
  | .parentStack value line => by
    unfold ValueNode.code
    exact Heeds.within_marker (heeds_deliver env (heeds_value hleaf value) _)
  | .newObject c arguments line => by
    unfold ValueNode.code
    refine Heeds.within rfl ?_
    split
    · refine (heeds_arguments hleaf arguments c.params).bind fun _ => ?_
      exact (Heeds.emit _ _).bind fun _ => .pure _
    · exact .breach _ _
  | .extension x => by
    unfold ValueNode.code
    exact Heeds.within rfl (Heeds.emitting (hleaf.code x))

/-- Arguments are delivered one after the other, as many as both lists have. -/
theorem heeds_arguments (hleaf : LeavesIndifferent ξ) :
    ∀ (values : List (ValueNode ξ)) (params : List TypeRef),
      Heeds (argumentsCode env values params)
  | value :: values, param :: params => by
    unfold argumentsCode
    refine (heeds_deliver env (heeds_value hleaf value) _).bind fun _ => ?_
    exact heeds_arguments hleaf values params
  | [], _ => by
    unfold argumentsCode
    exact .pure _
  | _ :: _, [] => by
    unfold argumentsCode
    exact .pure _

/-- The code of a statement heeds the markers. -/
theorem heeds_imperative (hleaf : LeavesIndifferent ξ) : ∀ n : ImperativeNode ξ, Heeds (n.code env)
  | .valueManipulation value manipulation line => by
    unfold ImperativeNode.code
    refine (heeds_deliver env (heeds_value hleaf value) _).bind fun _ => ?_
    exact (heeds_manipulate (heeds_manipulation hleaf manipulation)).bind fun _ => .pure _
  | .block children line => by
    unfold ImperativeNode.code
    exact (heeds_statements hleaf children).bind fun _ => .pure _
  | .extension x => by
    unfold ImperativeNode.code
    exact Heeds.emitting (hleaf.code x)

/-- Statements are executed one after the other. -/
theorem heeds_statements (hleaf : LeavesIndifferent ξ) :
    ∀ children : List (ImperativeNode ξ), Heeds (statementsCode env children)
  | [] => by
    unfold statementsCode
    exact .pure _
  | child :: children => by
    unfold statementsCode
    exact (heeds_execute (heeds_imperative hleaf child)).bind
      fun _ => heeds_statements hleaf children

/-- The code of a manipulation heeds the markers. -/
theorem heeds_manipulation (hleaf : LeavesIndifferent ξ) :
    ∀ n : ManipulationNode ξ, Heeds (n.code env)
  | .imperative body line => by
    unfold ManipulationNode.code
    refine (Heeds.emit _ _).bind fun _ => ?_
    exact (heeds_execute (heeds_imperative hleaf body)).bind fun _ => .pure _
  | .assign property value line => by
    unfold ManipulationNode.code
    split
    · exact .breach _ _
    · refine (heeds_deliver env (heeds_value hleaf value) _).bind fun _ => ?_
      exact (Heeds.emit _ _).bind fun _ => .pure _
  | .group children line => by
    unfold ManipulationNode.code
    exact (heeds_group hleaf children).bind fun _ => .pure _
  | .extension x => by
    unfold ManipulationNode.code
    exact Heeds.emitting (hleaf.code x)

/-- Manipulations of one value, one after the other. The last one has a case of its own, as it gets
no copy of the value. -/
theorem heeds_group (hleaf : LeavesIndifferent ξ) :
    ∀ children : List (ManipulationNode ξ), Heeds (groupCode env children)
  | [] => by
    unfold groupCode
    exact Heeds.emit _ _
  | [child] => by
    unfold groupCode
    exact (heeds_manipulate (heeds_manipulation hleaf child)).bind fun _ => .pure _
  | child :: next :: children => by
    unfold groupCode
    refine (Heeds.emit _ _).bind fun _ => ?_
    refine (heeds_manipulate (heeds_manipulation hleaf child)).bind fun _ => ?_
    exact heeds_group hleaf (next :: children)

end

/-- Lowering a tree heeds its markers. -/
theorem heeds_lower (hleaf : LeavesIndifferent ξ) (n : Node ξ) (expected : Option TypeRef) :
    Heeds (n.lower env expected) := by
  cases n with
  | value n => exact heeds_deliver env (heeds_value env hleaf n) _
  | imperative n => exact heeds_execute (heeds_imperative env hleaf n)
  | manipulation n => exact heeds_manipulate (heeds_manipulation env hleaf n)

end Code

/-! ### What lowering a tree does to the flag -/

/-! `Heeds` says when a step can fail for want of enclosing nodes. That it does fail, for a marker
at the root, is said here: the failure goes through whatever is around the check. -/

namespace MissesParents

variable {α β : Type}

theorem bind {step : LowerM ξ α} {s : LowerState ξ} (h : MissesParents (step s))
    (next : α → LowerM ξ β) : MissesParents ((step >>= next) s) := by
  obtain ⟨name, line, herror⟩ := h
  refine ⟨name, line, ?_⟩
  simp only [Bind.bind, EStateM.bind]
  rw [Result.eq_error herror]
  rfl

theorem andThen {step : LowerM ξ α} {s : LowerState ξ} (h : MissesParents (step s))
    (f : LowerState ξ → LowerState ξ) : MissesParents (LowerM.andThen step f s) := by
  obtain ⟨name, line, herror⟩ := h
  refine ⟨name, line, ?_⟩
  unfold LowerM.andThen
  rw [Result.eq_error herror]
  rfl

/-- Code that fails on the chain fails when the node is dispatched. -/
theorem dispatch [Extension ξ] {n : Node ξ} {code : LowerM ξ α} {s : LowerState ξ}
    (h : ∀ emission, MissesParents (code ⟨emission, s.context.enter n⟩)) :
    MissesParents (dispatch n code s) := by
  refine andThen ?_ _
  unfold LowerM.captured
  dsimp only
  split
  · exact h _
  · split
    · exact h _
    · exact andThen (h _) _

end MissesParents

variable [ExtensionCode ξ]

/-- Lowering dispatches nodes of the tree, each with those from before and its own ancestors around
it. Only these can have set the flag. -/
theorem Node.exists_seen (hleaf : LeavesIndifferent ξ) (env : Environment) (n : Node ξ)
    (expected : Option TypeRef) (s : LowerState ξ) :
    ∃ seen : List (Dispatch ξ),
      (∀ d ∈ seen, ∃ o ∈ n.occurrences, d = o.dispatched s.context.ancestors) ∧
      (Result.state (n.lower env expected s)).context.ancestors = s.context.ancestors ∧
      (Result.state (n.lower env expected s)).context.trace = seen ++ s.context.trace ∧
      ((Result.state (n.lower env expected s)).context.parentsVerified = true ↔
        s.context.parentsVerified = true ∨ ∃ d ∈ seen, d.Verifies) ∧
      (MissesParents (n.lower env expected s) → s.context.parentsVerified = false ∧
        ∃ d ∈ seen, d.node.isMarker = true ∧ d.parents = []) := by
  obtain ⟨seen, htrace, hverified, hmissing⟩ := heeds_lower env hleaf n expected s
  have hvisits := Frame.visits_lower (F := .nothing) env (fun _ _ _ => trivial) n expected s trivial
  have hpasses : ∃ walk, walk <+: n.occurrences ∧
      Frame.nothing.Passes walk s (Result.state (n.lower env expected s)) := by
    cases hstep : n.lower env expected s with
    | ok effect s' =>
      rw [hstep] at hvisits
      exact ⟨_, List.prefix_rfl, hvisits⟩
    | error e s' =>
      rw [hstep] at hvisits
      exact hvisits
  obtain ⟨walk, hwalk, hpasses⟩ := hpasses
  -- both say what was added to the trace, so it is the same
  have hseen : seen = (walk.map (·.dispatched s.context.ancestors)).reverse :=
    List.append_cancel_right (htrace.symm.trans hpasses.trace)
  refine ⟨seen, fun d hd => ?_, hpasses.ancestors, htrace, hverified, hmissing⟩
  rw [hseen, List.mem_reverse, List.mem_map] at hd
  obtain ⟨o, ho, rfl⟩ := hd
  exact ⟨o, hwalk.subset ho, rfl⟩

/-- A tree without markers does not touch the flag and misses no enclosing nodes. -/
theorem Node.lower_of_no_marker (hleaf : LeavesIndifferent ξ) {n : Node ξ}
    (hnone : ∀ o ∈ n.occurrences, o.node.isMarker = false) (env : Environment)
    (expected : Option TypeRef) (s : LowerState ξ) :
    ¬ MissesParents (n.lower env expected s) ∧
      (Result.state (n.lower env expected s)).context.parentsVerified =
        s.context.parentsVerified := by
  obtain ⟨seen, hnodes, -, -, hverified, hmissing⟩ := n.exists_seen hleaf env expected s
  have hplain : ∀ d ∈ seen, d.node.isMarker ≠ true := by
    intro d hd
    obtain ⟨o, ho, rfl⟩ := hnodes d hd
    simpa [Occurrence.dispatched] using hnone o ho
  refine ⟨fun h => ?_, ?_⟩
  · obtain ⟨-, d, hd, hmarker, -⟩ := hmissing h
    exact hplain d hd hmarker
  · have hno : ¬ ∃ d ∈ seen, d.Verifies := by
      intro hsome
      obtain ⟨d, hd, hmarker, -⟩ := hsome
      exact hplain d hd hmarker
    rw [Bool.eq_iff_iff, hverified, or_iff_left hno]

omit [ExtensionCode ξ] in
/-- Below the root every node has the root around it. -/
theorem Node.eq_of_parents_nil {n : Node ξ} {o : Occurrence ξ} (ho : o ∈ n.occurrences)
    (h : (o.dispatched []).parents = []) : o.node = n := by
  have hpath : o.path = [] := by simpa [Occurrence.dispatched] using h
  rcases List.mem_cons.mp ho with rfl | hbelow
  · rfl
  · obtain ⟨below, -, rfl⟩ := List.mem_map.mp hbelow
    cases hpath

/-- A marker at the root fails if the flag is not set. -/
theorem Node.missesParents_of_isMarker {n : Node ξ} (hn : n.isMarker = true) (env : Environment)
    (expected : Option TypeRef) {s : LowerState ξ} (hroot : s.context.ancestors = [])
    (hunverified : s.context.parentsVerified = false) : MissesParents (n.lower env expected s) := by
  unfold isMarker at hn
  split at hn
  · rename_i value line
    refine MissesParents.bind (.dispatch fun emission => ?_) _
    unfold ValueNode.code
    refine MissesParents.bind ?_ _
    have hchecked := Heeds.verifyParents_enter (.value (.parentStack value line))
      (ValueNode.parentStack value line).name line ⟨emission, s.context⟩
    rw [if_neg (by simp [hroot, hunverified])] at hchecked
    exact ⟨_, _, congrArg Result.error? hchecked⟩
  · cases hn

/-! ### Trees in one context -/

/-- The states in which trees are lowered one after the other, in one context. In between, all may
change but the chain and what the context knows of enclosing nodes. -/
inductive Series : LowerState ξ → Prop
  | start (emission : Emission) (file : Option SourceFile) (contextLocal : Option Slot) :
      Series ⟨emission, { file, contextLocal }⟩
  /-- A tree was lowered, or lowering it failed. -/
  | lowered {s : LowerState ξ} (env : Environment) (n : Node ξ) (expected : Option TypeRef) :
      Series s → Series (Result.state (n.lower env expected s))
  /-- Something else was emitted, or the context was changed. -/
  | between {s : LowerState ξ} (emission : Emission) (file : Option SourceFile)
      (contextLocal : Option Slot) (slots : List (Nat × Slot)) :
      Series s → Series ⟨emission, { s.context with file, contextLocal, slots }⟩

/-- Between trees no node is on the chain, and the flag is set if a marker was dispatched below some
node. By induction on the series: a tree leaves the chain as it was, and adds to flag and trace
alike. -/
theorem Series.verified_iff (hleaf : LeavesIndifferent ξ) {s : LowerState ξ} (h : Series s) :
    s.context.ancestors = [] ∧
      (s.context.parentsVerified = true ↔ ∃ d ∈ s.context.trace, d.Verifies) := by
  induction h with
  | start emission file contextLocal => simp
  | @lowered s env n expected _ ih =>
    obtain ⟨hroot, hflag⟩ := ih
    obtain ⟨seen, -, hancestors, htrace, hverified, -⟩ := n.exists_seen hleaf env expected s
    refine ⟨hancestors.trans hroot, ?_⟩
    rw [hverified, hflag, htrace]
    simp only [List.mem_append, or_and_right, exists_or]
    exact Or.comm
  | between emission file contextLocal slots _ ih => exact ih

/-! ### The main statement -/

/-- The scan tells what markers will do. It finds out whether there is a marker in the tree, at any
depth. If there is none, then lowering the tree, in whatever context, fails for no want of enclosing
nodes and leaves the flag as it was. Of trees that are lowered one after the other in one context, a
tree fails for want of enclosing nodes exactly if its root is a marker and no marker was dispatched
below some node before. -/
theorem scanParents_predicts (hleaf : LeavesIndifferent ξ) (n : Node ξ) :
    (n.scanParents = true ↔ ∃ o ∈ n.occurrences, o.node.isMarker = true) ∧
    (n.scanParents = false → ∀ (env : Environment) (expected : Option TypeRef) (s : LowerState ξ),
      ¬ MissesParents (n.lower env expected s) ∧
      (Result.state (n.lower env expected s)).context.parentsVerified =
        s.context.parentsVerified) ∧
    ∀ (env : Environment) (expected : Option TypeRef) (s : LowerState ξ), Series s →
      (MissesParents (n.lower env expected s) ↔
        n.isMarker = true ∧ ¬ ∃ d ∈ s.context.trace, d.Verifies) := by
  have hscan : n.scanParents = true ↔ ∃ o ∈ n.occurrences, o.node.isMarker = true := by
    rw [n.scanParents_iff]
    simp only [Node.needsParents_iff hleaf]
  refine ⟨hscan, fun hfalse => ?_, fun env expected s hseries => ?_⟩
  · refine Node.lower_of_no_marker hleaf fun o ho => ?_
    rw [← Bool.not_eq_true] at hfalse ⊢
    exact fun hmarker => hfalse (hscan.mpr ⟨o, ho, hmarker⟩)
  · obtain ⟨hroot, hflag⟩ := hseries.verified_iff hleaf
    rw [← hflag, Bool.not_eq_true]
    constructor
    · intro hmissing
      -- some marker of the tree had no enclosing nodes, which only the root can be
      obtain ⟨seen, hnodes, -, -, -, hmarker⟩ := n.exists_seen hleaf env expected s
      obtain ⟨hunverified, d, hd, hmarker, halone⟩ := hmarker hmissing
      obtain ⟨o, ho, rfl⟩ := hnodes d hd
      rw [hroot] at halone
      exact ⟨Node.eq_of_parents_nil ho halone ▸ hmarker, hunverified⟩
    · rintro ⟨hmarker, hunverified⟩
      exact Node.missesParents_of_isMarker hmarker env expected hroot hunverified

/-- Of the built-in nodes none is a leaf of a further kind. -/
theorem leavesIndifferent_empty : LeavesIndifferent Empty := ⟨nofun, nofun⟩

/-- A text that is marked. -/
def markedText : ValueNode Empty := .parentStack (.string default "text" default) ⟨2, 9⟩

/-- Converts the marked text. -/
def convertedText : ValueNode Empty := .cast markedText default ⟨2, 1⟩

/-- The marked text fails at first, and no longer once the other tree was lowered, in which the scan
finds a marker. -/
theorem scanParents_predicts_markedText :
    LeavesIndifferent Empty ∧ ∃ s₁ s₂,
      s₁ = Result.state ((Node.value markedText).lower plainEnvironment none newState) ∧
      s₂ = Result.state ((Node.value convertedText).lower plainEnvironment none s₁) ∧
      Series newState ∧ Series s₂ ∧
      MissesParents ((Node.value markedText).lower plainEnvironment none newState) ∧
      (Node.value convertedText).scanParents = true ∧
      ¬ MissesParents ((Node.value markedText).lower plainEnvironment none s₂) := by
  have hstart : Series newState := .start _ none none
  have hlater : Series (Result.state ((Node.value convertedText).lower plainEnvironment none
      (Result.state ((Node.value markedText).lower plainEnvironment none newState)))) :=
    .lowered _ _ _ (.lowered _ _ _ hstart)
  obtain ⟨-, -, hfails⟩ := scanParents_predicts leavesIndifferent_empty (.value markedText)
  obtain ⟨hscan, -, -⟩ := scanParents_predicts leavesIndifferent_empty (.value convertedText)
  refine ⟨leavesIndifferent_empty, _, _, rfl, rfl, hstart, hlater,
    (hfails _ _ _ hstart).mpr ⟨rfl, nofun⟩, ?_, fun hmissing => ?_⟩
  · exact hscan.mpr ⟨⟨[.value convertedText], .value markedText⟩, .tail _ (.head _), rfl⟩
  · refine ((hfails _ _ _ hlater).mp hmissing).2 ?_
    exact ⟨⟨.value markedText, [.value convertedText]⟩, .tail _ (.head _), rfl, nofun⟩

end MarkupLowering
