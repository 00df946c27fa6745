import MarkupLowering.Lowering.Basic
import MarkupLowering.Proofs.Steps

/-!
# MarkupLowering.Proofs.Lowering.Traversal

**Lowering walks a tree in preorder** (`Node.occurrences`), and each node is dispatched with its
ancestors around it. Wherever it stops, the chain of enclosing nodes is that from before, and what
was dispatched is the part of the walk up to there.

* What else a proof wants to know of the emission along the walk is given by an `Emission.Frame`:
  a relation between states that every step of emission keeps, and that holds around a capture if
  it holds inside.
* `Emission.Frame.Visits` says of a step which nodes it dispatches, with lemmas for sequencing and
  dispatch. The code of every node is walked through once, for all frames (`Frame.visits_lower`).
* `Node.trace_lower` is the main statement, for the frame that asks for nothing.
-/

namespace MarkupLowering

open Emission LowerM

variable {ξ : Type}

/-! ### Walking a tree -/

/-- A node of a tree, and its proper ancestors there, the outermost first. -/
structure Occurrence (ξ : Type) where
  path : List (Node ξ)
  node : Node ξ

/-- The same node, in a tree with `n` as root. -/
def Occurrence.under (n : Node ξ) (o : Occurrence ξ) : Occurrence ξ := ⟨n :: o.path, o.node⟩

/-- What is seen when the node is dispatched: around it are the nodes that were there before, and
then its ancestors in the tree. -/
def Occurrence.dispatched (before : List (Node ξ)) (o : Occurrence ξ) : Dispatch ξ :=
  ⟨o.node, (before.reverse ++ o.path).reverse⟩

/-- A node and the nodes below it. -/
def rooted (n : Node ξ) (descendants : List (Occurrence ξ)) : List (Occurrence ξ) :=
  ⟨[], n⟩ :: descendants.map (·.under n)

mutual

/-- The nodes below a value node, each before those below it. -/
def ValueNode.descendants : ValueNode ξ → List (Occurrence ξ)
  | .string .. | .localRef .. | .contextLocal .. | .extension _ => []
  | .localInit _ value _ | .beginInit value | .cast value _ _ | .parentStack value _ =>
    rooted (.value value) value.descendants
  | .newObject _ arguments _ => argumentsWalk arguments

/-- The nodes of some value nodes. -/
def argumentsWalk : List (ValueNode ξ) → List (Occurrence ξ)
  | [] => []
  | value :: values => rooted (.value value) value.descendants ++ argumentsWalk values

/-- The nodes below an imperative node. -/
def ImperativeNode.descendants : ImperativeNode ξ → List (Occurrence ξ)
  | .valueManipulation value manipulation _ =>
    rooted (.value value) value.descendants ++
      rooted (.manipulation manipulation) manipulation.descendants
  | .block children _ => statementsWalk children
  | .extension _ => []

/-- The nodes of some imperative nodes. -/
def statementsWalk : List (ImperativeNode ξ) → List (Occurrence ξ)
  | [] => []
  | child :: children => rooted (.imperative child) child.descendants ++ statementsWalk children

/-- The nodes below a manipulation node. -/
def ManipulationNode.descendants : ManipulationNode ξ → List (Occurrence ξ)
  | .imperative body _ => rooted (.imperative body) body.descendants
  | .assign _ value _ => rooted (.value value) value.descendants
  | .group children _ => groupWalk children
  | .extension _ => []

/-- The nodes of some manipulation nodes. -/
def groupWalk : List (ManipulationNode ξ) → List (Occurrence ξ)
  | [] => []
  | child :: children => rooted (.manipulation child) child.descendants ++ groupWalk children

end

/-- The nodes below a node. -/
def Node.descendants : Node ξ → List (Occurrence ξ)
  | .value n => n.descendants
  | .imperative n => n.descendants
  | .manipulation n => n.descendants

/-- All nodes of a tree, each before its children. -/
def Node.occurrences (n : Node ξ) : List (Occurrence ξ) := rooted n n.descendants

/-! ### What emission keeps -/

namespace Emission

/-- Something that every step of emission keeps, however it ends. -/
structure Frame where
  /-- The states that steps start in. -/
  Admits : Emission → Prop
  /-- A state that steps start in, and the one that they end in. -/
  Keeps : Emission → Emission → Prop
  refl (s : Emission) : Keeps s s
  trans {s s' s'' : Emission} : Keeps s s' → Keeps s' s'' → Keeps s s''
  admits {s s' : Emission} : Admits s → Keeps s s' → Admits s'
  emit (op : Opcode) (x : Operand) {s : Emission} :
    Admits s → Keeps s (Result.state (Emission.emit op x s))
  defineLocal (type : TypeRef) {s : Emission} :
    Admits s → Keeps s (Result.state (Emission.defineLocal type s))
  beginCapture (file : SourceFile) (line : Position) {s : Emission} :
    Admits s → Admits (s.beginCapture file line).2
  /-- A capture around some steps. -/
  endCapture (file : SourceFile) (line : Position) {s s' : Emission} :
    Admits s → Keeps (s.beginCapture file line).2 s' →
      Keeps s (s'.endCapture (s.beginCapture file line).1)

/-- The frame that asks for nothing. -/
def Frame.nothing : Frame where
  Admits _ := True
  Keeps _ _ := True
  refl _ := trivial
  trans _ _ := trivial
  admits _ _ := trivial
  emit _ _ _ _ := trivial
  defineLocal _ _ _ := trivial
  beginCapture _ _ _ _ := trivial
  endCapture _ _ _ _ _ _ := trivial

/-- The step keeps what the frame asks for. -/
def Frame.Keeping (F : Frame) {α : Type} (step : EmitM α) : Prop :=
  ∀ s, F.Admits s → F.Keeps s (Result.state (step s))

/-- Leaves of a further kind keep what the frame asks for. -/
def Frame.LeavesKeep (F : Frame) (ξ : Type) [ExtensionCode ξ] : Prop :=
  ∀ x : ξ, F.Keeping (ExtensionCode.code x)

end Emission

/-! ### Steps that walk a part of a tree -/

namespace Emission.Frame

variable (F : Frame)

/-- Some nodes were dispatched, the chain is as before, and the emission keeps what is asked. -/
structure Passes (walk : List (Occurrence ξ)) (s s' : LowerState ξ) : Prop where
  ancestors : s'.context.ancestors = s.context.ancestors
  emission : F.Keeps s.emission s'.emission
  trace : s'.context.trace =
    (walk.map (·.dispatched s.context.ancestors)).reverse ++ s.context.trace

/-- The step dispatches the nodes of a walk, or fails on the way. -/
def Visits {α : Type} (walk : List (Occurrence ξ)) (step : LowerM ξ α) : Prop :=
  ∀ s : LowerState ξ, F.Admits s.emission →
    match step s with
    | .ok _ s' => F.Passes walk s s'
    | .error _ s' => ∃ seen, seen <+: walk ∧ F.Passes seen s s'

variable {F}

namespace Passes

variable {walk walk' : List (Occurrence ξ)} {s s' s'' : LowerState ξ}

theorem refl (s : LowerState ξ) : F.Passes [] s s := ⟨rfl, F.refl _, rfl⟩

theorem trans (h : F.Passes walk s s') (h' : F.Passes walk' s' s'') :
    F.Passes (walk ++ walk') s s'' where
  ancestors := h'.ancestors.trans h.ancestors
  emission := F.trans h.emission h'.emission
  trace := by rw [h'.trace, h.ancestors, h.trace]; simp

/-- A node is taken off the chain again. -/
theorem leave {n : Node ξ} (h : F.Passes walk { s with context := s.context.enter n } s') :
    F.Passes (rooted n walk) s { s' with context := s'.context.leave } where
  ancestors := by
    have hancestors := h.ancestors
    simp [Context.leave, hancestors]
  emission := h.emission
  trace := by
    have htrace := h.trace
    simp [Context.leave, htrace, rooted, Occurrence.dispatched, Occurrence.under]

/-- A capture is ended again. -/
theorem release {file : SourceFile} {line : Position} (hs : F.Admits s.emission)
    (h : F.Passes walk { s with emission := (s.emission.beginCapture file line).2 } s') :
    F.Passes walk s
      { s' with emission := s'.emission.endCapture (s.emission.beginCapture file line).1 } :=
  ⟨h.ancestors, F.endCapture file line hs h.emission, h.trace⟩

end Passes

namespace Visits

variable {α β : Type} {walk walk' : List (Occurrence ξ)}

/-- A step that dispatches nothing. -/
theorem of_state {step : LowerM ξ α}
    (h : ∀ s : LowerState ξ, F.Admits s.emission → F.Passes [] s (Result.state (step s))) :
    F.Visits [] step := by
  intro s hs
  have hpasses := h s hs
  cases hstep : step s with
  | ok a s' =>
    rw [hstep] at hpasses
    exact hpasses
  | error err s' =>
    rw [hstep] at hpasses
    exact ⟨[], List.nil_prefix, hpasses⟩

protected theorem pure (a : α) : F.Visits [] (Pure.pure a : LowerM ξ α) := fun s _ => .refl s

protected theorem throw (err : EmitError) : F.Visits [] (throw err : LowerM ξ α) :=
  fun s _ => ⟨[], List.nil_prefix, .refl s⟩

theorem bind {step : LowerM ξ α} {next : α → LowerM ξ β} (h : F.Visits walk step)
    (hnext : ∀ a, F.Visits walk' (next a)) : F.Visits (walk ++ walk') (step >>= next) := by
  intro s hs
  have hfirst := h s hs
  simp only [Bind.bind, EStateM.bind]
  cases hstep : step s with
  | error err s₁ =>
    rw [hstep] at hfirst
    obtain ⟨seen, hseen, hpasses⟩ := hfirst
    exact ⟨seen, hseen.trans (List.prefix_append _ _), hpasses⟩
  | ok a s₁ =>
    rw [hstep] at hfirst
    have hsecond := hnext a s₁ (F.admits hs hfirst.emission)
    dsimp only
    cases hrest : next a s₁ with
    | ok b s₂ =>
      rw [hrest] at hsecond
      exact hfirst.trans hsecond
    | error err s₂ =>
      rw [hrest] at hsecond
      obtain ⟨seen, hseen, hpasses⟩ := hsecond
      exact ⟨walk ++ seen, (List.prefix_append_right_inj walk).mpr hseen, hfirst.trans hpasses⟩

/-- The same, where the second step dispatches nothing. -/
theorem andThen {step : LowerM ξ α} {next : α → LowerM ξ β} (h : F.Visits walk step)
    (hnext : ∀ a, F.Visits [] (next a)) : F.Visits walk (step >>= next) := by
  have hboth := h.bind hnext
  rwa [List.append_nil] at hboth

/-- The same, where the first step dispatches nothing. -/
theorem after {step : LowerM ξ α} {next : α → LowerM ξ β} (h : F.Visits [] step)
    (hnext : ∀ a, F.Visits walk (next a)) : F.Visits walk (step >>= next) := h.bind hnext

/-- A step of emission that keeps what is asked. -/
theorem emitting {step : EmitM α} (h : F.Keeping step) :
    F.Visits [] (LowerM.emitting step : LowerM ξ α) := by
  refine of_state fun s hs => ?_
  have hkeeps := h s.emission hs
  unfold LowerM.emitting
  cases hstep : step s.emission with
  | ok a emission =>
    rw [hstep] at hkeeps
    exact ⟨rfl, hkeeps, rfl⟩
  | error err emission =>
    rw [hstep] at hkeeps
    exact ⟨rfl, hkeeps, rfl⟩

theorem emit (op : Opcode) (x : Operand) :
    F.Visits [] (LowerM.emitting (Emission.emit op x) : LowerM ξ Unit) :=
  emitting fun _ => F.emit op x

theorem captured (line : Position) {step : LowerM ξ α} (h : F.Visits walk step) :
    F.Visits walk (captured line step) := by
  intro s hs
  unfold LowerM.captured
  cases s.context.file with
  | none => exact h s hs
  | some file =>
    dsimp only
    by_cases hline : line.isSynthetic = true
    · rw [if_pos hline]
      exact h s hs
    · rw [if_neg hline]
      have hin := h { s with emission := (s.emission.beginCapture file line).2 }
        (F.beginCapture file line hs)
      unfold LowerM.andThen
      -- the capture ends on failure as well
      cases hstep : step { s with emission := (s.emission.beginCapture file line).2 } with
      | ok a s' =>
        rw [hstep] at hin
        exact hin.release hs
      | error err s' =>
        rw [hstep] at hin
        obtain ⟨seen, hseen, hpasses⟩ := hin
        exact ⟨seen, hseen, hpasses.release hs⟩

/-- Dispatching a node walks through the node and what is below it. -/
theorem dispatch [Extension ξ] (n : Node ξ) {step : LowerM ξ α} (h : F.Visits walk step) :
    F.Visits (rooted n walk) (dispatch n step) := by
  intro s hs
  have hin := captured n.line h { s with context := s.context.enter n } hs
  unfold LowerM.dispatch LowerM.andThen
  cases hstep : LowerM.captured n.line step { s with context := s.context.enter n } with
  | ok a s' =>
    rw [hstep] at hin
    exact hin.leave
  | error err s' =>
    rw [hstep] at hin
    obtain ⟨seen, hseen, hpasses⟩ := hin
    exact ⟨rooted n seen, List.cons_prefix_cons.mpr ⟨rfl, hseen.map _⟩, hpasses.leave⟩

/-! Checks, locals and enclosing nodes -/

theorem breach [Extension ξ] (n : Node ξ) (b : Breach) : F.Visits [] (breach n b : LowerM ξ α) :=
  .throw _

theorem checkValue [Extension ξ] (h : Hierarchy) (n : Node ξ) (expected : TypeRef)
    (effect : StackEffect) : F.Visits [] (checkValue h n expected effect) := by
  unfold LowerM.checkValue
  split
  · exact breach n _
  · split
    · exact breach n _
    · split
      · exact breach n _
      · split
        · exact (emit _ _).andThen fun _ => .pure _
        · exact .pure _

theorem checkImperative [Extension ξ] (n : Node ξ) (effect : StackEffect) :
    F.Visits [] (checkImperative n effect) := by
  unfold LowerM.checkImperative
  split
  · exact breach n _
  · split
    · exact breach n _
    · exact .pure _

theorem checkManipulation [Extension ξ] (n : Node ξ) (effect : StackEffect) :
    F.Visits [] (checkManipulation n effect) := by
  unfold LowerM.checkManipulation
  split
  · exact breach n _
  · split
    · exact breach n _
    · exact .pure _

/-- A step that looks at the state first. -/
theorem get_bind {next : LowerState ξ → LowerM ξ α} (h : ∀ s, F.Visits walk (next s)) :
    F.Visits walk (get >>= next) := fun s hs => h s s hs

theorem loadLocal (l : CompilerLocal) (line : Position) :
    F.Visits [] (loadLocal l line : LowerM ξ Unit) := by
  refine get_bind fun s => ?_
  cases s.context.slot? l with
  | none => exact .throw _
  | some slot => exact emit _ _

theorem slotFor (l : CompilerLocal) : F.Visits [] (slotFor l : LowerM ξ Slot) := by
  refine get_bind fun s => ?_
  cases s.context.slot? l with
  | some slot => exact .pure _
  | none =>
    refine (emitting fun _ => F.defineLocal l.type).andThen fun slot => ?_
    exact of_state fun s _ => ⟨rfl, F.refl _, rfl⟩

theorem storeLocal (l : CompilerLocal) : F.Visits [] (storeLocal l : LowerM ξ Unit) :=
  (slotFor l).andThen fun _ => emit _ _

theorem verifyParents (name : String) (line : Position) :
    F.Visits [] (verifyParents name line : LowerM ξ Unit) := by
  refine get_bind fun s => ?_
  dsimp only
  split
  · exact .pure _
  · split
    · exact .throw _
    · exact of_state fun s _ => ⟨rfl, F.refl _, rfl⟩

end Visits

section Code

variable (env : Environment)

theorem visits_callHook (type : TypeRef) : F.Visits [] (callHook env type : LowerM ξ Unit) := by
  unfold callHook
  split
  · exact .pure _
  · exact (Visits.emit _ _).andThen fun _ => Visits.emit _ _

theorem visits_convert (target : TypeRef) : F.Visits [] (convert target : LowerM ξ Unit) := by
  unfold convert
  split
  · exact Visits.emit _ _
  · exact Visits.emit _ _

theorem visits_loadContext (line : Position) : F.Visits [] (loadContext line : LowerM ξ Unit) := by
  refine Visits.get_bind fun s => ?_
  cases s.context.contextLocal with
  | none => exact .throw _
  | some slot => exact Visits.emit _ _

variable [ExtensionCode ξ]

theorem visits_deliver {n : ValueNode ξ} {expected : TypeRef} {code : LowerM ξ StackEffect}
    (h : F.Visits n.descendants code) :
    F.Visits (rooted (.value n) n.descendants) (deliver env n expected code) :=
  (Visits.dispatch (.value n) h).andThen fun effect => Visits.checkValue _ _ _ effect

theorem visits_execute {n : ImperativeNode ξ} {code : LowerM ξ StackEffect}
    (h : F.Visits n.descendants code) :
    F.Visits (rooted (.imperative n) n.descendants) (execute n code) :=
  (Visits.dispatch (.imperative n) h).andThen fun effect => Visits.checkImperative _ effect

theorem visits_manipulate {n : ManipulationNode ξ} {code : LowerM ξ StackEffect}
    (h : F.Visits n.descendants code) :
    F.Visits (rooted (.manipulation n) n.descendants) (manipulate n code) :=
  (Visits.dispatch (.manipulation n) h).andThen fun effect => Visits.checkManipulation _ effect

mutual

/-- The code of a value node walks through what is below it. -/
theorem visits_value (hleaf : F.LeavesKeep ξ) :
    ∀ n : ValueNode ξ, F.Visits n.descendants (n.code env)
  | .string type text line => by
    unfold ValueNode.code ValueNode.descendants
    exact (Visits.emit _ _).andThen fun _ => .pure _
  | .localRef l line => by
    unfold ValueNode.code ValueNode.descendants
    exact (Visits.loadLocal l line).andThen fun _ => .pure _
  | .localInit l value line => by
    unfold ValueNode.code ValueNode.descendants
    refine (visits_deliver env (visits_value hleaf value)).andThen fun effect => ?_
    refine (Visits.emit _ _).andThen fun _ => ?_
    exact (Visits.storeLocal l).andThen fun _ => .pure _
  | .beginInit value => by
    unfold ValueNode.code ValueNode.descendants
    refine (visits_deliver env (visits_value hleaf value)).andThen fun effect => ?_
    exact (visits_callHook env _).andThen fun _ => .pure _
  | .contextLocal type line => by
    unfold ValueNode.code ValueNode.descendants
    exact (visits_loadContext line).andThen fun _ => .pure _
  | .cast value target line => by
    unfold ValueNode.code ValueNode.descendants
    refine (visits_deliver env (visits_value hleaf value)).andThen fun effect => ?_
    exact (visits_convert target).andThen fun _ => .pure _
  | .parentStack value line => by
    unfold ValueNode.code ValueNode.descendants
    exact (Visits.verifyParents _ line).after fun _ => visits_deliver env (visits_value hleaf value)
  | .newObject c arguments line => by
    unfold ValueNode.code ValueNode.descendants
    split
    · rename_i hlength
      refine (visits_arguments hleaf arguments c.params hlength.symm).andThen fun _ => ?_
      exact (Visits.emit _ _).andThen fun _ => .pure _
    · exact fun s hs => ⟨[], List.nil_prefix, .refl s⟩
  | .extension x => by
    unfold ValueNode.code ValueNode.descendants
    exact Visits.emitting (hleaf x)

/-- Arguments are walked through in order. As there are as many as parameters, none is left out. -/
theorem visits_arguments (hleaf : F.LeavesKeep ξ) :
    ∀ (values : List (ValueNode ξ)) (params : List TypeRef), values.length = params.length →
      F.Visits (argumentsWalk values) (argumentsCode env values params)
  | value :: values, param :: params, hlength => by
    unfold argumentsCode argumentsWalk
    refine (visits_deliver env (visits_value hleaf value)).bind fun _ => ?_
    exact visits_arguments hleaf values params (Nat.succ.inj hlength)
  | [], [], _ => by
    unfold argumentsCode argumentsWalk
    exact .pure _

/-- The code of a statement walks through what is below it. -/
theorem visits_imperative (hleaf : F.LeavesKeep ξ) :
    ∀ n : ImperativeNode ξ, F.Visits n.descendants (n.code env)
  | .valueManipulation value manipulation line => by
    unfold ImperativeNode.code ImperativeNode.descendants
    refine (visits_deliver env (visits_value hleaf value)).bind fun _ => ?_
    exact (visits_manipulate (visits_manipulation hleaf manipulation)).andThen fun _ => .pure _
  | .block children line => by
    unfold ImperativeNode.code ImperativeNode.descendants
    exact (visits_statements hleaf children).andThen fun _ => .pure _
  | .extension x => by
    unfold ImperativeNode.code ImperativeNode.descendants
    exact Visits.emitting (hleaf x)

/-- Statements are walked through in order. -/
theorem visits_statements (hleaf : F.LeavesKeep ξ) : ∀ children : List (ImperativeNode ξ),
    F.Visits (statementsWalk children) (statementsCode env children)
  | [] => by
    unfold statementsCode statementsWalk
    exact .pure _
  | child :: children => by
    unfold statementsCode statementsWalk
    refine (visits_execute (visits_imperative hleaf child)).bind fun _ => ?_
    exact visits_statements hleaf children

/-- The code of a manipulation walks through what is below it. -/
theorem visits_manipulation (hleaf : F.LeavesKeep ξ) :
    ∀ n : ManipulationNode ξ, F.Visits n.descendants (n.code env)
  | .imperative body line => by
    unfold ManipulationNode.code ManipulationNode.descendants
    refine (Visits.emit _ _).after fun _ => ?_
    exact (visits_execute (visits_imperative hleaf body)).andThen fun _ => .pure _
  | .assign property value line => by
    unfold ManipulationNode.code ManipulationNode.descendants
    split
    · exact fun s hs => ⟨[], List.nil_prefix, .refl s⟩
    · refine (visits_deliver env (visits_value hleaf value)).andThen fun _ => ?_
      exact (Visits.emit _ _).andThen fun _ => .pure _
  | .group children line => by
    unfold ManipulationNode.code ManipulationNode.descendants
    exact (visits_group hleaf children).andThen fun _ => .pure _
  | .extension x => by
    unfold ManipulationNode.code ManipulationNode.descendants
    exact Visits.emitting (hleaf x)

/-- The children of a group are walked through in order. Copies are made in between, which dispatch
nothing. -/
theorem visits_group (hleaf : F.LeavesKeep ξ) : ∀ children : List (ManipulationNode ξ),
    F.Visits (groupWalk children) (groupCode env children)
  | [] => by
    unfold groupCode groupWalk
    exact Visits.emit _ _
  | [child] => by
    unfold groupCode groupWalk groupWalk
    rw [List.append_nil]
    exact (visits_manipulate (visits_manipulation hleaf child)).andThen fun _ => .pure _
  | child :: next :: children => by
    unfold groupCode groupWalk
    refine (Visits.emit _ _).after fun _ => ?_
    refine (visits_manipulate (visits_manipulation hleaf child)).bind fun _ => ?_
    exact visits_group hleaf (next :: children)

end

/-- Lowering a tree walks through it. -/
theorem visits_lower (hleaf : F.LeavesKeep ξ) (n : Node ξ) (expected : Option TypeRef) :
    F.Visits n.occurrences (n.lower env expected) := by
  unfold Node.occurrences Node.lower
  cases n with
  | value n => exact visits_deliver env (visits_value env hleaf n)
  | imperative n => exact visits_execute (visits_imperative env hleaf n)
  | manipulation n => exact visits_manipulate (visits_manipulation env hleaf n)

end Code

end Emission.Frame

/-! ### The main statement -/

/-- Whatever state lowering starts from, the nodes dispatched are those of the tree in preorder, up
to a failure. Each has around it the nodes from before and its own ancestors in the tree. -/
theorem Node.trace_lower [ExtensionCode ξ] (env : Environment) (n : Node ξ)
    (expected : Option TypeRef) (s : LowerState ξ) :
    match n.lower env expected s with
    | .ok _ s' => s'.context.trace =
        (n.occurrences.map (·.dispatched s.context.ancestors)).reverse ++ s.context.trace
    | .error _ s' => ∃ seen, seen <+: n.occurrences ∧ s'.context.trace =
        (seen.map (·.dispatched s.context.ancestors)).reverse ++ s.context.trace := by
  have hvisits := Frame.visits_lower (F := .nothing) env (fun _ _ _ => trivial) n expected s trivial
  cases hstep : n.lower env expected s with
  | ok effect s' =>
    rw [hstep] at hvisits
    exact hvisits.trace
  | error err s' =>
    rw [hstep] at hvisits
    obtain ⟨seen, hseen, hpasses⟩ := hvisits
    exact ⟨seen, hseen, hpasses.trace⟩

end MarkupLowering
