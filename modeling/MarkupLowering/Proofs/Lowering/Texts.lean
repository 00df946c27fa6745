import MarkupLowering.Proofs.Emitter.Texts
import MarkupLowering.Proofs.Lowering.Simulation
import MarkupLowering.Proofs.Tree.Texts

/-!
# MarkupLowering.Proofs.Lowering.Texts

**Rewriting texts commutes with lowering.** No node but a string node looks at a text, and a string
node only pushes it. So a tree and the tree with its texts rewritten are lowered in step.

The two runs start in one state `s` and are compared after every step.

* `LowerState.Retexted` is the invariant. The emissions are those of `Emission.Retexted`: what was
  asked for since `s` is the same up to texts. The contexts are the same except where nodes lie in
  them, on the chain and in the trace, since the nodes of the second run have other texts.
* `Retexts` says of two steps that they keep the invariant and end in the same way. The nodes
  entered since `s` (`inner`) are the same before and after a step, but not inside of it: `dispatch`
  puts a node on the chain around what it runs. So `Retexts` is stated for all `inner`.
* Every kind of node is gone through once, by a mutual recursion that follows that of the code
  (`retexts_value` and its companions). The string node is the only case with different requests.
* `lower_rewritten` is the main statement and joins this with what the walk does to the tree.
-/

namespace MarkupLowering

open Emission LowerM

variable {ξ : Type} {f : String → String} {s : LowerState ξ}

/-! ### States of two runs -/

/-- Two dispatches of a node, the second one with the texts mapped in all nodes up to those that
both runs are in. -/
def Dispatch.Retexted (f : String → String) (outer : List (Node ξ)) (d d' : Dispatch ξ) : Prop :=
  d'.node = d.node.mapTexts f ∧ ∃ inner, d.parents = inner ++ outer ∧
    d'.parents = inner.map (Node.mapTexts f) ++ outer

/-- Two states that were both reached from `s`, the second one with the texts mapped. The nodes
`inner` were entered since then, and are the same but for their texts. -/
structure LowerState.Retexted (f : String → String) (s : LowerState ξ) (inner : List (Node ξ))
    (t t' : LowerState ξ) : Prop where
  /-- What was asked for since `s` is the same up to texts. -/
  emission : Emission.Retexted f s.emission t.emission t'.emission
  /-- Slots, file, context local and the flag are the same. -/
  context : t'.context = { t.context with ancestors := t'.context.ancestors
                                          trace := t'.context.trace }
  ancestors : t.context.ancestors = inner ++ s.context.ancestors
  ancestors' : t'.context.ancestors = inner.map (Node.mapTexts f) ++ s.context.ancestors
  /-- The same nodes were dispatched since `s`, in the same order. -/
  trace : ∃ seen seen', t.context.trace = seen ++ s.context.trace ∧
    t'.context.trace = seen' ++ s.context.trace ∧
    List.Forall₂ (Dispatch.Retexted f s.context.ancestors) seen seen'

/-- Two steps that are in step, whichever nodes were entered: they return the same or fail with the
same error, and leave the chains as they were. -/
def Retexts {α : Type} (f : String → String) (s : LowerState ξ) (m m' : LowerM ξ α) : Prop :=
  ∀ inner, InStep (LowerState.Retexted f s inner) m m'

namespace LowerState.Retexted

variable {inner : List (Node ξ)} {t t' : LowerState ξ}

/-- Where the runs start, nothing was entered or asked for. -/
theorem refl (f : String → String) (s : LowerState ξ) : Retexted f s [] s s :=
  ⟨.refl s.emission, rfl, rfl, rfl, [], [], rfl, rfl, .nil⟩

/-- Both runs have a local in the same slot: slots are numbered by the emitter, whatever the texts.
-/
theorem slot? (h : Retexted f s inner t t') (l : CompilerLocal) :
    t'.context.slot? l = t.context.slot? l := by
  rw [h.context]
  rfl

theorem withEmission (h : Retexted f s inner t t') {e e' : Emission}
    (he : Emission.Retexted f s.emission e e') :
    Retexted f s inner { t with emission := e } { t' with emission := e' } :=
  ⟨he, h.context, h.ancestors, h.ancestors', h.trace⟩

/-- Both contexts change in a way that does not depend on nodes. That `g` does not look at the chain
and the trace is what `hg` says: these may as well be set after it. -/
theorem withContext (h : Retexted f s inner t t') {g : Context ξ → Context ξ}
    (hnodes : ∀ c, (g c).ancestors = c.ancestors ∧ (g c).trace = c.trace)
    (hg : ∀ (c : Context ξ) (ancestors : List (Node ξ)) (trace : List (Dispatch ξ)),
      g { c with ancestors, trace } = { g c with ancestors, trace }) :
    Retexted f s inner { t with context := g t.context } { t' with context := g t'.context } := by
  refine ⟨h.emission, ?_, ?_, ?_, ?_⟩
  · dsimp only
    rw [(hnodes _).1, (hnodes _).2, ← hg, ← h.context]
  · rw [(hnodes _).1, h.ancestors]
  · rw [(hnodes _).1, h.ancestors']
  · dsimp only
    rw [(hnodes _).2, (hnodes _).2]
    exact h.trace

/-- A node is put on both chains, in the second run with its texts mapped. Each run records it with
its own chain around it. -/
theorem enter (h : Retexted f s inner t t') (n : Node ξ) :
    Retexted f s (n :: inner) { t with context := t.context.enter n }
      { t' with context := t'.context.enter (n.mapTexts f) } := by
  obtain ⟨seen, seen', htrace, htrace', hall⟩ := h.trace
  have hdispatch : Dispatch.Retexted f s.context.ancestors ⟨n, t.context.ancestors⟩
      ⟨n.mapTexts f, t'.context.ancestors⟩ := ⟨rfl, inner, h.ancestors, h.ancestors'⟩
  refine ⟨h.emission, ?_, congrArg (n :: ·) h.ancestors,
    congrArg (n.mapTexts f :: ·) h.ancestors', _ :: seen, _ :: seen', ?_, ?_,
    .cons hdispatch hall⟩
  · dsimp only [Context.enter]
    rw [h.context]
  · rw [Context.trace_enter, htrace, List.cons_append]
  · rw [Context.trace_enter, htrace', List.cons_append]

/-- The node that was entered last is taken off both chains. -/
theorem leave {n : Node ξ} (h : Retexted f s (n :: inner) t t') :
    Retexted f s inner { t with context := t.context.leave }
      { t' with context := t'.context.leave } := by
  refine ⟨h.emission, ?_, congrArg List.tail h.ancestors, congrArg List.tail h.ancestors', h.trace⟩
  dsimp only [Context.leave]
  rw [h.context]

end LowerState.Retexted

/-! ### Steps -/

namespace Retexts

variable {α β : Type} {m m' : LowerM ξ α}

protected theorem pure (a : α) : Retexts f s (Pure.pure a : LowerM ξ α) (Pure.pure a) :=
  fun _ => .pure a

protected theorem throw (e : EmitError) : Retexts f s (throw e : LowerM ξ α) (throw e) :=
  fun _ => .throw e

/-- Sequences are in step. Both first steps return the same `a`, so the next steps are those for `a`
in both runs. -/
theorem bind {next next' : α → LowerM ξ β} (h : Retexts f s m m')
    (hnext : ∀ a, Retexts f s (next a) (next' a)) : Retexts f s (m >>= next) (m' >>= next') :=
  fun inner => (h inner).bind fun a => hnext a inner

/-- Steps of emission that are in step. They do not see the context. -/
theorem emitting {step step' : EmitM α} (h : InStep (Emission.Retexted f s.emission) step step') :
    Retexts f s (LowerM.emitting step : LowerM ξ α) (LowerM.emitting step') := by
  intro inner t t' ht
  have hstep := h _ _ ht.emission
  unfold LowerM.emitting
  generalize step t.emission = r at hstep
  generalize step' t'.emission = r' at hstep
  cases hstep with
  | ok a he => exact .ok a (ht.withEmission he)
  | error e he => exact .error e (ht.withEmission he)

/-- An instruction that does not push a text. -/
theorem emit (op : Opcode) (x : Operand) (hx : ∀ text, x ≠ .string text) :
    Retexts f s (LowerM.emitting (Emission.emit op x) : LowerM ξ Unit)
      (LowerM.emitting (Emission.emit op x)) := by
  have hemit := retexted_emit (f := f) (s := s.emission) op x
  rw [Operand.mapText_of_ne hx] at hemit
  exact emitting hemit

theorem loadLocal (l : CompilerLocal) (line : Position) :
    Retexts f s (LowerM.loadLocal l line : LowerM ξ Unit) (LowerM.loadLocal l line) := by
  intro inner t t' h
  unfold LowerM.loadLocal
  rw [get_bind, get_bind, h.slot?]
  cases t.context.slot? l with
  | none => exact .error _ h
  | some slot => exact emit .ldloc (.slot slot) nofun inner t t' h

theorem loadContext (line : Position) :
    Retexts f s (MarkupLowering.loadContext line : LowerM ξ Unit)
      (MarkupLowering.loadContext line) := by
  intro inner t t' h
  have hslot : t'.context.contextLocal = t.context.contextLocal := by rw [h.context]
  unfold MarkupLowering.loadContext
  rw [get_bind, get_bind, hslot]
  cases t.context.contextLocal with
  | none => exact .error _ h
  | some slot => exact emit .ldloc (.slot slot) nofun inner t t' h

/-- A local that has no slot gets one in both runs, of the same number. -/
theorem slotFor (l : CompilerLocal) :
    Retexts f s (LowerM.slotFor l : LowerM ξ Slot) (LowerM.slotFor l) := by
  intro inner t t' h
  unfold LowerM.slotFor
  rw [get_bind, get_bind, h.slot?]
  cases t.context.slot? l with
  | some slot => exact .ok slot h
  | none =>
    refine (emitting (retexted_defineLocal l.type)).bind (fun slot inner t t' h => ?_) inner t t' h
    exact .ok slot (h.withContext (g := fun c => { c with slots := (l.id, slot) :: c.slots })
      (fun _ => ⟨rfl, rfl⟩) fun _ _ _ => rfl)

theorem storeLocal (l : CompilerLocal) :
    Retexts f s (LowerM.storeLocal l : LowerM ξ Unit) (LowerM.storeLocal l) :=
  (slotFor l).bind fun slot => emit .stloc (.slot slot) nofun

/-- Both runs find enclosing nodes, or neither does. -/
theorem verifyParents (name : String) (line : Position) :
    Retexts f s (LowerM.verifyParents name line : LowerM ξ Unit)
      (LowerM.verifyParents name line) := by
  intro inner t t' h
  have hverified : t'.context.parentsVerified = t.context.parentsVerified := by rw [h.context]
  have hparents : t'.context.parents.isEmpty = t.context.parents.isEmpty := by
    unfold Context.parents
    rw [h.ancestors, h.ancestors']
    -- equally many nodes were entered, around the same nodes
    cases inner with
    | nil => rfl
    | cons n inner => cases inner <;> rfl
  unfold LowerM.verifyParents
  rw [get_bind, get_bind]
  dsimp only
  rw [hverified, hparents]
  split
  · exact .ok () h
  · split
    · exact .error _ h
    · exact .ok () (h.withContext (g := fun c => { c with parentsVerified := true })
        (fun _ => ⟨rfl, rfl⟩) fun _ _ _ => rfl)

/-- What is done afterwards, however the steps end, is done in both runs. It may take one relation
to another, as when a node is taken off the chain. -/
theorem andThen {R R' : LowerState ξ → LowerState ξ → Prop} {t t' : LowerState ξ}
    {g : LowerState ξ → LowerState ξ} (h : Result.Same R (m t) (m' t'))
    (hg : ∀ u u', R u u' → R' (g u) (g u')) :
    Result.Same R' (LowerM.andThen m g t) (LowerM.andThen m' g t') := by
  unfold LowerM.andThen
  generalize m t = r at h
  generalize m' t' = r' at h
  cases h with
  | ok a h => exact .ok a (hg _ _ h)
  | error e h => exact .error e (hg _ _ h)

/-- A capture is begun and ended in both runs, under the same number, or in neither. -/
theorem captured (line : Position) (h : Retexts f s m m') :
    Retexts f s (LowerM.captured line m) (LowerM.captured line m') := by
  intro inner t t' ht
  have hfile : t'.context.file = t.context.file := by rw [ht.context]
  unfold LowerM.captured
  rw [hfile]
  cases t.context.file with
  | none => exact h inner t t' ht
  | some file =>
    dsimp only
    split
    · exact h inner t t' ht
    · obtain ⟨hid, hbegin⟩ := ht.emission.beginCapture file line
      rw [hid]
      exact andThen (h inner _ _ (ht.withEmission hbegin)) fun u u' hu =>
        hu.withEmission (hu.emission.endCapture _)

section Nodes

variable [Extension ξ]

/-- A node is entered and left again. In between the steps run with the node on the chain; this is
where they have to be in step for any `inner`. -/
theorem dispatch (n : Node ξ) (h : Retexts f s m m') :
    Retexts f s (LowerM.dispatch n m) (LowerM.dispatch (n.mapTexts f) m') := by
  intro inner t t' ht
  have hinner := h.captured n.line (n :: inner) _ _ (ht.enter n)
  unfold LowerM.dispatch
  rw [n.line_mapTexts f]
  exact andThen hinner fun _ _ hu => hu.leave

/-- A breach names the node and its line, and no text. -/
theorem breach (n : Node ξ) (b : Breach) :
    Retexts f s (LowerM.breach n b : LowerM ξ α) (LowerM.breach (n.mapTexts f) b) := by
  unfold LowerM.breach
  rw [n.name_mapTexts f, n.line_mapTexts f]
  exact .throw _

/-- A check looks at what the code of the node reported, which is the same in both runs. -/
theorem checkValue (h : Hierarchy) (n : Node ξ) (expected : TypeRef) (effect : StackEffect) :
    Retexts f s (LowerM.checkValue h n expected effect)
      (LowerM.checkValue h (n.mapTexts f) expected effect) := by
  unfold LowerM.checkValue
  split
  · exact breach n _
  · split
    · exact breach n _
    · split
      · exact breach n _
      · rename_i actual _ _
        split
        · exact (emit .box (.type actual) nofun).bind fun _ => .pure _
        · exact .pure _

theorem checkImperative (n : Node ξ) (effect : StackEffect) :
    Retexts f s (LowerM.checkImperative n effect)
      (LowerM.checkImperative (n.mapTexts f) effect) := by
  unfold LowerM.checkImperative
  split
  · exact breach n _
  · split
    · exact breach n _
    · exact .pure _

theorem checkManipulation (n : Node ξ) (effect : StackEffect) :
    Retexts f s (LowerM.checkManipulation n effect)
      (LowerM.checkManipulation (n.mapTexts f) effect) := by
  unfold LowerM.checkManipulation
  split
  · exact breach n _
  · split
    · exact breach n _
    · exact .pure _

end Nodes

end Retexts

/-! ### Trees -/

/-- Leaves of a further kind whose code asks for no text. -/
def LeavesTextless (ξ : Type) [ExtensionCode ξ] : Prop :=
  ∀ x : ξ, AsksNoText (ExtensionCode.code x)

theorem leavesTextless_empty : LeavesTextless Empty := nofun

section Trees

variable [ExtensionCode ξ] {env : Environment}

/-! A child is lowered in step if its own code is: what is put around the code are a dispatch and a
check. -/

theorem retexts_deliver {n : ValueNode ξ}
    (h : Retexts f s (n.code env) ((n.mapTexts f).code env)) (expected : TypeRef) :
    Retexts f s (deliver env n expected (n.code env))
      (deliver env (n.mapTexts f) expected ((n.mapTexts f).code env)) :=
  (h.dispatch (.value n)).bind fun effect => .checkValue env.hierarchy (.value n) expected effect

theorem retexts_execute {n : ImperativeNode ξ}
    (h : Retexts f s (n.code env) ((n.mapTexts f).code env)) :
    Retexts f s (execute n (n.code env)) (execute (n.mapTexts f) ((n.mapTexts f).code env)) :=
  (h.dispatch (.imperative n)).bind fun effect => .checkImperative (.imperative n) effect

theorem retexts_manipulate {n : ManipulationNode ξ}
    (h : Retexts f s (n.code env) ((n.mapTexts f).code env)) :
    Retexts f s (manipulate n (n.code env)) (manipulate (n.mapTexts f) ((n.mapTexts f).code env)) :=
  (h.dispatch (.manipulation n)).bind fun effect => .checkManipulation (.manipulation n) effect

omit [ExtensionCode ξ] in
/-- Whether the hook is called depends on the type, which mapping texts does not change. -/
theorem retexts_callHook (type : TypeRef) :
    Retexts f s (callHook env type : LowerM ξ Unit) (callHook env type) := by
  unfold callHook
  cases env.beginInitFor type with
  | none => exact .pure ()
  | some hook => exact (Retexts.emit .dup .none nofun).bind fun _ => .emit _ (.method hook) nofun

omit [ExtensionCode ξ] in
theorem retexts_convert (target : TypeRef) :
    Retexts f s (convert target : LowerM ξ Unit) (convert target) := by
  unfold convert
  split
  · exact .emit .unboxAny (.type target) nofun
  · exact .emit .castclass (.type target) nofun

mutual

/-- The code of a value node is in step with that of the node with its texts mapped. The recursion
is that of the code, and each case goes through the steps of the code in their order. -/
theorem retexts_value (hleaf : LeavesTextless ξ) :
    ∀ n : ValueNode ξ, Retexts f s (n.code env) ((n.mapTexts f).code env)
  | .string type text line => by
    unfold ValueNode.mapTexts ValueNode.code
    -- the one place where the two runs ask for something else
    exact (Retexts.emitting (retexted_emit .ldstr (.string text))).bind fun _ => .pure _
  | .localRef l line => by
    unfold ValueNode.mapTexts ValueNode.code
    exact (Retexts.loadLocal l line).bind fun _ => .pure _
  | .localInit l value line => by
    unfold ValueNode.mapTexts ValueNode.code
    refine (retexts_deliver (retexts_value hleaf value) l.type).bind fun effect => ?_
    refine (Retexts.emit .dup .none nofun).bind fun _ => ?_
    exact (Retexts.storeLocal l).bind fun _ => .pure effect
  | .beginInit value => by
    unfold ValueNode.mapTexts ValueNode.code
    rw [value.valueType_mapTexts f]
    refine (retexts_deliver (retexts_value hleaf value) value.valueType).bind fun effect => ?_
    exact (retexts_callHook value.valueType).bind fun _ => .pure effect
  | .contextLocal type line => by
    unfold ValueNode.mapTexts ValueNode.code
    exact (Retexts.loadContext line).bind fun _ => .pure _
  | .cast value target line => by
    unfold ValueNode.mapTexts ValueNode.code
    refine (retexts_deliver (retexts_value hleaf value) env.config.core.object).bind fun _ => ?_
    exact (retexts_convert target).bind fun _ => .pure _
  | .parentStack value line => by
    unfold ValueNode.mapTexts ValueNode.code
    rw [value.valueType_mapTexts f]
    -- the marker itself was entered before, and is not among the nodes that are looked for
    refine (Retexts.verifyParents _ line).bind fun _ => ?_
    exact retexts_deliver (retexts_value hleaf value) value.valueType
  | .newObject c arguments line => by
    unfold ValueNode.mapTexts ValueNode.code
    rw [length_argumentsMapTexts]
    split
    · refine (retexts_arguments hleaf arguments c.params).bind fun _ => ?_
      exact (Retexts.emit .newobj (.constructor c) nofun).bind fun _ => .pure _
    · exact Retexts.breach (.value (.newObject c arguments line)) _
  | .extension x => by
    unfold ValueNode.mapTexts ValueNode.code
    exact .emitting (hleaf x).retexted

/-- Arguments are delivered in order, as many as both lists have. Mapping texts changes the length
of neither. -/
theorem retexts_arguments (hleaf : LeavesTextless ξ) :
    ∀ (values : List (ValueNode ξ)) (params : List TypeRef),
    Retexts f s (argumentsCode env values params)
      (argumentsCode env (argumentsMapTexts f values) params)
  | [], params => by
    unfold argumentsMapTexts argumentsCode
    exact .pure ()
  | value :: values, [] => by
    unfold argumentsMapTexts argumentsCode
    exact .pure ()
  | value :: values, param :: params => by
    unfold argumentsMapTexts argumentsCode
    refine (retexts_deliver (retexts_value hleaf value) param).bind fun _ => ?_
    exact retexts_arguments hleaf values params

/-- The code of a statement is in step with that of the statement with its texts mapped. -/
theorem retexts_imperative (hleaf : LeavesTextless ξ) :
    ∀ n : ImperativeNode ξ, Retexts f s (n.code env) ((n.mapTexts f).code env)
  | .valueManipulation value manipulation line => by
    unfold ImperativeNode.mapTexts ImperativeNode.code
    rw [value.valueType_mapTexts f]
    refine (retexts_deliver (retexts_value hleaf value) value.valueType).bind fun _ => ?_
    exact (retexts_manipulate (retexts_manipulation hleaf manipulation)).bind fun _ => .pure _
  | .block children line => by
    unfold ImperativeNode.mapTexts ImperativeNode.code
    exact (retexts_statements hleaf children).bind fun _ => .pure _
  | .extension x => by
    unfold ImperativeNode.mapTexts ImperativeNode.code
    exact .emitting (hleaf x).retexted

/-- Statements are executed in order. -/
theorem retexts_statements (hleaf : LeavesTextless ξ) : ∀ children : List (ImperativeNode ξ),
    Retexts f s (statementsCode env children) (statementsCode env (statementsMapTexts f children))
  | [] => by
    unfold statementsMapTexts statementsCode
    exact .pure ()
  | child :: children => by
    unfold statementsMapTexts statementsCode
    refine (retexts_execute (retexts_imperative hleaf child)).bind fun _ => ?_
    exact retexts_statements hleaf children

/-- The code of a manipulation is in step with that of the manipulation with its texts mapped. -/
theorem retexts_manipulation (hleaf : LeavesTextless ξ) :
    ∀ n : ManipulationNode ξ, Retexts f s (n.code env) ((n.mapTexts f).code env)
  | .imperative body line => by
    unfold ManipulationNode.mapTexts ManipulationNode.code
    refine (Retexts.emit .pop .none nofun).bind fun _ => ?_
    exact (retexts_execute (retexts_imperative hleaf body)).bind fun _ => .pure _
  | .assign property value line => by
    unfold ManipulationNode.mapTexts ManipulationNode.code
    cases property.setter with
    | none => exact Retexts.breach (.manipulation (.assign property value line)) _
    | some setter =>
      refine (retexts_deliver (retexts_value hleaf value) property.type).bind fun _ => ?_
      exact (Retexts.emit _ (.method setter) nofun).bind fun _ => .pure _
  | .group children line => by
    unfold ManipulationNode.mapTexts ManipulationNode.code
    exact (retexts_group hleaf children).bind fun _ => .pure _
  | .extension x => by
    unfold ManipulationNode.mapTexts ManipulationNode.code
    exact .emitting (hleaf x).retexted

/-- Manipulations of one value. As in the code, there is a case for the last of them, which is the
one that gets no copy of the value. -/
theorem retexts_group (hleaf : LeavesTextless ξ) : ∀ children : List (ManipulationNode ξ),
    Retexts f s (groupCode env children) (groupCode env (groupMapTexts f children))
  | [] => by
    unfold groupMapTexts groupCode
    exact .emit .pop .none nofun
  | [child] => by
    unfold groupMapTexts groupMapTexts groupCode
    exact (retexts_manipulate (retexts_manipulation hleaf child)).bind fun _ => .pure _
  | child :: next :: children => by
    have hrest := retexts_group hleaf (next :: children)
    unfold groupMapTexts groupCode
    refine (Retexts.emit .dup .none nofun).bind fun _ => ?_
    exact (retexts_manipulate (retexts_manipulation hleaf child)).bind fun _ => hrest

end

/-- A tree and the tree with its texts mapped are lowered in step. -/
theorem Node.retexts_lower (hleaf : LeavesTextless ξ) (n : Node ξ) (expected : Option TypeRef) :
    Retexts f s (n.lower env expected) ((n.mapTexts f).lower env expected) := by
  cases n with
  | value n =>
    rw [Node.mapTexts, Node.lower, Node.lower, n.valueType_mapTexts f]
    exact retexts_deliver (retexts_value hleaf n) (expected.getD n.valueType)
  | imperative n => exact retexts_execute (retexts_imperative hleaf n)
  | manipulation n => exact retexts_manipulate (retexts_manipulation hleaf n)

end Trees

/-! ### The main statement -/

/-- Rewriting the texts of a tree commutes with lowering it. A visitor that maps the text of every
string node returns the tree with its texts mapped, whatever it makes of its state. From the same
state, this tree is lowered with the same result as the original, or fails with the same error, and
the two states are then the same but for the texts: what happened to the emitter is what the same
requests ask for with the texts mapped, so the code that was appended differs in the tokens of texts
only, and those are the tokens of a text and of the text that it is mapped to. -/
theorem lower_rewritten {σ : Type} [ExtensionCode ξ] (hleaf : LeavesTextless ξ)
    {v : Visitor σ ξ} (hv : v.RewritesTexts f) (n : Node ξ) (x : σ) (env : Environment)
    (expected : Option TypeRef) (s : LowerState ξ) :
    ∃ rewritten x', v.walk n x = some (rewritten, x') ∧ rewritten = n.mapTexts f ∧
      Result.outcome (rewritten.lower env expected s) = Result.outcome (n.lower env expected s) ∧
      LowerState.Retexted f s [] (Result.state (n.lower env expected s))
        (Result.state (rewritten.lower env expected s)) := by
  obtain ⟨x', hwalk⟩ := Visitor.walk_mapTexts hv n x
  have hstep : Result.Same (LowerState.Retexted f s []) (n.lower env expected s)
      ((n.mapTexts f).lower env expected s) := n.retexts_lower hleaf expected [] s s (.refl f s)
  exact ⟨_, x', hwalk, rfl, hstep.outcome_eq⟩

/-- Begins the initialization of a text that is converted. -/
def initText (text : String) : Node Empty :=
  .value (.beginInit (.cast (.string default text ⟨1, 1⟩) default ⟨0, 0⟩))

/-- The text is rewritten below two other nodes, and the code is the same but for its token. -/
theorem lower_rewritten_initText :
    LeavesTextless Empty ∧
    (Visitor.textRewriter fun _ => "after" : Visitor Nat Empty).RewritesTexts (fun _ => "after") ∧
    (Visitor.textRewriter fun _ => "after").walk (initText "before") 0 =
      some (initText "after", 0) ∧
    ∃ effect t t', (initText "before").lower plainEnvironment none newState = .ok effect t ∧
      (initText "after").lower plainEnvironment none newState = .ok effect t' ∧
      t.emission.emitter.instructions.toList.map (·.opcode) = [.ldstr, .castclass] ∧
      Emission.Retexted (fun _ => "after") newState.emission t.emission t'.emission := by
  have hvisitor : (Visitor.textRewriter fun _ => "after" : Visitor Nat Empty).RewritesTexts
      (fun _ => "after") := Visitor.rewritesTexts_textRewriter _
  have hmapped : (initText "before").mapTexts (fun _ => "after") = initText "after" := rfl
  obtain ⟨_, _, -, rfl, houtcome, hstates⟩ := lower_rewritten leavesTextless_empty hvisitor
    (initText "before") 0 plainEnvironment none newState
  obtain ⟨effect, t, hlower, hcode⟩ : ∃ effect t,
      (initText "before").lower plainEnvironment none newState = .ok effect t ∧
      t.emission.emitter.instructions.toList.map (·.opcode) = [.ldstr, .castclass] :=
    ⟨_, _, rfl, rfl⟩
  rw [hmapped, hlower] at houtcome hstates
  cases hrewritten : (initText "after").lower plainEnvironment none newState with
  | error e t' =>
    rw [hrewritten] at houtcome
    cases houtcome
  | ok effect' t' =>
    rw [hrewritten] at houtcome hstates
    cases houtcome
    exact ⟨leavesTextless_empty, hvisitor, rfl, effect, t, t', hlower, rfl, hcode,
      hstates.emission⟩

end MarkupLowering
