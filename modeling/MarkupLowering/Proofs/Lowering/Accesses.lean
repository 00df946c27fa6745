import MarkupLowering.Proofs.Lowering.Traversal
import MarkupLowering.Proofs.Lowering.Progress

/-!
# MarkupLowering.Proofs.Lowering.Accesses

**Which locals the code of a tree uses**, and in which order.

* `Node.accesses` reads the loads and stores of a tree off the tree. There is one load for each
  reference, one store for each initialization, and one call of the hook for each value that gets
  it (`Node.covers_plan`); a load follows right after the dispatch of its reference (`Paired`).
* `Emitter.slotUses` reads the uses of slots off a body; an act appends the one for its access
  (`Act.Done.slotUses`).
-/

namespace MarkupLowering

open Emission LowerM

theorem filterMap_cons_toList {α β : Type} (f : α → Option β) (a : α) (as : List α) :
    (a :: as).filterMap f = (f a).toList ++ as.filterMap f := by
  rw [List.filterMap_cons]
  cases f a <;> rfl

/-! ### Accesses of a tree -/

/-- A use of a local slot. -/
inductive Access
  | load (l : CompilerLocal) (line : Position)
  | store (l : CompilerLocal)
  | context (line : Position)

/-- The local that is loaded, and where. -/
def Access.load? : Access → Option (CompilerLocal × Position)
  | .load l line => some (l, line)
  | _ => none

/-- The local that is stored. -/
def Access.store? : Access → Option CompilerLocal
  | .store l => some l
  | _ => none

mutual

/-- The accesses in the code of a value node, in order. A local is stored after its value. -/
def ValueNode.accesses : ValueNode Empty → List Access
  | .string .. => []
  | .localRef l line => [.load l line]
  | .localInit l value _ => value.accesses ++ [.store l]
  | .contextLocal _ line => [.context line]
  | .beginInit value | .cast value _ _ | .parentStack value _ => value.accesses
  | .newObject _ arguments _ => argumentsAccesses arguments

/-- The accesses in the code of arguments, which are lowered in order. -/
def argumentsAccesses : List (ValueNode Empty) → List Access
  | [] => []
  | value :: values => value.accesses ++ argumentsAccesses values

/-- The accesses in the code of an imperative node. -/
def ImperativeNode.accesses : ImperativeNode Empty → List Access
  | .valueManipulation value manipulation _ => value.accesses ++ manipulation.accesses
  | .block children _ => statementsAccesses children

/-- The accesses in the code of statements, which are lowered in order. -/
def statementsAccesses : List (ImperativeNode Empty) → List Access
  | [] => []
  | child :: children => child.accesses ++ statementsAccesses children

/-- The accesses in the code of a manipulation node. -/
def ManipulationNode.accesses : ManipulationNode Empty → List Access
  | .imperative body _ => body.accesses
  | .assign _ value _ => value.accesses
  | .group children _ => groupAccesses children

/-- The accesses in the code of a group. To copy its value is no access. -/
def groupAccesses : List (ManipulationNode Empty) → List Access
  | [] => []
  | child :: children => child.accesses ++ groupAccesses children

end

/-- The accesses in the code of a tree, in order. -/
def Node.accesses : Node Empty → List Access
  | .value n => n.accesses
  | .imperative n => n.accesses
  | .manipulation n => n.accesses

/-- The local that a node refers to, and where. -/
def Node.ref? : Node Empty → Option (CompilerLocal × Position)
  | .value (.localRef l line) => some (l, line)
  | _ => none

/-- The local that a node initializes. -/
def Node.init? : Node Empty → Option CompilerLocal
  | .value (.localInit l _ _) => some l
  | _ => none

/-- The hook that a node calls. -/
def Node.hook? (env : Environment) : Node Empty → Option MethodRef
  | .value (.beginInit object) => env.beginInitFor object.valueType
  | _ => none

/-! ### Accesses among steps -/

/-- The access that an act makes. -/
def Act.access? : Act → Option Access
  | .load l line => some (.load l line)
  | .store l => some (.store l)
  | .context line => some (.context line)
  | _ => none

/-- The access that a step makes. -/
def Step.access? : Step → Option Access
  | .act a => a.access?
  | _ => none

/-- The hook that an act calls. -/
def Act.hook? : Act → Option MethodRef
  | .hook m => some m
  | _ => none

/-- The hook that a step calls. -/
def Step.hook? : Step → Option MethodRef
  | .act a => a.hook?
  | _ => none

/-- The reference that a step dispatches. -/
def Step.ref? : Step → Option (CompilerLocal × Position)
  | .enter n => n.ref?
  | _ => none

/-- The local that a step loads. -/
def Step.load? (step : Step) : Option (CompilerLocal × Position) := step.access?.bind Access.load?

/-- Every load comes right after the reference that it is for. -/
inductive Paired : List Step → Prop
  | nil : Paired []
  | read (l : CompilerLocal) (line : Position) {steps : List Step} : Paired steps →
      Paired (.enter (.value (.localRef l line)) :: .act (.load l line) :: steps)
  | other {step : Step} {steps : List Step} : step.ref? = none → step.load? = none → Paired steps →
      Paired (step :: steps)

theorem Paired.append {steps steps' : List Step} (h : Paired steps) (h' : Paired steps') :
    Paired (steps ++ steps') := by
  induction h with
  | nil => exact h'
  | read l line _ ih => exact .read l line ih
  | other href hload _ ih => exact .other href hload ih

/-- Wherever steps stop, all references that were dispatched were loaded, unless it is a load that
comes next. -/
theorem Paired.refs_of_split {steps done rest : List Step} {next : Step} (h : Paired steps)
    (hsplit : steps = done ++ next :: rest) :
    (next.load? = none ∧ done.filterMap Step.ref? = done.filterMap Step.load?) ∨
    ∃ l line, next = .act (.load l line) ∧
      done.filterMap Step.ref? = done.filterMap Step.load? ++ [(l, line)] := by
  induction h generalizing done with
  | nil => simp at hsplit
  | read l line _ ih =>
    rcases done with _ | ⟨_, _ | ⟨_, done⟩⟩ <;>
      simp only [List.nil_append, List.cons_append, List.cons.injEq] at hsplit
    · obtain ⟨rfl, -⟩ := hsplit
      exact Or.inl ⟨rfl, rfl⟩
    · obtain ⟨rfl, rfl, -⟩ := hsplit
      exact Or.inr ⟨l, line, rfl, rfl⟩
    · obtain ⟨rfl, rfl, hsplit⟩ := hsplit
      rcases ih hsplit with ⟨hnext, hrefs⟩ | ⟨l', line', rfl, hrefs⟩
      · exact Or.inl ⟨hnext, congrArg ((l, line) :: ·) hrefs⟩
      · exact Or.inr ⟨l', line', rfl, congrArg ((l, line) :: ·) hrefs⟩
  | other href hload _ ih =>
    rcases done with _ | ⟨_, done⟩ <;>
      simp only [List.nil_append, List.cons_append, List.cons.injEq] at hsplit
    · obtain ⟨rfl, -⟩ := hsplit
      exact Or.inl ⟨hload, rfl⟩
    · obtain ⟨rfl, hsplit⟩ := hsplit
      rw [List.filterMap_cons_none href, List.filterMap_cons_none hload]
      exact ih hsplit

theorem Paired.refs {steps : List Step} (h : Paired steps) :
    steps.filterMap Step.ref? = steps.filterMap Step.load? := by
  induction h with
  | nil => rfl
  | read l line _ ih => exact congrArg ((l, line) :: ·) ih
  | other href hload _ ih =>
    rw [List.filterMap_cons_none href, List.filterMap_cons_none hload, ih]

/-- The steps are those of a part of a tree, with its accesses and the nodes of a walk. -/
structure Covers (env : Environment) (steps : List Step) (accesses : List Access)
    (walk : List (Occurrence Empty)) : Prop where
  paired : Paired steps
  order : steps.filterMap Step.access? = accesses
  loads : accesses.filterMap Access.load? = walk.filterMap (·.node.ref?)
  stores : (accesses.filterMap Access.store?).Perm (walk.filterMap (·.node.init?))
  hooks : (steps.filterMap Step.hook?).Perm (walk.filterMap (·.node.hook? env))

theorem filterMap_rooted (n : Node Empty) (walk : List (Occurrence Empty)) {α : Type}
    (f : Node Empty → Option α) :
    (rooted n walk).filterMap (fun o => f o.node) =
      (f n).toList ++ walk.filterMap fun o => f o.node := by
  rw [rooted, filterMap_cons_toList, List.filterMap_map]
  rfl

namespace Covers

variable {env : Environment} {steps steps' : List Step} {as as' : List Access}
variable {walk walk' : List (Occurrence Empty)}

protected theorem nil : Covers env [] [] [] := ⟨.nil, rfl, rfl, .nil, .nil⟩

theorem append (h : Covers env steps as walk) (h' : Covers env steps' as' walk') :
    Covers env (steps ++ steps') (as ++ as') (walk ++ walk') where
  paired := h.paired.append h'.paired
  order := by rw [List.filterMap_append, h.order, h'.order]
  loads := by rw [List.filterMap_append, List.filterMap_append, h.loads, h'.loads]
  stores := by
    rw [List.filterMap_append, List.filterMap_append]
    exact h.stores.append h'.stores
  hooks := by
    rw [List.filterMap_append, List.filterMap_append]
    exact h.hooks.append h'.hooks

/-- Steps of a tree followed by steps that no node of it stands for. -/
theorem andThen (h : Covers env steps as walk) (h' : Covers env steps' [] []) :
    Covers env (steps ++ steps') as walk := by
  have hboth := h.append h'
  rwa [List.append_nil, List.append_nil] at hboth

/-- A step that is neither an access nor a call of the hook. -/
theorem other {step : Step} (href : step.ref? = none) (haccess : step.access? = none)
    (hhook : step.hook? = none) : Covers env [step] [] [] := by
  refine ⟨.other href (by rw [Step.load?, haccess]; rfl) .nil, ?_, rfl, .nil, ?_⟩
  · rw [List.filterMap_cons_none haccess]
    rfl
  · rw [List.filterMap_cons_none hhook]
    exact .nil

theorem act {a : Act} (haccess : a.access? = none) (hhook : a.hook? = none) :
    Covers env [.act a] [] [] := other rfl haccess hhook

theorem refuse (n : Node Empty) (b : Breach) : Covers env [.refuse n b] [] [] := other rfl rfl rfl

/-- A node that stands for steps which are neither. -/
theorem rooted {n : Node Empty} (h : Covers env steps as walk) (href : n.ref? = none)
    (hinit : n.init? = none) (hhook : n.hook? env = none) :
    Covers env (.enter n :: steps) as (rooted n walk) where
  paired := .other href rfl h.paired
  order := h.order
  loads := by
    rw [filterMap_rooted n walk Node.ref?, href]
    exact h.loads
  stores := by
    rw [filterMap_rooted n walk Node.init?, hinit]
    exact h.stores
  hooks := by
    rw [filterMap_rooted n walk (Node.hook? env), hhook]
    exact h.hooks

theorem localRef (l : CompilerLocal) (line : Position) :
    Covers env [.enter (.value (.localRef l line)), .act (.load l line)] [.load l line]
      (MarkupLowering.rooted (.value (.localRef l line)) []) :=
  ⟨.read l line .nil, rfl, rfl, .nil, .nil⟩

theorem contextLocal (type : TypeRef) (line : Position) :
    Covers env [.enter (.value (.contextLocal type line)), .act (.context line)]
      [.context line] (MarkupLowering.rooted (.value (.contextLocal type line)) []) :=
  ⟨.other rfl rfl (.other rfl rfl .nil), rfl, rfl, .nil, .nil⟩

/-- A local is stored after all that its value accesses. -/
theorem localInit (l : CompilerLocal) (value : ValueNode Empty) (line : Position)
    (h : Covers env steps as walk) :
    Covers env
      (.enter (.value (.localInit l value line)) :: (steps ++ [.act .copy, .act (.store l)]))
      (as ++ [.store l]) (MarkupLowering.rooted (.value (.localInit l value line)) walk) where
  paired := .other rfl rfl (h.paired.append (.other rfl rfl (.other rfl rfl .nil)))
  order := by
    rw [List.filterMap_cons_none rfl, List.filterMap_append, h.order]
    rfl
  loads := by
    rw [filterMap_rooted _ walk Node.ref?, ← h.loads]
    simp [Access.load?, Node.ref?]
  stores := by
    rw [filterMap_rooted _ walk Node.init?, List.filterMap_append]
    exact List.perm_append_comm.trans (h.stores.cons l)
  hooks := by
    rw [filterMap_rooted _ walk (Node.hook? env), List.filterMap_cons_none rfl,
      List.filterMap_append]
    exact (List.append_nil _).symm ▸ h.hooks

/-- The hook is called after all that is done for the value. -/
theorem beginInit (value : ValueNode Empty) (h : Covers env steps as walk) :
    Covers env
      (.enter (.value (.beginInit value)) :: (steps ++ (Plan.callHook env value.valueType).steps))
      as (MarkupLowering.rooted (.value (.beginInit value)) walk) := by
  have hroot : Node.hook? env (.value (.beginInit value)) = env.beginInitFor value.valueType := rfl
  unfold Plan.callHook
  cases hfor : env.beginInitFor value.valueType with
  | none =>
    have hnone := h.rooted (n := .value (.beginInit value)) rfl rfl (hroot.trans hfor)
    exact (List.append_nil steps).symm ▸ hnone
  | some hook =>
    refine ⟨.other rfl rfl (h.paired.append (.other rfl rfl .nil)), ?_, ?_, ?_, ?_⟩
    · rw [List.filterMap_cons_none rfl, List.filterMap_append, h.order]
      exact List.append_nil _
    · rw [filterMap_rooted _ walk Node.ref?]
      exact h.loads
    · rw [filterMap_rooted _ walk Node.init?]
      exact h.stores
    · rw [filterMap_rooted _ walk (Node.hook? env), hroot, hfor, List.filterMap_cons_none rfl,
        List.filterMap_append]
      exact List.perm_append_comm.trans (h.hooks.cons hook)

end Covers

section Trees

variable (env : Environment)

theorem covers_receive (n : Node Empty) (expected actual : TypeRef) :
    Covers env (Plan.receive env n expected actual).steps [] [] := by
  unfold Plan.receive
  split
  · split
    · exact .act rfl rfl
    · exact .nil
  · exact .refuse _ _

theorem covers_deliver {n : ValueNode Empty} (expected : TypeRef)
    (h : Covers env (.enter (.value n) :: (n.plan env).steps) n.accesses
      (rooted (.value n) n.descendants)) :
    Covers env (Plan.deliver env n expected (n.plan env)).steps n.accesses
      (rooted (.value n) n.descendants) :=
  h.andThen (covers_receive env (.value n) expected n.reported)

mutual

/-- The plan of a value node covers the node. -/
theorem covers_value : ∀ n : ValueNode Empty,
    Covers env (.enter (.value n) :: (n.plan env).steps) n.accesses
      (rooted (.value n) n.descendants)
  | .string type text line => by
    unfold ValueNode.plan ValueNode.accesses ValueNode.descendants
    exact (Covers.act rfl rfl).rooted rfl rfl rfl
  | .localRef l line => by
    unfold ValueNode.plan ValueNode.accesses ValueNode.descendants
    exact .localRef l line
  | .localInit l value line => by
    unfold ValueNode.plan ValueNode.accesses ValueNode.descendants
    exact (covers_deliver env l.type (covers_value value)).localInit l value line
  | .beginInit value => by
    unfold ValueNode.plan ValueNode.accesses ValueNode.descendants
    exact (covers_deliver env value.valueType (covers_value value)).beginInit value
  | .contextLocal type line => by
    unfold ValueNode.plan ValueNode.accesses ValueNode.descendants
    exact .contextLocal type line
  | .cast value target line => by
    unfold ValueNode.plan ValueNode.accesses ValueNode.descendants
    have hvalue := covers_deliver env env.config.core.object (covers_value value)
    exact (hvalue.andThen (.act rfl rfl)).rooted rfl rfl rfl
  | .parentStack value line => by
    unfold ValueNode.plan ValueNode.accesses ValueNode.descendants
    have hvalue := covers_deliver env value.valueType (covers_value value)
    exact ((Covers.act rfl rfl).append hvalue).rooted rfl rfl rfl
  | .newObject c arguments line => by
    unfold ValueNode.plan ValueNode.accesses ValueNode.descendants
    have harguments := (covers_arguments arguments c.params).andThen (.act (a := .create c) rfl rfl)
    refine Covers.rooted ?_ rfl rfl rfl
    unfold Plan.steps
    split
    · exact harguments
    · exact (Covers.refuse _ _).append harguments

/-- Arguments are covered one after the other. Those too many have a plan and a walk as well. -/
theorem covers_arguments : ∀ (values : List (ValueNode Empty)) (params : List TypeRef),
    Covers env (argumentsPlan env values params).steps (argumentsAccesses values)
      (argumentsWalk values)
  | [], params => by
    unfold argumentsPlan argumentsAccesses argumentsWalk
    exact .nil
  | value :: values, params => by
    unfold argumentsPlan argumentsAccesses argumentsWalk
    have hvalue := covers_deliver env (params.headD value.valueType) (covers_value value)
    exact hvalue.append (covers_arguments values params.tail)

/-- The plan of a statement covers the statement. -/
theorem covers_imperative : ∀ n : ImperativeNode Empty,
    Covers env (n.plan env).steps n.accesses n.descendants
  | .valueManipulation value manipulation line => by
    unfold ImperativeNode.plan ImperativeNode.accesses ImperativeNode.descendants
    have hvalue := covers_deliver env value.valueType (covers_value value)
    exact hvalue.append ((covers_manipulation manipulation).rooted rfl rfl rfl)
  | .block children line => by
    unfold ImperativeNode.plan ImperativeNode.accesses ImperativeNode.descendants
    exact covers_statements children

/-- Statements are covered one after the other. -/
theorem covers_statements : ∀ children : List (ImperativeNode Empty),
    Covers env (statementsPlan env children).steps (statementsAccesses children)
      (statementsWalk children)
  | [] => by
    unfold statementsPlan statementsAccesses statementsWalk
    exact .nil
  | child :: children => by
    unfold statementsPlan statementsAccesses statementsWalk
    exact ((covers_imperative child).rooted rfl rfl rfl).append (covers_statements children)

/-- The plan of a manipulation covers the manipulation. -/
theorem covers_manipulation : ∀ n : ManipulationNode Empty,
    Covers env (n.plan env).steps n.accesses n.descendants
  | .imperative body line => by
    unfold ManipulationNode.plan ManipulationNode.accesses ManipulationNode.descendants
    exact (Covers.act rfl rfl).append ((covers_imperative body).rooted rfl rfl rfl)
  | .assign property value line => by
    unfold ManipulationNode.plan ManipulationNode.accesses ManipulationNode.descendants
    have hvalue := covers_deliver env property.type (covers_value value)
    cases property.setter with
    | none => exact (Covers.refuse _ _).append hvalue
    | some setter => exact hvalue.andThen (.act rfl rfl)
  | .group children line => by
    unfold ManipulationNode.plan ManipulationNode.accesses ManipulationNode.descendants
    exact covers_group children

/-- The children of a group are covered one after the other. The copies in between are acts that
access nothing. -/
theorem covers_group : ∀ children : List (ManipulationNode Empty),
    Covers env (groupPlan env children).steps (groupAccesses children) (groupWalk children)
  | [] => by
    unfold groupPlan groupAccesses groupWalk
    exact .act rfl rfl
  | [child] => by
    unfold groupPlan groupAccesses groupWalk
    have hchild := (covers_manipulation child).rooted (n := .manipulation child) rfl rfl rfl
    have hboth := hchild.append .nil
    rwa [List.append_nil] at hboth
  | child :: next :: children => by
    unfold groupPlan groupAccesses groupWalk
    have hchild := (covers_manipulation child).rooted (n := .manipulation child) rfl rfl rfl
    exact (Covers.act rfl rfl).append (hchild.append (covers_group (next :: children)))

end

end Trees

/-- The plan of a tree covers the tree: it loads as often as nodes refer to a local, stores as often
as nodes initialize one, and calls the hook for the values that get it. -/
theorem Node.covers_plan (env : Environment) (n : Node Empty) (expected : Option TypeRef) :
    Covers env (n.plan env expected).steps n.accesses n.occurrences := by
  cases n with
  | value n => exact covers_deliver env _ (covers_value env n)
  | imperative n => exact (covers_imperative env n).rooted rfl rfl rfl
  | manipulation n => exact (covers_manipulation env n).rooted rfl rfl rfl

/-! ### Accesses in the body -/

/-- The slot that an instruction uses. -/
def PendingInstruction.slotUse? (i : PendingInstruction) : Option (Opcode × UInt16) :=
  match i.argument with
  | .ready (.slot index) => some (i.opcode, index)
  | _ => none

/-- The uses of slots in a body, in order. -/
def Emitter.slotUses (e : Emitter) : List (Opcode × UInt16) :=
  e.instructions.toList.filterMap PendingInstruction.slotUse?

theorem Emitter.slotUses_append (e : Emitter) (i : PendingInstruction) :
    (e.append i).slotUses = e.slotUses ++ i.slotUse?.toList := by
  unfold Emitter.slotUses Emitter.append
  rw [Array.toList_push, List.filterMap_append, filterMap_cons_toList, List.filterMap_nil,
    List.append_nil]

theorem Emitter.SameCode.slotUses {e e' : Emitter} (h : e.SameCode e') :
    e'.slotUses = e.slotUses := by
  rw [Emitter.slotUses, h.instructions]
  rfl

/-- The slot that is asked for by an instruction with a slot for operand. -/
def slotAsked? : Opcode × Operand → Option (Opcode × UInt16)
  | (op, .slot slot) => some (op, slot.index)
  | _ => none

/-- Whether the operand is a number. Numbers may stand for slots as well. -/
def Operand.isInt : Operand → Bool
  | .int _ => true
  | _ => false

theorem Emission.Reduces.slotUse? {m : Module} {e : Emitter} {op : Opcode} {x : Operand}
    {p : PendingArgument} (h : Reduces m e op.operandType x p) (hx : x.isInt = false) :
    PendingInstruction.slotUse? ⟨op, p⟩ = slotAsked? (op, x) := by
  generalize op.operandType = t at h
  cases h with
  | shortInt | int | argument | slotAt => cases hx
  | slotOf _ hslot =>
    obtain ⟨rfl, -⟩ := Emitter.slotOf_inv hslot
    rfl
  | _ => rfl

namespace Request

theorem slotUses_prefix {r : Request} {s s' : Emission} (h : r.perform s = .ok () s') :
    s.emitter.slotUses <+: s'.emitter.slotUses := by
  rcases perform_code h with ⟨op, x, p, -, -, -, hs⟩ | ⟨-, hsame⟩
  · rw [hs, Emitter.slotUses_append]
    exact List.prefix_append _ _
  · refine ⟨[], ?_⟩
    rw [List.append_nil, Emitter.slotUses, Emitter.slotUses, hsame]

/-- A script appends the uses of slots that it asks for. -/
theorem slotUses_script {rs : List Request} {s s' : Emission} (h : script rs s = .ok () s')
    (hrs : ∀ p ∈ emitted rs, p.2.isInt = false) :
    s'.emitter.slotUses = s.emitter.slotUses ++ (emitted rs).filterMap slotAsked? := by
  induction rs generalizing s with
  | nil =>
    obtain ⟨-, rfl⟩ := pure_inv h
    exact (List.append_nil _).symm
  | cons r rs ih =>
    obtain ⟨_, s₁, hr, hscript⟩ := bind_inv h
    rcases perform_code hr with ⟨op, x, p, rfl, -, hred, hs⟩ | ⟨hnone, hsame⟩
    · have hcode : emitted (.emit op x :: rs) = (op, x) :: emitted rs := rfl
      rw [hcode] at hrs ⊢
      have hrest := ih hscript fun q hq => hrs q (List.mem_cons_of_mem _ hq)
      have huse := hred.slotUse? (hrs (op, x) List.mem_cons_self)
      rw [hrest, hs, Emitter.slotUses_append, huse, filterMap_cons_toList, List.append_assoc]
    · have hcode : emitted (r :: rs) = emitted rs := List.filterMap_cons_none hnone
      rw [hcode] at hrs ⊢
      rw [ih hscript hrs, Emitter.slotUses, hsame]
      rfl

end Request

theorem Act.isInt_code (a : Act) (c : Context Empty) : ∀ p ∈ a.code c, p.2.isInt = false := by
  intro p hp
  cases a <;> simp only [Act.code, List.mem_map, List.mem_cons, List.not_mem_nil, or_false] at hp
  case hook => rcases hp with rfl | rfl <;> rfl
  case load | store | context =>
    obtain ⟨slot, -, rfl⟩ := hp
    rfl
  all_goals
    subst hp
    rfl

/-- The instruction for an access, with the slots of a context. -/
def Access.instruction (c : Context Empty) : Access → Option (Opcode × UInt16)
  | .load l _ => (c.slot? l).map fun slot => (.ldloc, slot.index)
  | .store l => (c.slot? l).map fun slot => (.stloc, slot.index)
  | .context _ => c.contextLocal.map fun slot => (.ldloc, slot.index)

theorem Act.slotAsked_code (a : Act) (c : Context Empty) :
    (a.code c).filterMap slotAsked? = (a.access?.bind (·.instruction c)).toList := by
  cases a with
  | load l line =>
    simp only [Act.code, Act.access?, Option.bind_some, Access.instruction]
    cases c.slot? l <;> rfl
  | store l =>
    simp only [Act.code, Act.access?, Option.bind_some, Access.instruction]
    cases c.slot? l <;> rfl
  | context line =>
    simp only [Act.code, Act.access?, Option.bind_some, Access.instruction]
    cases c.contextLocal <;> rfl
  | _ => rfl

theorem Act.Done.slotUses {a : Act} {s s' : LowerState Empty} (h : a.Done s s') :
    s'.emission.emitter.slotUses = s.emission.emitter.slotUses ++
      (a.access?.bind (·.instruction s'.context)).toList := by
  obtain ⟨rs, hscript, hcode⟩ := h.script
  rw [Request.slotUses_script hscript (by rw [hcode]; exact a.isInt_code _), hcode,
    Act.slotAsked_code]

end MarkupLowering
