import MarkupLowering.Lowering.Basic
import MarkupLowering.Proofs.Steps

/-!
# MarkupLowering.Proofs.Lowering.Plan

**Lowering is straight-line.** What a tree is lowered to does not depend on the state: the tree
fixes in advance which instructions are asked for, in which order, and which contracts are broken.
Only slots are chosen on the way.

* A `Plan` is such code: `Act`s in sequence, with the nodes that they are carried out for around
  them, and refusals where a contract is broken.
* `Node.plan` reads the plan off a tree, by one case for each kind of node.
* `Node.lower_eq_perform` is the main statement: lowering is carrying out the plan. Facts about
  lowering are facts about plans from there on, proved by induction on plans or along their steps.

What follows a refusal is never carried out. It is planned all the same, so that a plan has every
node of its tree.
-/

namespace MarkupLowering

open Emission LowerM

/-! ### Plans -/

/-- One thing to do: instructions to append, or a check. -/
inductive Act
  /-- Pushes a text of a type. -/
  | text (type : TypeRef) (s : String)
  | load (l : CompilerLocal) (line : Position)
  | store (l : CompilerLocal)
  /-- Pushes the context object. -/
  | context (line : Position)
  | copy
  | drop
  | create (c : ConstructorRef)
  /-- Calls the setter of a property. -/
  | assign (property : PropertyRef) (setter : MethodRef)
  /-- Calls an initialization hook on a copy of the value. -/
  | hook (m : MethodRef)
  | box (type : TypeRef)
  | convert (target : TypeRef)
  | verify (name : String) (line : Position)

/-- Does an action. -/
def Act.perform : Act → LowerM Empty Unit
  | .text _ s => emitting (ldstr s)
  | .load l line => loadLocal l line
  | .store l => storeLocal l
  | .context line => loadContext line
  | .copy => emitting dup
  | .drop => emitting pop
  | .create c => emitting (newobj c)
  | .assign _ setter => emitting (call setter)
  | .hook m => do
    emitting dup
    emitting (call m)
  | .box type => emitting (Emission.box type)
  | .convert target => MarkupLowering.convert target
  | .verify name line => verifyParents name line

/-- Straight-line code. -/
inductive Plan
  | nothing
  | act (a : Act)
  /-- The node breaks its contract. -/
  | refuse (n : Node Empty) (b : Breach)
  | seq (p q : Plan)
  /-- A plan that is carried out while a node is being lowered. -/
  | scoped (n : Node Empty) (p : Plan)

/-- Carries a plan out, up to the first failure. -/
def Plan.perform : Plan → LowerM Empty Unit
  | .nothing => pure ()
  | .act a => a.perform
  | .refuse n b => breach n b
  | .seq p q => do
    p.perform
    q.perform
  | .scoped n p => dispatch n p.perform

/-! ### The plan of a tree -/

/-- The type that a value has for its receiver: what was boxed is known as what it was boxed for. -/
def delivered (expected actual : TypeRef) : TypeRef :=
  if actual.isValueType && !expected.isValueType then expected else actual

/-- The type that the code of a node reports. -/
def ValueNode.reported : ValueNode Empty → TypeRef
  | .string type _ _ => type
  | .localRef l _ => l.type
  | .localInit l value _ => delivered l.type value.reported
  | .beginInit value => delivered value.valueType value.reported
  | .contextLocal type _ => type
  | .cast _ target _ => target
  | .parentStack value _ => delivered value.valueType value.reported
  | .newObject c _ _ => c.declaring

section Trees

variable (env : Environment)

/-- Takes a value of type `actual` from a node as a value of type `expected`. -/
def Plan.receive (n : Node Empty) (expected actual : TypeRef) : Plan :=
  if env.hierarchy.assignable expected actual then
    if actual.isValueType && !expected.isValueType then .act (.box actual) else .nothing
  else .refuse n (.notAssignable actual.fullName expected.fullName)

/-- The plan to lower a value node with its own plan `p` and to take its value. -/
def Plan.deliver (n : ValueNode Empty) (expected : TypeRef) (p : Plan) : Plan :=
  .seq (.scoped (.value n) p) (.receive env (.value n) expected n.reported)

/-- The plan to call the initialization hook, if values of a type get one. -/
def Plan.callHook (type : TypeRef) : Plan :=
  match env.beginInitFor type with
  | none => .nothing
  | some hook => .act (.hook hook)

mutual

/-- The plan of a value node. -/
def ValueNode.plan : ValueNode Empty → Plan
  | .string type text _ => .act (.text type text)
  | .localRef l line => .act (.load l line)
  | .localInit l value _ =>
    .seq (.deliver env value l.type value.plan) (.seq (.act .copy) (.act (.store l)))
  | .beginInit value =>
    .seq (.deliver env value value.valueType value.plan) (.callHook env value.valueType)
  | .contextLocal _ line => .act (.context line)
  | .cast value target _ =>
    .seq (.deliver env value env.config.core.object value.plan) (.act (.convert target))
  | .parentStack value line =>
    .seq (.act (.verify (ValueNode.parentStack value line).name line))
      (.deliver env value value.valueType value.plan)
  | .newObject c arguments line =>
    .seq
      (if c.params.length = arguments.length then .nothing
      else .refuse (.value (.newObject c arguments line))
        (.argumentCount c.render c.params.length arguments.length))
      (.seq (argumentsPlan arguments c.params) (.act (.create c)))

/-- The plan of constructor arguments. An argument too many is delivered as what it is. -/
def argumentsPlan : List (ValueNode Empty) → List TypeRef → Plan
  | [], _ => .nothing
  | value :: values, params =>
    .seq (.deliver env value (params.headD value.valueType) value.plan)
      (argumentsPlan values params.tail)

/-- The plan of an imperative node. -/
def ImperativeNode.plan : ImperativeNode Empty → Plan
  | .valueManipulation value manipulation _ =>
    .seq (.deliver env value value.valueType value.plan)
      (.scoped (.manipulation manipulation) manipulation.plan)
  | .block children _ => statementsPlan children

/-- The plan of statements in order. -/
def statementsPlan : List (ImperativeNode Empty) → Plan
  | [] => .nothing
  | child :: children => .seq (.scoped (.imperative child) child.plan) (statementsPlan children)

/-- The plan of a manipulation node. -/
def ManipulationNode.plan : ManipulationNode Empty → Plan
  | .imperative body _ => .seq (.act .drop) (.scoped (.imperative body) body.plan)
  | .assign property value line =>
    match property.setter with
    | none =>
      .seq (.refuse (.manipulation (.assign property value line))
        (.noSetter property.name.text property.declaring.fullName))
        (.deliver env value property.type value.plan)
    | some setter =>
      .seq (.deliver env value property.type value.plan) (.act (.assign property setter))
  | .group children _ => groupPlan children

/-- The plan of manipulations of one value. -/
def groupPlan : List (ManipulationNode Empty) → Plan
  | [] => .act .drop
  | [child] => .scoped (.manipulation child) child.plan
  | child :: children =>
    .seq (.act .copy) (.seq (.scoped (.manipulation child) child.plan) (groupPlan children))

end

/-- The plan of a tree. -/
def Node.plan (n : Node Empty) (expected : Option TypeRef) : Plan :=
  match n with
  | .value n => .deliver env n (expected.getD n.valueType) (n.plan env)
  | .imperative n => .scoped (.imperative n) (n.plan env)
  | .manipulation n => .scoped (.manipulation n) (n.plan env)

end Trees

/-- What lowering a tree reports. -/
def Node.effect (n : Node Empty) (expected : Option TypeRef) : StackEffect :=
  match n with
  | .value n => .value (delivered (expected.getD n.valueType) n.reported)
  | .imperative _ => .void 0
  | .manipulation _ => .void 1

/-! ### Lowering carries the plan out -/

section Returning

variable {α β : Type} (step : LowerM Empty α) (b : β)

/-- What is returned at the end makes no difference to what is done after a step. -/
theorem LowerM.andThen_andPure (f : LowerState Empty → LowerState Empty) :
    andThen (do let _ ← step; pure b) f = (do let _ ← andThen step f; pure b) := by
  funext s
  simp only [LowerM.andThen, Bind.bind, EStateM.bind]
  cases step s <;> rfl

theorem LowerM.captured_andPure (line : Position) :
    captured line (do let _ ← step; pure b) = (do let _ ← captured line step; pure b) := by
  funext s
  unfold LowerM.captured
  simp only [Bind.bind, EStateM.bind]
  cases s.context.file with
  | none => rfl
  | some file =>
    dsimp only
    split
    · rfl
    · exact congrFun (andThen_andPure step b _) _

theorem LowerM.dispatch_andPure (n : Node Empty) :
    dispatch n (do let _ ← step; pure b) = (do let _ ← dispatch n step; pure b) := by
  funext s
  unfold LowerM.dispatch
  rw [captured_andPure, andThen_andPure]
  rfl

end Returning

/-- The code carries a plan out and then returns a value. -/
def Plan.Plans {α : Type} (p : Plan) (code : LowerM Empty α) (a : α) : Prop :=
  code = (do p.perform; pure a)

namespace Plan.Plans

variable {α β : Type} {p q : Plan} {code : LowerM Empty α} {a : α} {b : β}

/-- A single action. -/
protected theorem act (x : Act) (b : β) : (Plan.act x).Plans (do x.perform; pure b) b := rfl

/-- A single action that nothing is reported of. -/
protected theorem act_unit (x : Act) : (Plan.act x).Plans x.perform () := by
  rw [Plans, Plan.perform]
  exact (bind_pure _).symm

protected theorem pure (b : β) : Plan.nothing.Plans (Pure.pure b) b := by
  rw [Plans, Plan.perform, pure_bind]

/-- Nothing comes after a refusal. -/
protected theorem refuse (n : Node Empty) (c : Breach) (q : Plan) (b : β) :
    (Plan.seq (.refuse n c) q).Plans (breach n c) b := rfl

theorem bind {next : α → LowerM Empty β} (h : p.Plans code a) (hnext : q.Plans (next a) b) :
    (Plan.seq p q).Plans (code >>= next) b := by
  unfold Plans at h hnext ⊢
  rw [h, bind_assoc, Plan.perform, bind_assoc]
  simp only [pure_bind, hnext]

theorem after_nothing (h : p.Plans code a) : (Plan.seq .nothing p).Plans code a := h

/-- The code returns something else at the end. -/
theorem andPure (h : p.Plans code a) (b : β) : p.Plans (do let _ ← code; pure b) b := by
  unfold Plans at h ⊢
  rw [h, bind_assoc]
  simp only [pure_bind]

/-- Dispatch puts the node around the plan. -/
theorem dispatch (n : Node Empty) (h : p.Plans code a) :
    (Plan.scoped n p).Plans (LowerM.dispatch n code) a := by
  unfold Plans at h ⊢
  rw [h, Plan.perform, dispatch_andPure]

end Plan.Plans

section Trees

variable {env : Environment}

theorem plans_checkValue (n : Node Empty) (expected actual : TypeRef) :
    (Plan.receive env n expected actual).Plans
      (checkValue env.hierarchy n expected (.value actual))
      (.value (delivered expected actual)) := by
  have hconsumed : ¬ (StackEffect.value actual).consumed ≠ 0 := fun h => h rfl
  unfold Plan.receive LowerM.checkValue delivered
  rw [if_neg hconsumed]
  dsimp only [StackEffect.value]
  by_cases hassign : env.hierarchy.assignable expected actual = true
  · simp only [hassign, if_true, Bool.not_true, Bool.false_eq_true, if_false]
    split
    · exact .act (.box actual) _
    · exact .pure _
  · simp only [hassign, Bool.not_false, if_true, Bool.false_eq_true, if_false]
    rfl

theorem plans_deliver {n : ValueNode Empty}
    (h : (n.plan env).Plans (n.code env) (.value n.reported))
    (expected : TypeRef) :
    (Plan.deliver env n expected (n.plan env)).Plans (deliver env n expected (n.code env))
      (.value (delivered expected n.reported)) :=
  (h.dispatch (.value n)).bind (plans_checkValue _ _ _)

theorem plans_execute {n : ImperativeNode Empty} (h : (n.plan env).Plans (n.code env) (.void 0)) :
    (Plan.scoped (.imperative n) (n.plan env)).Plans (execute n (n.code env)) (.void 0) := by
  have hcode := h.dispatch (.imperative n)
  unfold execute Plan.Plans at *
  rw [hcode, bind_assoc]
  simp only [pure_bind]
  rfl

theorem plans_manipulate {n : ManipulationNode Empty}
    (h : (n.plan env).Plans (n.code env) (.void 1)) :
    (Plan.scoped (.manipulation n) (n.plan env)).Plans (manipulate n (n.code env)) (.void 1) := by
  have hcode := h.dispatch (.manipulation n)
  unfold manipulate Plan.Plans at *
  rw [hcode, bind_assoc]
  simp only [pure_bind]
  rfl

theorem plans_callHook (type : TypeRef) :
    (Plan.callHook env type).Plans (callHook env type) () := by
  unfold Plan.callHook callHook
  cases env.beginInitFor type with
  | none => exact .pure ()
  | some hook => exact .act_unit (.hook hook)

mutual

/-- The code of a value node carries its plan out. -/
theorem plans_value : ∀ n : ValueNode Empty, (n.plan env).Plans (n.code env) (.value n.reported)
  | .string type text line => by
    unfold ValueNode.plan ValueNode.code ValueNode.reported
    exact .act (.text type text) _
  | .localRef l line => by
    unfold ValueNode.plan ValueNode.code ValueNode.reported
    exact .act (.load l line) _
  | .localInit l value line => by
    unfold ValueNode.plan ValueNode.code ValueNode.reported
    refine (plans_deliver (plans_value value) l.type).bind ?_
    exact (Plan.Plans.act_unit .copy).bind (.act (.store l) _)
  | .beginInit value => by
    unfold ValueNode.plan ValueNode.code ValueNode.reported
    refine (plans_deliver (plans_value value) value.valueType).bind ?_
    exact (plans_callHook value.valueType).andPure _
  | .contextLocal type line => by
    unfold ValueNode.plan ValueNode.code ValueNode.reported
    exact .act (.context line) _
  | .cast value target line => by
    unfold ValueNode.plan ValueNode.code ValueNode.reported
    refine (plans_deliver (plans_value value) env.config.core.object).bind ?_
    exact .act (.convert target) _
  | .parentStack value line => by
    unfold ValueNode.plan ValueNode.code ValueNode.reported
    refine (Plan.Plans.act_unit (.verify _ line)).bind ?_
    exact plans_deliver (plans_value value) value.valueType
  | .newObject c arguments line => by
    unfold ValueNode.plan ValueNode.code ValueNode.reported
    split
    · rename_i hcount
      refine .after_nothing ((plans_arguments arguments c.params hcount).bind ?_)
      exact .act (.create c) _
    · exact .refuse _ _ _ _

/-- Arguments are delivered as their parameters, one after the other. -/
theorem plans_arguments : ∀ (values : List (ValueNode Empty)) (params : List TypeRef),
    params.length = values.length →
    (argumentsPlan env values params).Plans (argumentsCode env values params) ()
  | [], [], _ => by
    unfold argumentsPlan argumentsCode
    exact .pure ()
  | value :: values, param :: params, hcount => by
    unfold argumentsPlan argumentsCode
    refine (plans_deliver (plans_value value) param).bind ?_
    exact plans_arguments values params (Nat.succ.inj hcount)

/-- The code of a statement carries its plan out. -/
theorem plans_imperative : ∀ n : ImperativeNode Empty, (n.plan env).Plans (n.code env) (.void 0)
  | .valueManipulation value manipulation line => by
    unfold ImperativeNode.plan ImperativeNode.code
    refine (plans_deliver (plans_value value) value.valueType).bind ?_
    exact (plans_manipulate (plans_manipulation manipulation)).andPure _
  | .block children line => by
    unfold ImperativeNode.plan ImperativeNode.code
    exact (plans_statements children).andPure _

/-- Statements are executed one after the other. -/
theorem plans_statements : ∀ children : List (ImperativeNode Empty),
    (statementsPlan env children).Plans (statementsCode env children) ()
  | [] => by
    unfold statementsPlan statementsCode
    exact .pure ()
  | child :: children => by
    unfold statementsPlan statementsCode
    exact (plans_execute (plans_imperative child)).bind (plans_statements children)

/-- The code of a manipulation carries its plan out. -/
theorem plans_manipulation : ∀ n : ManipulationNode Empty,
    (n.plan env).Plans (n.code env) (.void 1)
  | .imperative body line => by
    unfold ManipulationNode.plan ManipulationNode.code
    refine (Plan.Plans.act_unit .drop).bind ?_
    exact (plans_execute (plans_imperative body)).andPure _
  | .assign property value line => by
    unfold ManipulationNode.plan ManipulationNode.code
    cases property.setter with
    | none => exact .refuse _ _ _ _
    | some setter =>
      refine (plans_deliver (plans_value value) property.type).bind ?_
      exact .act (.assign property setter) _
  | .group children line => by
    unfold ManipulationNode.plan ManipulationNode.code
    exact (plans_group children).andPure _

/-- Each child of a group gets a copy of the value, and the last one the value itself. A group
without children drops it. -/
theorem plans_group : ∀ children : List (ManipulationNode Empty),
    (groupPlan env children).Plans (groupCode env children) ()
  | [] => by
    unfold groupPlan groupCode
    exact .act_unit .drop
  | [child] => by
    unfold groupPlan groupCode
    exact (plans_manipulate (plans_manipulation child)).andPure _
  | child :: next :: children => by
    unfold groupPlan groupCode
    refine (Plan.Plans.act_unit .copy).bind ?_
    refine (plans_manipulate (plans_manipulation child)).bind ?_
    exact plans_group (next :: children)

end

end Trees

/-- Lowering a tree carries its plan out, and reports what the tree alone determines. -/
theorem Node.lower_eq_perform (env : Environment) (n : Node Empty) (expected : Option TypeRef) :
    n.lower env expected = (do (n.plan env expected).perform; pure (n.effect expected)) := by
  cases n with
  | value n => exact plans_deliver (plans_value n) _
  | imperative n => exact plans_execute (plans_imperative n)
  | manipulation n => exact plans_manipulate (plans_manipulation n)

end MarkupLowering
