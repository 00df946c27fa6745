import MarkupLowering.Proofs.Lowering.Accesses

/-!
# MarkupLowering.Proofs.Lowering.Hooks

**The initialization hook is only inserted.** A tree is lowered twice from the same state, with a
hook and without one. The plans differ in the calls of the hook only (`Node.plan_unhooked`), so the
two runs are compared along one plan:

* Between steps the states are `Akin`: of an emitter only the slots and the name of the method
  matter to what comes later, and the calls of the hook touch neither.
* `Twins` are results of the two runs that end in the same way, with the code of the one being that
  of the other with calls inserted (`Inserts`). They compose along a plan.
-/

namespace MarkupLowering

open Emission LowerM

/-! ### Plans without the hook -/

/-- The plan without the calls of the hook. -/
def Plan.unhooked : Plan → Plan
  | .nothing => .nothing
  | .act a => match a.hook? with
    | some _ => .nothing
    | none => .act a
  | .refuse n b => .refuse n b
  | .seq p q => .seq p.unhooked q.unhooked
  | .scoped n p => .scoped n p.unhooked

/-- Two environments, one of which has no hook, and that agree in all else. -/
structure Environment.Unhooks (env plain : Environment) : Prop where
  hierarchy : plain.hierarchy = env.hierarchy
  core : plain.config.core = env.config.core
  hook : plain.config.hook = none

section Trees

variable {env plain : Environment}

theorem Plan.receive_unhooked (h : env.Unhooks plain) (n : Node Empty) (expected actual : TypeRef) :
    (Plan.receive env n expected actual).unhooked = Plan.receive plain n expected actual := by
  unfold Plan.receive
  rw [h.hierarchy]
  split
  · split <;> rfl
  · rfl

theorem Plan.callHook_unhooked (h : env.Unhooks plain) (type : TypeRef) :
    (Plan.callHook env type).unhooked = Plan.callHook plain type := by
  have hnone : plain.beginInitFor type = none := by
    unfold Environment.beginInitFor
    rw [h.hook]
  unfold Plan.callHook
  rw [hnone]
  cases env.beginInitFor type <;> rfl

theorem Plan.deliver_unhooked (h : env.Unhooks plain) (n : ValueNode Empty) (expected : TypeRef)
    (p : Plan) :
    (Plan.deliver env n expected p).unhooked = Plan.deliver plain n expected p.unhooked := by
  rw [Plan.deliver, Plan.deliver, Plan.unhooked, Plan.unhooked, receive_unhooked h]

mutual

/-- The plan of a value node without the calls of the hook is its plan where there is no hook. By
induction on the node, along the plan: all else that a plan depends on is the same in both
environments. -/
theorem ValueNode.plan_unhooked (h : env.Unhooks plain) :
    ∀ n : ValueNode Empty, (n.plan env).unhooked = n.plan plain
  | .string type text line => by
    unfold ValueNode.plan
    rfl
  | .localRef l line => by
    unfold ValueNode.plan
    rfl
  | .localInit l value line => by
    unfold ValueNode.plan
    rw [Plan.unhooked, Plan.deliver_unhooked h, value.plan_unhooked h]
    rfl
  | .beginInit value => by
    unfold ValueNode.plan
    rw [Plan.unhooked, Plan.deliver_unhooked h, value.plan_unhooked h, Plan.callHook_unhooked h]
  | .contextLocal type line => by
    unfold ValueNode.plan
    rfl
  | .cast value target line => by
    unfold ValueNode.plan
    rw [Plan.unhooked, Plan.deliver_unhooked h, value.plan_unhooked h, h.core]
    rfl
  | .parentStack value line => by
    unfold ValueNode.plan
    rw [Plan.unhooked, Plan.deliver_unhooked h, value.plan_unhooked h]
    rfl
  | .newObject c arguments line => by
    unfold ValueNode.plan
    rw [Plan.unhooked, Plan.unhooked, argumentsPlan_unhooked h]
    split <;> rfl

/-- Arguments have no calls of their own. -/
theorem argumentsPlan_unhooked (h : env.Unhooks plain) :
    ∀ (values : List (ValueNode Empty)) (params : List TypeRef),
    (argumentsPlan env values params).unhooked = argumentsPlan plain values params
  | [], params => by
    unfold argumentsPlan
    rfl
  | value :: values, params => by
    unfold argumentsPlan
    rw [Plan.unhooked, Plan.deliver_unhooked h, value.plan_unhooked h, argumentsPlan_unhooked h]

theorem ImperativeNode.plan_unhooked (h : env.Unhooks plain) : ∀ n : ImperativeNode Empty,
    (n.plan env).unhooked = n.plan plain
  | .valueManipulation value manipulation line => by
    unfold ImperativeNode.plan
    rw [Plan.unhooked, Plan.deliver_unhooked h, value.plan_unhooked h, Plan.unhooked,
      manipulation.plan_unhooked h]
  | .block children line => by
    unfold ImperativeNode.plan
    exact statementsPlan_unhooked h children

/-- Statements have no calls of their own. -/
theorem statementsPlan_unhooked (h : env.Unhooks plain) :
    ∀ children : List (ImperativeNode Empty),
    (statementsPlan env children).unhooked = statementsPlan plain children
  | [] => by
    unfold statementsPlan
    rfl
  | child :: children => by
    unfold statementsPlan
    rw [Plan.unhooked, Plan.unhooked, child.plan_unhooked h, statementsPlan_unhooked h]

theorem ManipulationNode.plan_unhooked (h : env.Unhooks plain) : ∀ n : ManipulationNode Empty,
    (n.plan env).unhooked = n.plan plain
  | .imperative body line => by
    unfold ManipulationNode.plan
    rw [Plan.unhooked, Plan.unhooked, Plan.unhooked, body.plan_unhooked h]
    rfl
  | .assign property value line => by
    unfold ManipulationNode.plan
    cases property.setter <;> dsimp only <;>
      rw [Plan.unhooked, Plan.deliver_unhooked h, value.plan_unhooked h] <;> rfl
  | .group children line => by
    unfold ManipulationNode.plan
    exact groupPlan_unhooked h children

/-- A group copies its value as a hook does, but with an act of its own, which stays. -/
theorem groupPlan_unhooked (h : env.Unhooks plain) : ∀ children : List (ManipulationNode Empty),
    (groupPlan env children).unhooked = groupPlan plain children
  | [] => by
    unfold groupPlan
    rfl
  | [child] => by
    unfold groupPlan
    rw [Plan.unhooked, child.plan_unhooked h]
  | child :: next :: children => by
    unfold groupPlan
    rw [Plan.unhooked, Plan.unhooked, Plan.unhooked, Plan.unhooked, child.plan_unhooked h,
      groupPlan_unhooked h]
    rfl

end

/-- Without the hook, the plan of a tree is the plan without the calls of the hook. -/
theorem Node.plan_unhooked (h : env.Unhooks plain) (n : Node Empty) (expected : Option TypeRef) :
    (n.plan env expected).unhooked = n.plan plain expected := by
  cases n with
  | value n => rw [Node.plan, Plan.deliver_unhooked h, n.plan_unhooked h]; rfl
  | imperative n => rw [Node.plan, Plan.unhooked, n.plan_unhooked h]; rfl
  | manipulation n => rw [Node.plan, Plan.unhooked, n.plan_unhooked h]; rfl

end Trees

/-! ### Runs that agree -/

/-- States that the same steps do the same to. -/
structure Akin (s₁ s₂ : LowerState Empty) : Prop where
  context : s₁.context = s₂.context
  locals : s₁.emission.emitter.locals = s₂.emission.emitter.locals
  method : s₁.emission.emitter.method = s₂.emission.emitter.method

theorem Akin.refl (s : LowerState Empty) : Akin s s := ⟨rfl, rfl, rfl⟩

theorem Akin.slotOf {s₁ s₂ : LowerState Empty} (h : Akin s₁ s₂) (slot : Slot) :
    s₁.emission.emitter.slotOf slot = s₂.emission.emitter.slotOf slot := by
  unfold Emitter.slotOf
  rw [h.locals]

theorem Request.method_script {rs : List Request} {s s' : Emission}
    (h : script rs s = .ok () s') : s'.emitter.method = s.emitter.method := by
  induction rs generalizing s with
  | nil =>
    obtain ⟨-, rfl⟩ := pure_inv h
    rfl
  | cons r rs ih =>
    obtain ⟨_, s₁, hr, hscript⟩ := bind_inv h
    rw [ih hscript, (perform_owner hr).2]

variable {α β : Type}

/-- Results that return the same, with akin states. -/
inductive Agrees : EStateM.Result EmitError (LowerState Empty) α →
    EStateM.Result EmitError (LowerState Empty) α → Prop
  | ok (a : α) {t₁ t₂ : LowerState Empty} : Akin t₁ t₂ → Agrees (.ok a t₁) (.ok a t₂)
  | error (e : EmitError) {t₁ t₂ : LowerState Empty} : Akin t₁ t₂ →
      Agrees (.error e t₁) (.error e t₂)

/-- A step that returns the same from akin states. -/
def Consistent (step : LowerM Empty α) : Prop := ∀ s₁ s₂, Akin s₁ s₂ → Agrees (step s₁) (step s₂)

namespace Consistent

protected theorem pure (a : α) : Consistent (Pure.pure a : LowerM Empty α) :=
  fun _ _ h => .ok a h

protected theorem throw (e : EmitError) : Consistent (throw e : LowerM Empty α) :=
  fun _ _ h => .error e h

theorem bind {step : LowerM Empty α} {next : α → LowerM Empty β} (h : Consistent step)
    (hnext : ∀ a, Consistent (next a)) : Consistent (step >>= next) := by
  intro s₁ s₂ hakin
  have hstep := h s₁ s₂ hakin
  simp only [Bind.bind, EStateM.bind]
  generalize step s₁ = r₁ at hstep
  generalize step s₂ = r₂ at hstep
  cases hstep with
  | ok a h => exact hnext a _ _ h
  | error e h => exact .error e h

/-- A step that looks at the context first. -/
theorem get_bind {next : LowerState Empty → LowerM Empty α}
    (hcontext : ∀ s₁ s₂ : LowerState Empty, s₁.context = s₂.context → next s₁ = next s₂)
    (h : ∀ s, Consistent (next s)) : Consistent (get >>= next) := by
  intro s₁ s₂ hakin
  rw [MarkupLowering.get_bind, MarkupLowering.get_bind, hcontext s₁ s₂ hakin.context]
  exact h s₂ s₁ s₂ hakin

theorem modify (f : Context Empty → Context Empty) :
    Consistent (modify fun s => { s with context := f s.context } : LowerM Empty PUnit) :=
  fun _ _ h => .ok _ ⟨congrArg f h.context, h.locals, h.method⟩

/-- An instruction that is never refused. -/
theorem emit {op : Opcode} {x : Operand} (hx : op.operandType.takesAny x = true) :
    Consistent (emitting (Emission.emit op x) : LowerM Empty Unit) := by
  intro s₁ s₂ hakin
  have htotal := total_emitting (total_emit hx)
  cases h₁ : LowerM.emitting (Emission.emit op x) s₁ with
  | error e t => exact absurd h₁ (htotal _ _ _)
  | ok u₁ t₁ =>
    cases h₂ : LowerM.emitting (Emission.emit op x) s₂ with
    | error e t => exact absurd h₂ (htotal _ _ _)
    | ok u₂ t₂ =>
      obtain ⟨hkeeps₁, hcontext₁, hscript₁⟩ := emitting_emit_inv h₁
      obtain ⟨hkeeps₂, hcontext₂, hscript₂⟩ := emitting_emit_inv h₂
      refine .ok () ⟨?_, ?_, ?_⟩
      · rw [hcontext₁, hcontext₂, hakin.context]
      · rw [hkeeps₁.locals, hkeeps₂.locals, hakin.locals]
      · rw [Request.method_script hscript₁, Request.method_script hscript₂, hakin.method]

theorem single {a : Act} {op : Opcode} {x : Operand} (h : a.instruction? = some (op, x)) :
    Consistent a.perform := by
  rw [Act.perform_single h]
  exact emit (Act.takesAny_single h)

theorem slot {op : Opcode} (hop : op.operandType = .slot) (slot : Slot) :
    Consistent (emitting (Emission.emit op (.slot slot)) : LowerM Empty Unit) := by
  intro s₁ s₂ hakin
  unfold LowerM.emitting
  rw [emit_slot hop, emit_slot hop, hakin.slotOf]
  cases s₂.emission.emitter.slotOf slot with
  | ok a => exact .ok () ⟨hakin.context, hakin.locals, hakin.method⟩
  | error e => exact .error e hakin

theorem defineLocal (type : TypeRef) :
    Consistent (emitting (Emission.defineLocal type) : LowerM Empty Slot) := by
  intro s₁ s₂ hakin
  unfold LowerM.emitting Emission.defineLocal
  dsimp only
  rw [hakin.locals, hakin.method]
  by_cases hroom : s₂.emission.emitter.locals.size < maxLocals
  · rw [if_pos hroom, if_pos hroom]
    exact .ok _ ⟨hakin.context, rfl, rfl⟩
  · rw [if_neg hroom, if_neg hroom]
    exact .error _ hakin

end Consistent

/-- Acts do not look at the hook, so they run alike in both lowerings. -/
theorem Act.consistent_perform (a : Act) : Consistent a.perform := by
  cases a with
  | text | copy | drop | create | assign | box | convert => exact .single rfl
  | hook m => exact (Consistent.emit rfl).bind fun _ => .emit (takesAny_callOpcode m)
  | load l line =>
    refine Consistent.get_bind (fun s₁ s₂ h => by rw [h]) fun s => ?_
    cases s.context.slot? l with
    | none => exact .throw _
    | some slot => exact .slot rfl slot
  | store l =>
    refine Consistent.bind ?_ fun slot => .slot rfl slot
    refine Consistent.get_bind (fun s₁ s₂ h => by rw [h]) fun s => ?_
    cases s.context.slot? l with
    | some slot => exact .pure slot
    | none =>
      refine (Consistent.defineLocal l.type).bind fun slot => ?_
      exact (Consistent.modify fun c => { c with slots := (l.id, slot) :: c.slots }).bind
        fun _ => .pure slot
  | context line =>
    refine Consistent.get_bind (fun s₁ s₂ h => by rw [h]) fun s => ?_
    cases s.context.contextLocal with
    | none => exact .throw _
    | some slot => exact .slot rfl slot
  | verify name line =>
    refine Consistent.get_bind (fun s₁ s₂ h => by rw [h]) fun s => ?_
    dsimp only
    split
    · exact .pure ()
    · split
      · exact .throw _
      · exact .modify fun c => { c with parentsVerified := true }

/-! ### Code with calls inserted -/

/-- The code of steps, with the calls of the hook and without. All other steps append the same to
both. -/
inductive Inserts : List Step → List (Opcode × Operand) → List (Opcode × Operand) → Prop
  | nil : Inserts [] [] []
  | enter (n : Node Empty) {steps : List Step} {hooked plain : List (Opcode × Operand)} :
      Inserts steps hooked plain → Inserts (.enter n :: steps) hooked plain
  | act {a : Act} (c : Context Empty) {steps : List Step} {hooked plain : List (Opcode × Operand)} :
      a.hook? = none → Inserts steps hooked plain →
      Inserts (.act a :: steps) (a.code c ++ hooked) (a.code c ++ plain)
  | hook (m : MethodRef) {steps : List Step} {hooked plain : List (Opcode × Operand)} :
      Inserts steps hooked plain →
      Inserts (.act (.hook m) :: steps) ((.dup, .none) :: (callOpcode m, .method m) :: hooked) plain

theorem Inserts.append {steps steps' : List Step}
    {hooked hooked' plain plain' : List (Opcode × Operand)}
    (h : Inserts steps hooked plain) (h' : Inserts steps' hooked' plain') :
    Inserts (steps ++ steps') (hooked ++ hooked') (plain ++ plain') := by
  induction h with
  | nil => exact h'
  | enter n _ ih => exact .enter n ih
  | act c ha _ ih =>
    rw [List.append_assoc, List.append_assoc]
    exact .act c ha ih
  | hook m _ ih => exact .hook m ih

/-- Two runs from two states to two others: all that happened to emitter and module is what some
requests ask for, and these ask for the code of the steps with and without calls of the hook. -/
def Inserted (steps : List Step) (s₁ s₂ t₁ t₂ : LowerState Empty) : Prop :=
  ∃ rs₁ rs₂, Request.script rs₁ s₁.emission = .ok () t₁.emission ∧
    Request.script rs₂ s₂.emission = .ok () t₂.emission ∧
    Inserts steps (emitted rs₁) (emitted rs₂)

namespace Inserted

variable {steps steps' : List Step} {s₁ s₂ t₁ t₂ u₁ u₂ : LowerState Empty}

theorem trans (h : Inserted steps s₁ s₂ t₁ t₂) (h' : Inserted steps' t₁ t₂ u₁ u₂) :
    Inserted (steps ++ steps') s₁ s₂ u₁ u₂ := by
  obtain ⟨rs₁, rs₂, hrs₁, hrs₂, hcode⟩ := h
  obtain ⟨rs₁', rs₂', hrs₁', hrs₂', hcode'⟩ := h'
  refine ⟨rs₁ ++ rs₁', rs₂ ++ rs₂', Request.script_append hrs₁ hrs₁',
    Request.script_append hrs₂ hrs₂', ?_⟩
  rw [emitted_append, emitted_append]
  exact hcode.append hcode'

theorem silent (h₁ : Silent s₁ t₁) (h₂ : Silent s₂ t₂) : Inserted [] s₁ s₂ t₁ t₂ := by
  obtain ⟨rs₁, hrs₁, hnone₁⟩ := h₁.script
  obtain ⟨rs₂, hrs₂, hnone₂⟩ := h₂.script
  refine ⟨rs₁, rs₂, hrs₁, hrs₂, ?_⟩
  rw [hnone₁, hnone₂]
  exact .nil

theorem andSilent (h : Inserted steps s₁ s₂ t₁ t₂) (h₁ : Silent t₁ u₁) (h₂ : Silent t₂ u₂) :
    Inserted steps s₁ s₂ u₁ u₂ := by
  have hboth := h.trans (silent h₁ h₂)
  rwa [List.append_nil] at hboth

end Inserted

/-! ### Two runs of a plan -/

/-- Results of two runs that end in the same way, after all steps or some. -/
inductive Twins (steps : List Step) (s₁ s₂ : LowerState Empty) :
    EStateM.Result EmitError (LowerState Empty) α →
    EStateM.Result EmitError (LowerState Empty) α → Prop
  | ok (a : α) {t₁ t₂ : LowerState Empty} : Akin t₁ t₂ → Inserted steps s₁ s₂ t₁ t₂ →
      Twins steps s₁ s₂ (.ok a t₁) (.ok a t₂)
  | error (e : EmitError) {done : List Step} {t₁ t₂ : LowerState Empty} : done <+: steps →
      Akin t₁ t₂ → Inserted done s₁ s₂ t₁ t₂ → Twins steps s₁ s₂ (.error e t₁) (.error e t₂)

/-- Two steps that have the same result, one with the calls of the hook and one without. -/
def Parallel (steps : List Step) (hooked plain : LowerM Empty α) : Prop :=
  ∀ s₁ s₂, Akin s₁ s₂ → Twins steps s₁ s₂ (hooked s₁) (plain s₂)

theorem Akin.silent {s₁ s₂ t₁ t₂ : LowerState Empty} (h : Akin s₁ s₂)
    (hcontext : t₁.context = t₂.context) (h₁ : Silent s₁ t₁) (h₂ : Silent s₂ t₂) : Akin t₁ t₂ where
  context := hcontext
  locals := by rw [h₁.code.locals, h₂.code.locals, h.locals]
  method := by rw [h₁.code.owner.2, h₂.code.owner.2, h.method]

theorem Twins.after {steps steps' : List Step} {s₁ s₂ t₁ t₂ : LowerState Empty}
    {r₁ r₂ : EStateM.Result EmitError (LowerState Empty) α} (h : Twins steps' t₁ t₂ r₁ r₂)
    (hbefore : Inserted steps s₁ s₂ t₁ t₂) : Twins (steps ++ steps') s₁ s₂ r₁ r₂ := by
  cases h with
  | ok a hakin hinserted => exact .ok a hakin (hbefore.trans hinserted)
  | error e hdone hakin hinserted =>
    exact .error e ((List.prefix_append_right_inj steps).mpr hdone) hakin
      (hbefore.trans hinserted)

/-- What is silent afterwards, however the runs end. -/
theorem Twins.andThen {steps : List Step} {s₁ s₂ t₁ t₂ : LowerState Empty}
    {hooked plain : LowerM Empty α} {f₁ f₂ : LowerState Empty → LowerState Empty}
    (h : Twins steps s₁ s₂ (hooked t₁) (plain t₂)) (h₁ : ∀ s, Silent s (f₁ s))
    (h₂ : ∀ s, Silent s (f₂ s))
    (hcontext : ∀ u₁ u₂ : LowerState Empty, u₁.context = u₂.context →
      (f₁ u₁).context = (f₂ u₂).context) :
    Twins steps s₁ s₂ (andThen hooked f₁ t₁) (andThen plain f₂ t₂) := by
  unfold LowerM.andThen
  generalize hooked t₁ = r₁ at h
  generalize plain t₂ = r₂ at h
  cases h with
  | @ok a u₁ u₂ hakin hinserted =>
    exact .ok a (hakin.silent (hcontext _ _ hakin.context) (h₁ u₁) (h₂ u₂))
      (hinserted.andSilent (h₁ u₁) (h₂ u₂))
  | @error e done u₁ u₂ hdone hakin hinserted =>
    exact .error e hdone (hakin.silent (hcontext _ _ hakin.context) (h₁ u₁) (h₂ u₂))
      (hinserted.andSilent (h₁ u₁) (h₂ u₂))

namespace Parallel

variable {steps steps' : List Step}

protected theorem pure (a : α) : Parallel [] (Pure.pure a : LowerM Empty α) (Pure.pure a) :=
  fun s₁ s₂ h => .ok a h (.silent (.refl s₁) (.refl s₂))

protected theorem refuse (n : Node Empty) (b : Breach) :
    Parallel [.refuse n b] (breach n b : LowerM Empty α) (breach n b) :=
  fun s₁ s₂ h => .error _ List.nil_prefix h (.silent (.refl s₁) (.refl s₂))

theorem bind {hooked plain : LowerM Empty α} {hooked' plain' : α → LowerM Empty β}
    (h : Parallel steps hooked plain) (h' : ∀ a, Parallel steps' (hooked' a) (plain' a)) :
    Parallel (steps ++ steps') (hooked >>= hooked') (plain >>= plain') := by
  intro s₁ s₂ hakin
  have hfirst := h s₁ s₂ hakin
  simp only [Bind.bind, EStateM.bind]
  generalize hooked s₁ = r₁ at hfirst
  generalize plain s₂ = r₂ at hfirst
  cases hfirst with
  | error e hdone hakin' hinserted =>
    exact .error e (hdone.trans (List.prefix_append _ _)) hakin' hinserted
  | @ok a t₁ t₂ hakin' hinserted =>
    exact (h' a t₁ t₂ hakin').after hinserted

/-- An act that is in both plans. -/
theorem act {a : Act} (ha : a.hook? = none) : Parallel [.act a] a.perform a.perform := by
  intro s₁ s₂ hakin
  have hagrees := a.consistent_perform s₁ s₂ hakin
  cases h₁ : a.perform s₁ with
  | error e t₁ =>
    cases h₂ : a.perform s₂ with
    | ok u t₂ =>
      rw [h₁, h₂] at hagrees
      cases hagrees
    | error e' t₂ =>
      rw [h₁, h₂] at hagrees
      cases hagrees
      obtain rfl := a.atomic_perform _ _ _ h₁
      obtain rfl := a.atomic_perform _ _ _ h₂
      exact .error e List.nil_prefix hakin (.silent (.refl t₁) (.refl t₂))
  | ok u t₁ =>
    cases h₂ : a.perform s₂ with
    | error e t₂ =>
      rw [h₁, h₂] at hagrees
      cases hagrees
    | ok u' t₂ =>
      rw [h₁, h₂] at hagrees
      cases hagrees with
      | ok _ hakin' =>
        obtain ⟨rs₁, hrs₁, hcode₁⟩ := (Act.perform_inv h₁).script
        obtain ⟨rs₂, hrs₂, hcode₂⟩ := (Act.perform_inv h₂).script
        refine .ok () hakin' ⟨rs₁, rs₂, hrs₁, hrs₂, ?_⟩
        have hone : Inserts [.act a] (a.code t₁.context ++ []) (a.code t₁.context ++ []) :=
          .act t₁.context ha .nil
        rw [List.append_nil] at hone
        rw [hcode₁, hcode₂, ← hakin'.context]
        exact hone

/-- A call of the hook, against nothing. -/
theorem hook (m : MethodRef) : Parallel [.act (.hook m)] (Act.hook m).perform (Pure.pure ()) := by
  intro s₁ s₂ hakin
  cases h₁ : (Act.hook m).perform s₁ with
  | error e t₁ => exact absurd h₁ (Act.total_hook m s₁ e t₁)
  | ok u t₁ =>
    obtain ⟨_, u₁, hdup, hcall⟩ := bind_inv h₁
    obtain ⟨hkeeps, hcontext, hscript⟩ := emitting_emit_inv hdup
    obtain ⟨hkeeps', hcontext', hscript'⟩ := emitting_emit_inv hcall
    have hboth := Request.script_append hscript hscript'
    refine .ok () ⟨?_, ?_, ?_⟩ ⟨_, [], hboth, rfl, .hook m .nil⟩
    · rw [hcontext', hcontext, hakin.context]
    · rw [hkeeps'.locals, hkeeps.locals, hakin.locals]
    · rw [Request.method_script hboth, hakin.method]

theorem captured (line : Position) {hooked plain : LowerM Empty α}
    (h : Parallel steps hooked plain) :
    Parallel steps (captured line hooked) (captured line plain) := by
  intro s₁ s₂ hakin
  have hfile := congrArg Context.file hakin.context
  unfold LowerM.captured
  rw [hfile]
  cases s₂.context.file with
  | none => exact h s₁ s₂ hakin
  | some file =>
    dsimp only
    by_cases hline : line.isSynthetic = true
    · rw [if_pos hline, if_pos hline]
      exact h s₁ s₂ hakin
    · rw [if_neg hline, if_neg hline]
      -- the captures may have different numbers, and one may not begin at all
      have h₁ := Silent.beginCapture s₁ file line
      have h₂ := Silent.beginCapture s₂ file line
      have hin := h { s₁ with emission := (s₁.emission.beginCapture file line).2 }
        { s₂ with emission := (s₂.emission.beginCapture file line).2 }
        (hakin.silent hakin.context h₁ h₂)
      have hout := hin.andThen
        (fun s => Silent.endCapture s (s₁.emission.beginCapture file line).1)
        (fun s => Silent.endCapture s (s₂.emission.beginCapture file line).1) fun _ _ h => h
      exact hout.after (.silent h₁ h₂)

theorem dispatch (n : Node Empty) {hooked plain : LowerM Empty α}
    (h : Parallel steps hooked plain) :
    Parallel (.enter n :: steps) (dispatch n hooked) (dispatch n plain) := by
  intro s₁ s₂ hakin
  have hin := captured n.line h { s₁ with context := s₁.context.enter n }
    { s₂ with context := s₂.context.enter n }
    ⟨congrArg (Context.enter · n) hakin.context, hakin.locals, hakin.method⟩
  have hout := hin.andThen Silent.leave Silent.leave fun _ _ h => congrArg Context.leave h
  have henter : Inserted [.enter n] s₁ s₂ { s₁ with context := s₁.context.enter n }
      { s₂ with context := s₂.context.enter n } := ⟨[], [], rfl, rfl, .enter n .nil⟩
  exact hout.after henter

end Parallel

/-- Carrying out a plan, against carrying it out without the calls of the hook. -/
theorem Plan.parallel_perform : ∀ p : Plan, Parallel p.steps p.perform p.unhooked.perform
  | .nothing => .pure ()
  | .act a => by
    unfold Plan.unhooked
    cases ha : a.hook? with
    | none => exact .act ha
    | some m =>
      cases a <;> cases ha
      exact .hook m
  | .refuse n b => .refuse n b
  | .seq p q => (parallel_perform p).bind fun _ => parallel_perform q
  | .scoped n p => (parallel_perform p).dispatch n

/-! ### The main statement -/

/-- The initialization hook changes nothing else. A tree that is lowered from some state with a hook
and without one succeeds in both cases or fails with the same error, reports the same, and defines
the same locals in the same slots. The code with the hook is that without it, with a copy and a
call inserted after the value of every node that begins an initialization and whose type gets the
hook; when lowering fails, this holds for the code up to there.

Instructions are compared with their operands as asked for, so they are the same when they name the
same members, types and texts. What the row behind the token of a member says is not a matter of
lowering, but of what was imported before (`memberRow_describes_iff`). -/
theorem lower_only_inserts_hook {env plain : Environment} (h : env.Unhooks plain) (n : Node Empty)
    (expected : Option TypeRef) (s : LowerState Empty) :
    Result.outcome (n.lower env expected s) = Result.outcome (n.lower plain expected s) ∧
    (Result.state (n.lower env expected s)).context =
      (Result.state (n.lower plain expected s)).context ∧
    (Result.state (n.lower env expected s)).emission.emitter.locals =
      (Result.state (n.lower plain expected s)).emission.emitter.locals ∧
    (∃ done, done <+: (n.plan env expected).steps ∧
      (Result.error? (n.lower env expected s) = none → done = (n.plan env expected).steps) ∧
      Inserted done s s (Result.state (n.lower env expected s))
        (Result.state (n.lower plain expected s))) ∧
    ((n.plan env expected).steps.filterMap Step.hook?).Perm
      (n.occurrences.filterMap (·.node.hook? env)) := by
  have htwins := ((n.plan env expected).parallel_perform.bind fun _ =>
    Parallel.pure (n.effect expected)) s s (.refl s)
  rw [n.plan_unhooked h, ← n.lower_eq_perform, ← n.lower_eq_perform, List.append_nil] at htwins
  have hhooks := (n.covers_plan env expected).hooks
  generalize n.lower env expected s = r₁ at htwins
  generalize n.lower plain expected s = r₂ at htwins
  cases htwins with
  | ok effect hakin hinserted =>
    exact ⟨rfl, hakin.context, hakin.locals, ⟨_, List.prefix_rfl, fun _ => rfl, hinserted⟩, hhooks⟩
  | error e hdone hakin hinserted =>
    exact ⟨rfl, hakin.context, hakin.locals, ⟨_, hdone, nofun, hinserted⟩, hhooks⟩

/-- An environment with a hook for all values of the default type. -/
def hookEnvironment : Environment :=
  ⟨.empty, { core := default, hook := some ⟨default, default, rfl⟩ }⟩

/-- Begins the initialization of a text and of the value that it is stored as. -/
def nestedInit : Node Empty :=
  .value (.beginInit (.localInit default (.beginInit (.string default "text" default)) default))

theorem lower_only_inserts_hook_nestedInit :
    hookEnvironment.Unhooks plainEnvironment ∧
    ∃ effect s₁ s₂, nestedInit.lower hookEnvironment none newState = .ok effect s₁ ∧
      nestedInit.lower plainEnvironment none newState = .ok effect s₂ ∧
      ∃ steps, Inserted steps newState newState s₁ s₂ ∧
        steps.filterMap Step.hook? = [default, default] := by
  have hunhooks : hookEnvironment.Unhooks plainEnvironment := ⟨rfl, rfl, rfl⟩
  obtain ⟨effect, s₁, hlower⟩ : ∃ effect s₁,
      nestedInit.lower hookEnvironment none newState = .ok effect s₁ := ⟨_, _, rfl⟩
  obtain ⟨houtcome, -, -, ⟨done, -, hdone, hinserted⟩, -⟩ :=
    lower_only_inserts_hook hunhooks nestedInit none newState
  rw [hlower] at houtcome hdone hinserted
  cases hplain : nestedInit.lower plainEnvironment none newState with
  | error e s₂ =>
    rw [hplain] at houtcome
    cases houtcome
  | ok effect' s₂ =>
    rw [hplain] at houtcome hinserted
    cases houtcome
    refine ⟨hunhooks, effect, s₁, s₂, hlower, rfl, done, hinserted, ?_⟩
    rw [hdone rfl]
    rfl

end MarkupLowering
