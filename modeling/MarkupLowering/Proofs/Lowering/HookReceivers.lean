import MarkupLowering.Proofs.Lowering.ReportedTypes

/-!
# MarkupLowering.Proofs.Lowering.HookReceivers

**What the initialization hook is called on.** Whether a value gets the hook is decided from the
static type of its node, and whether it is boxed from the type that its code reports. A node that
begins an initialization takes its value as what it says of itself, and so never boxes it.

* `reshape` runs the steps of a plan on the forms of the values on the stack, and records the calls
  of the hook, each with the form of the value that it is made on. Unlike `replay` it checks
  nothing.
* `ValueNode.form` reads the form of a value off its node. It is unboxed where the node is of a
  value type and no local on the way had it boxed (`ValueNode.form_eq_unboxed_iff`).
* `hook_receivers_iff` is the main statement: the calls are those of the tree, with these forms, and
  none is on an unboxed value exactly if no value that gets the hook is unboxed.
* A value type with the hook is enough for a call on an unboxed value
  (`hook_receivers_not_always_references`).
-/

namespace MarkupLowering

open Emission LowerM

/-! ### Forms on the stack -/

/-- The forms of the values on the stack, and the calls of the hook so far. -/
structure Forms where
  stack : List Form
  calls : List (MethodRef × Form)

section Reshape

variable (c : Context Empty)

/-- What an act does to the forms on the stack. Slots hold values in the form of their type. -/
def Act.reshape : Act → Forms → Option Forms
  | .text .., ⟨stack, calls⟩ => some ⟨.reference :: stack, calls⟩
  | .load l _, ⟨stack, calls⟩ => (c.slot? l).map fun slot => ⟨slot.type.form :: stack, calls⟩
  | .store _, ⟨_ :: stack, calls⟩ => some ⟨stack, calls⟩
  | .context _, ⟨stack, calls⟩ => c.contextLocal.map fun slot => ⟨slot.type.form :: stack, calls⟩
  | .copy, ⟨f :: stack, calls⟩ => some ⟨f :: f :: stack, calls⟩
  | .drop, ⟨_ :: stack, calls⟩ => some ⟨stack, calls⟩
  | .create r, ⟨stack, calls⟩ =>
    if r.params.length ≤ stack.length then
      some ⟨r.declaring.form :: stack.drop r.params.length, calls⟩
    else none
  | .assign .., ⟨_ :: _ :: stack, calls⟩ => some ⟨stack, calls⟩
  | .hook m, ⟨f :: stack, calls⟩ => some ⟨f :: stack, calls ++ [(m, f)]⟩
  | .box _, ⟨_ :: stack, calls⟩ => some ⟨.reference :: stack, calls⟩
  | .convert target, ⟨_ :: stack, calls⟩ => some ⟨target.form :: stack, calls⟩
  | .verify .., forms => some forms
  | _, _ => none

/-- What a step does to the forms on the stack. -/
def Step.reshape : Step → Forms → Option Forms
  | .enter _, forms => some forms
  | .act a, forms => a.reshape c forms
  | .refuse .., _ => none

/-- Runs steps on the forms of the values on the stack. -/
def reshape (steps : List Step) (forms : Forms) : Option Forms :=
  steps.foldlM (fun forms step => step.reshape c forms) forms

theorem reshape_append (steps steps' : List Step) (forms : Forms) :
    reshape c (steps ++ steps') forms = (reshape c steps forms).bind (reshape c steps') :=
  List.foldlM_append

theorem reshape_cons (step : Step) (steps : List Step) (forms : Forms) :
    reshape c (step :: steps) forms = (step.reshape c forms).bind (reshape c steps) :=
  List.foldlM_cons

end Reshape

/-! ### The form of a value -/

/-- The form in which a value is received. -/
def Form.received (expected actual : TypeRef) (f : Form) : Form :=
  if actual.isValueType && !expected.isValueType then .reference else f

theorem Form.received_self {expected actual : TypeRef} (f : Form)
    (h : actual.isValueType = true → expected.isValueType = true) :
    f.received expected actual = f := if_neg (not_boxes h)

/-- The form in which the code of a node leaves its value. -/
def ValueNode.form (c : Context Empty) : ValueNode Empty → Form
  | .string .. => .reference
  | .localRef l _ => l.type.form
  | .localInit l value _ => (value.form c).received l.type value.reported
  | .beginInit value | .parentStack value _ => value.form c
  | .contextLocal .. => (c.contextLocal.map (·.type.form)).getD .reference
  | .cast _ target _ => target.form
  | .newObject r _ _ => r.declaring.form

/-- Texts are of a reference type, and nodes for the context local are of its kind. -/
def ValueNode.Plain (c : Context Empty) : ValueNode Empty → Prop
  | .string type _ _ => type.isValueType = false
  | .contextLocal type _ => ∃ slot, c.contextLocal = some slot ∧
    slot.type.isValueType = type.isValueType
  | .localInit _ value _ | .beginInit value | .parentStack value _ => value.Plain c
  | _ => True

/-- The form of a value is that of the reported type. -/
theorem ValueNode.form_eq {c : Context Empty} : ∀ {n : ValueNode Empty}, n.Plain c →
    n.form c = n.reported.form
  | .string type _ _, h => by
    rw [form, reported, TypeRef.form, show type.isValueType = false from h]
    rfl
  | .localRef .., _ | .cast .., _ | .newObject .., _ => rfl
  | .contextLocal type _, ⟨slot, hslot, hkind⟩ => by
    rw [form, hslot, reported]
    exact TypeRef.form_eq hkind
  | .localInit l value _, h => by
    rw [form, reported, form_eq (n := value) h, Form.received, delivered]
    split
    · rename_i hbox
      rw [TypeRef.form, (boxes_iff.mp hbox).2]
      rfl
    · rfl
  | .beginInit value, h | .parentStack value _, h => by
    rw [form, reported, delivered_self value.isValueType_valueType]
    exact form_eq (n := value) h

/-- A value is unboxed where its node is of a value type, and no local had it boxed. -/
theorem ValueNode.form_eq_unboxed_iff {c : Context Empty} {n : ValueNode Empty} (h : n.Plain c) :
    n.form c = .unboxed ↔ n.valueType.isValueType = true ∧ n.boxedFor? = none := by
  rw [form_eq h, n.reported_eq, TypeRef.form]
  cases hboxed : n.boxedFor? with
  | none => cases hvalue : n.valueType.isValueType <;> simp [hvalue]
  | some t => simp [(boxedFor?_kinds hboxed).2]

/-! ### Reshaping trees -/

/-- The call of the hook that a node makes, with the form of the value. -/
def Node.hookCall? (env : Environment) (c : Context Empty) : Node Empty → Option (MethodRef × Form)
  | .value (.beginInit object) => (env.beginInitFor object.valueType).map (·, object.form c)
  | _ => none

/-- The calls of the hook that the nodes of a walk make. -/
def hookCalls (env : Environment) (c : Context Empty) (walk : List (Occurrence Empty)) :
    List (MethodRef × Form) := walk.filterMap fun o => o.node.hookCall? env c

/-- A plan takes values in some forms, leaves others, and makes the calls of a walk. -/
def Plan.Reshapes (env : Environment) (c : Context Empty) (p : Plan) (taken left : List Form)
    (walk : List (Occurrence Empty)) : Prop :=
  ∃ calls, calls.Perm (hookCalls env c walk) ∧ ∀ rest before,
    MarkupLowering.reshape c p.steps ⟨taken ++ rest, before⟩ = some ⟨left ++ rest, before ++ calls⟩

section Trees

variable {env : Environment} {c : Context Empty}

namespace Plan.Reshapes

variable {p q : Plan} {taken mid left : List Form} {walk walk' : List (Occurrence Empty)}

/-- A step that calls no hook. -/
theorem act {a : Act} (h : ∀ rest before,
    a.reshape c ⟨taken ++ rest, before⟩ = some ⟨left ++ rest, before⟩) :
    (Plan.act a).Reshapes env c taken left [] := by
  refine ⟨[], .nil, fun rest before => ?_⟩
  rw [Plan.steps, reshape_cons, Step.reshape, h, List.append_nil]
  rfl

theorem copy (f : Form) : (Plan.act .copy).Reshapes env c [f] [f, f] [] := act fun _ _ => rfl

protected theorem nothing : Plan.nothing.Reshapes env c taken taken [] := by
  refine ⟨[], .nil, fun rest before => ?_⟩
  rw [List.append_nil]
  rfl

theorem seq (h : p.Reshapes env c taken mid walk) (h' : q.Reshapes env c mid left walk') :
    (Plan.seq p q).Reshapes env c taken left (walk ++ walk') := by
  obtain ⟨calls, hcalls, hp⟩ := h
  obtain ⟨calls', hcalls', hq⟩ := h'
  refine ⟨calls ++ calls', ?_, fun rest before => ?_⟩
  · rw [hookCalls, List.filterMap_append]
    exact hcalls.append hcalls'
  · rw [Plan.steps, reshape_append, hp, Option.bind_some, hq, List.append_assoc]

/-- Followed by a plan without calls. -/
theorem andThen (h : p.Reshapes env c taken mid walk) (h' : q.Reshapes env c mid left []) :
    (Plan.seq p q).Reshapes env c taken left walk := by
  have hboth := h.seq h'
  rwa [List.append_nil] at hboth

/-- Preceded by a plan without calls. -/
theorem precededBy (h' : q.Reshapes env c mid left walk) (h : p.Reshapes env c taken mid []) :
    (Plan.seq p q).Reshapes env c taken left walk := h.seq h'

/-- What lies below is left alone. -/
theorem above (h : p.Reshapes env c taken left walk) (below : List Form) :
    p.Reshapes env c (taken ++ below) (left ++ below) walk := by
  obtain ⟨calls, hcalls, hp⟩ := h
  refine ⟨calls, hcalls, fun rest before => ?_⟩
  rw [List.append_assoc, List.append_assoc, hp]

/-- A node that calls no hook. -/
theorem rooted {n : Node Empty} (h : p.Reshapes env c taken left walk)
    (hn : n.hookCall? env c = none) :
    (Plan.scoped n p).Reshapes env c taken left (rooted n walk) := by
  obtain ⟨calls, hcalls, hp⟩ := h
  refine ⟨calls, ?_, hp⟩
  rw [hookCalls, filterMap_rooted n walk (Node.hookCall? env c), hn]
  exact hcalls

/-- The hook is called on a copy of the value, after all that is done for the value. -/
theorem beginInit {value : ValueNode Empty} (h : p.Reshapes env c taken [value.form c] walk) :
    (Plan.scoped (.value (.beginInit value)) (.seq p (.callHook env value.valueType))).Reshapes
      env c taken [value.form c] (MarkupLowering.rooted (.value (.beginInit value)) walk) := by
  obtain ⟨calls, hcalls, hp⟩ := h
  unfold Plan.callHook
  cases hfor : env.beginInitFor value.valueType with
  | none =>
    refine rooted (.andThen ⟨calls, hcalls, hp⟩ .nothing) ?_
    rw [Node.hookCall?, hfor]
    rfl
  | some m =>
    refine ⟨calls ++ [(m, value.form c)], ?_, fun rest before => ?_⟩
    · rw [hookCalls, filterMap_rooted _ walk (Node.hookCall? env c), Node.hookCall?, hfor]
      exact List.perm_append_comm.trans (hcalls.cons _)
    · rw [Plan.steps, Plan.steps, reshape_cons, Step.reshape, Option.bind_some, reshape_append, hp]
      rw [← List.append_assoc]
      rfl

end Plan.Reshapes

/-- A value is received in some form. -/
theorem reshapes_receive {n : Node Empty} {expected actual : TypeRef} (f : Form)
    (hpassed : (Plan.receive env n expected actual).Passed c) :
    (Plan.receive env n expected actual).Reshapes env c [f] [f.received expected actual] [] := by
  unfold Plan.receive Form.received at *
  split at hpassed
  · rename_i hassign
    rw [if_pos hassign]
    split
    · exact .act fun _ _ => rfl
    · exact .nothing
  · exact absurd hpassed (Plan.passed_refuse _ _)

theorem reshapes_deliver {n : ValueNode Empty} {expected : TypeRef}
    (hpassed : (Plan.deliver env n expected (n.plan env)).Passed c)
    (h : (n.plan env).Passed c → (Plan.scoped (.value n) (n.plan env)).Reshapes env c [] [n.form c]
      (rooted (.value n) n.descendants)) :
    (Plan.deliver env n expected (n.plan env)).Reshapes env c []
      [(n.form c).received expected n.reported] (rooted (.value n) n.descendants) := by
  obtain ⟨hscoped, hreceive⟩ := Plan.passed_seq.mp hpassed
  exact (h (Plan.passed_scoped.mp hscoped)).andThen (reshapes_receive _ hreceive)

/-- A value that is delivered as what its node says is not boxed. -/
theorem reshapes_deliver_self {n : ValueNode Empty}
    (hpassed : (Plan.deliver env n n.valueType (n.plan env)).Passed c)
    (h : (n.plan env).Passed c → (Plan.scoped (.value n) (n.plan env)).Reshapes env c [] [n.form c]
      (rooted (.value n) n.descendants)) :
    (Plan.deliver env n n.valueType (n.plan env)).Reshapes env c [] [n.form c]
      (rooted (.value n) n.descendants) := by
  have hdeliver := reshapes_deliver hpassed h
  rwa [Form.received_self _ n.isValueType_valueType] at hdeliver

mutual

/-- The code of a value node leaves a value in the form of the node. -/
theorem reshapes_value : ∀ n : ValueNode Empty, (n.plan env).Passed c →
    (Plan.scoped (.value n) (n.plan env)).Reshapes env c [] [n.form c]
      (rooted (.value n) n.descendants)
  | .string type text line, _ => by
    unfold ValueNode.plan ValueNode.descendants
    exact .rooted (.act fun _ _ => rfl) rfl
  | .localRef l line, hpassed => by
    unfold ValueNode.plan at hpassed ⊢
    unfold ValueNode.descendants
    obtain ⟨slot, hslot, htype⟩ := Plan.passed_act.mp hpassed
    refine .rooted (.act fun rest before => ?_) rfl
    rw [Act.reshape, hslot, ValueNode.form, ← htype]
    rfl
  | .localInit l value line, hpassed => by
    unfold ValueNode.plan at hpassed ⊢
    unfold ValueNode.descendants
    have hvalue := reshapes_deliver (Plan.passed_seq.mp hpassed).1 (reshapes_value value)
    -- a copy is kept in the local
    exact .rooted (hvalue.andThen (.andThen (.copy _) (.act fun _ _ => rfl))) rfl
  | .beginInit value, hpassed => by
    unfold ValueNode.plan at hpassed ⊢
    unfold ValueNode.descendants
    exact (reshapes_deliver_self (Plan.passed_seq.mp hpassed).1 (reshapes_value value)).beginInit
  | .contextLocal type line, hpassed => by
    unfold ValueNode.plan at hpassed ⊢
    unfold ValueNode.descendants
    obtain ⟨slot, hslot⟩ := Plan.passed_act.mp hpassed
    refine .rooted (.act fun rest before => ?_) rfl
    rw [Act.reshape, hslot, ValueNode.form, hslot]
    rfl
  | .cast value target line, hpassed => by
    unfold ValueNode.plan at hpassed ⊢
    unfold ValueNode.descendants
    have hvalue := reshapes_deliver (Plan.passed_seq.mp hpassed).1 (reshapes_value value)
    exact .rooted (hvalue.andThen (.act fun _ _ => rfl)) rfl
  | .parentStack value line, hpassed => by
    unfold ValueNode.plan at hpassed ⊢
    unfold ValueNode.descendants
    have hvalue := reshapes_deliver_self (Plan.passed_seq.mp hpassed).2 (reshapes_value value)
    exact .rooted (hvalue.precededBy (.act fun _ _ => rfl)) rfl
  | .newObject r arguments line, hpassed => by
    unfold ValueNode.plan at hpassed ⊢
    unfold ValueNode.descendants
    obtain ⟨hcount, hrest⟩ := Plan.passed_seq.mp hpassed
    split at hcount
    · rename_i hlength
      obtain ⟨fs, hfs, harguments⟩ := reshapes_arguments arguments r.params
        (Plan.passed_seq.mp hrest).1
      rw [if_pos hlength]
      refine .rooted (.precededBy (harguments.andThen (.act fun rest before => ?_)) .nothing) rfl
      rw [Act.reshape, hlength, ← hfs, if_pos (by simp), List.drop_left]
      rfl
    · exact absurd hcount (Plan.passed_refuse _ _)

/-- The code of arguments leaves a value for each. -/
theorem reshapes_arguments : ∀ (values : List (ValueNode Empty)) (params : List TypeRef),
    (argumentsPlan env values params).Passed c →
    ∃ fs : List Form, fs.length = values.length ∧
      (argumentsPlan env values params).Reshapes env c [] fs (argumentsWalk values)
  | [], params, _ => by
    unfold argumentsPlan argumentsWalk
    exact ⟨[], rfl, .nothing⟩
  | value :: values, params, hpassed => by
    unfold argumentsPlan at hpassed ⊢
    unfold argumentsWalk
    obtain ⟨hfirst, hrest⟩ := Plan.passed_seq.mp hpassed
    have hvalue := reshapes_deliver hfirst (reshapes_value value)
    obtain ⟨fs, hfs, hvalues⟩ := reshapes_arguments values params.tail hrest
    -- later arguments lie above
    refine ⟨fs ++ [_], by simp [hfs], hvalue.seq (hvalues.above [_])⟩

/-- The code of a statement leaves the stack as it was. -/
theorem reshapes_imperative : ∀ n : ImperativeNode Empty, (n.plan env).Passed c →
    (n.plan env).Reshapes env c [] [] n.descendants
  | .valueManipulation value manipulation line, hpassed => by
    unfold ImperativeNode.plan at hpassed ⊢
    unfold ImperativeNode.descendants
    obtain ⟨hdeliver, hrest⟩ := Plan.passed_seq.mp hpassed
    have hvalue := reshapes_deliver_self hdeliver (reshapes_value value)
    have hmanipulation := reshapes_manipulation manipulation (Plan.passed_scoped.mp hrest)
      (value.form c)
    exact hvalue.seq (hmanipulation.rooted rfl)
  | .block children line, hpassed => by
    unfold ImperativeNode.plan at hpassed ⊢
    unfold ImperativeNode.descendants
    exact reshapes_statements children hpassed

/-- So does the code of statements, one after the other. -/
theorem reshapes_statements : ∀ children : List (ImperativeNode Empty),
    (statementsPlan env children).Passed c →
    (statementsPlan env children).Reshapes env c [] [] (statementsWalk children)
  | [], _ => by
    unfold statementsPlan statementsWalk
    exact .nothing
  | child :: children, hpassed => by
    unfold statementsPlan at hpassed ⊢
    unfold statementsWalk
    obtain ⟨hfirst, hrest⟩ := Plan.passed_seq.mp hpassed
    have hchild := reshapes_imperative child (Plan.passed_scoped.mp hfirst)
    exact (hchild.rooted rfl).seq (reshapes_statements children hrest)

/-- The code of a manipulation takes one value. -/
theorem reshapes_manipulation : ∀ n : ManipulationNode Empty, (n.plan env).Passed c →
    ∀ f, (n.plan env).Reshapes env c [f] [] n.descendants
  | .imperative body line, hpassed, f => by
    unfold ManipulationNode.plan at hpassed ⊢
    unfold ManipulationNode.descendants
    have hbody := reshapes_imperative body
      (Plan.passed_scoped.mp (Plan.passed_seq.mp hpassed).2)
    exact (hbody.rooted rfl).precededBy (.act fun _ _ => rfl)
  | .assign property value line, hpassed, f => by
    unfold ManipulationNode.plan at hpassed ⊢
    unfold ManipulationNode.descendants
    cases hsetter : property.setter with
    | none =>
      rw [hsetter] at hpassed
      exact absurd (Plan.passed_seq.mp hpassed).1 (Plan.passed_refuse _ _)
    | some setter =>
      rw [hsetter] at hpassed
      have hvalue := reshapes_deliver (Plan.passed_seq.mp hpassed).1 (reshapes_value value)
      exact (hvalue.above [f]).andThen (.act fun _ _ => rfl)
  | .group children line, hpassed, f => by
    unfold ManipulationNode.plan at hpassed ⊢
    unfold ManipulationNode.descendants
    exact reshapes_group children hpassed f

/-- The code of a group takes one value, in whatever form it is. Its copies have the same form. -/
theorem reshapes_group : ∀ children : List (ManipulationNode Empty),
    (groupPlan env children).Passed c →
    ∀ f, (groupPlan env children).Reshapes env c [f] [] (groupWalk children)
  | [], _, f => by
    unfold groupPlan groupWalk
    exact .act fun _ _ => rfl
  | [child], hpassed, f => by
    unfold groupPlan at hpassed ⊢
    unfold groupWalk groupWalk
    rw [List.append_nil]
    exact (reshapes_manipulation child (Plan.passed_scoped.mp hpassed) f).rooted rfl
  | child :: next :: children, hpassed, f => by
    unfold groupPlan at hpassed ⊢
    unfold groupWalk
    obtain ⟨hfirst, hrest⟩ := Plan.passed_seq.mp (Plan.passed_seq.mp hpassed).2
    have hchild := reshapes_manipulation child (Plan.passed_scoped.mp hfirst) f
    have hchildren := reshapes_group (next :: children) hrest f
    -- the copy is taken, and the value stays for the others
    exact (((hchild.rooted rfl).above [f]).seq hchildren).precededBy (.copy f)

end

end Trees

/-- Reshaping a tree takes and leaves the values of the tree, and makes its calls. -/
theorem reshapes_node {env : Environment} {c : Context Empty} (n : Node Empty)
    {expected : Option TypeRef} (hpassed : (n.plan env expected).Passed c) (ambient : List Form)
    (hambient : ambient.length = n.takes) :
    ∃ results, results.length = n.leaves ∧
      (n.plan env expected).Reshapes env c ambient results n.occurrences := by
  cases n with
  | value n =>
    obtain rfl := List.eq_nil_of_length_eq_zero hambient
    exact ⟨[_], rfl, reshapes_deliver hpassed (reshapes_value n)⟩
  | imperative n =>
    obtain rfl := List.eq_nil_of_length_eq_zero hambient
    exact ⟨[], rfl, (reshapes_imperative n (Plan.passed_scoped.mp hpassed)).rooted rfl⟩
  | manipulation n =>
    obtain ⟨f, rfl⟩ := List.length_eq_one_iff.mp hambient
    exact ⟨[], rfl, (reshapes_manipulation n (Plan.passed_scoped.mp hpassed) f).rooted rfl⟩

/-! ### The main statement -/

theorem Node.hookCall?_eq_some {env : Environment} {c : Context Empty} {n : Node Empty}
    {call : MethodRef × Form} : n.hookCall? env c = some call ↔ ∃ object,
      n = .value (.beginInit object) ∧ env.beginInitFor object.valueType = some call.1 ∧
        object.form c = call.2 := by
  constructor
  · intro h
    unfold hookCall? at h
    split at h
    · rename_i object
      obtain ⟨m, hm, rfl⟩ := Option.map_eq_some_iff.mp h
      exact ⟨object, rfl, hm, rfl⟩
    · cases h
  · rintro ⟨object, rfl, hm, hform⟩
    rw [hookCall?, hm, hform]
    rfl

/-- The calls of a walk are on references exactly if the values that get the hook are. -/
theorem hookCalls_reference_iff {env : Environment} {c : Context Empty}
    {walk : List (Occurrence Empty)} :
    (∀ call ∈ hookCalls env c walk, call.2 = .reference) ↔
      ∀ o ∈ walk, ∀ object, o.node = .value (.beginInit object) →
        (env.beginInitFor object.valueType).isSome = true → object.form c = .reference := by
  simp only [hookCalls, List.mem_filterMap, Node.hookCall?_eq_some]
  constructor
  · intro h o ho object hnode hsome
    obtain ⟨m, hm⟩ := Option.isSome_iff_exists.mp hsome
    exact h (m, object.form c) ⟨o, ho, object, hnode, hm, rfl⟩
  · rintro h call ⟨o, ho, object, hnode, hm, hform⟩
    rw [← hform]
    exact h o ho object hnode (Option.isSome_iff_exists.mpr ⟨_, hm⟩)

/-- Where a tree is lowered, its instructions run on every stack that has the values that it takes,
and call the hook once for each node that begins an initialization and whose value gets the hook, on
that value as its node left it. The calls are all on references exactly if these values are. For
values that come neither from a text of a value type nor from a context local of another kind than
its node says, this fails exactly for those of a value type that no local had boxed. -/
theorem hook_receivers_iff {log : List Access} {s s' : LowerState Empty} {env : Environment}
    {n : Node Empty} {expected : Option TypeRef} {effect : StackEffect} (h : Emissions log s)
    (hone : OneType (log ++ n.accesses)) (hlower : n.lower env expected s = .ok effect s') :
    (∃ rs, Request.script rs s.emission = .ok () s'.emission ∧
      s.emission.emitter.Appends (emitted rs) s'.emission.emitter ∧
      emitted rs = (n.plan env expected).steps.flatMap (Step.code s'.context)) ∧
    (∀ ambient rest : List Form, ambient.length = n.takes →
      ∃ results calls, results.length = n.leaves ∧
        reshape s'.context (n.plan env expected).steps ⟨ambient ++ rest, []⟩ =
          some ⟨results ++ rest, calls⟩ ∧
        calls.Perm (hookCalls env s'.context n.occurrences) ∧
        ((∀ call ∈ calls, call.2 = .reference) ↔
          ∀ o ∈ n.occurrences, ∀ object, o.node = .value (.beginInit object) →
            (env.beginInitFor object.valueType).isSome = true →
            object.form s'.context = .reference)) ∧
    ∀ object : ValueNode Empty, object.Plain s'.context →
      (object.form s'.context = .unboxed ↔
        object.valueType.isValueType = true ∧ object.boxedFor? = none) := by
  have haccounts := h.accounts
  have htakes := n.takes_lower env expected s
  rw [hlower] at htakes
  have hpassed : (n.plan env expected).Passed s'.context := by
    rw [← (n.covers_plan env expected).order] at hone
    exact Carries.passed htakes haccounts hone
  obtain ⟨rs, hrs, hcode⟩ := Carries.script htakes haccounts
  obtain ⟨happends, -⟩ := Request.appends_of_script haccounts.limit hrs
  refine ⟨⟨rs, hrs, happends, hcode⟩, fun ambient rest hambient => ?_,
    fun object hobject => ValueNode.form_eq_unboxed_iff hobject⟩
  obtain ⟨results, hresults, calls, hcalls, hreshape⟩ := reshapes_node n hpassed ambient hambient
  refine ⟨results, calls, hresults, hreshape rest [], hcalls, ?_⟩
  simp only [hcalls.mem_iff]
  exact hookCalls_reference_iff

/-! ### A hook for points and widgets -/

/-- The hook, declared on markers. -/
def markerHook : MethodRef := { (default : MethodRef) with declaring := markerType }

/-- Points and widgets are markers, and get the hook. -/
def hookedEnvironment : Environment :=
  ⟨⟨#[[], [], [markerType], [markerType]]⟩,
    { core := { (default : CoreTypes) with object := rootType },
      hook := some ⟨markerType, markerHook, BEq.rfl⟩ }⟩

def widgetLocal : CompilerLocal := ⟨1, widgetType, none⟩

/-- Begins the initialization of a widget that is kept in a local. -/
def initializesWidget : Node Empty :=
  .value <| .beginInit <|
    .localInit widgetLocal (.newObject ⟨widgetType, [], false, none⟩ [] default) default

/-- Begins the initialization of a point. -/
def initializesPoint : Node Empty := .value (.beginInit newPoint)

/-- A widget gets the hook on a reference. -/
theorem hook_receivers_initializesWidget :
    ∃ effect s', initializesWidget.lower hookedEnvironment none newState = .ok effect s' ∧
      ∀ rest, ∃ results calls,
        reshape s'.context (initializesWidget.plan hookedEnvironment none).steps ⟨rest, []⟩ =
          some ⟨results ++ rest, calls⟩ ∧
        calls.length = 1 ∧ ∀ call ∈ calls, call.2 = .reference := by
  obtain ⟨effect, hlower⟩ := Result.eq_ok
    (r := initializesWidget.lower hookedEnvironment none newState) (by decide +kernel)
  have hone : OneType ([] ++ initializesWidget.accesses) := oneType_singleton (.store widgetLocal)
  obtain ⟨-, hruns, -⟩ :=
    hook_receivers_iff (.start emitter_oneMethod .start rfl) hone hlower
  refine ⟨effect, _, hlower, fun rest => ?_⟩
  obtain ⟨results, calls, -, hreshape, hcalls, hreferences⟩ := hruns [] rest rfl
  refine ⟨results, calls, hreshape, ?_,
    hreferences.mpr (hookCalls_reference_iff.mp (by decide +kernel))⟩
  rw [hcalls.length_eq]
  decide +kernel

/-- The types agree about kinds and the hook is declared on an interface; yet a point, which is a
marker too, gets the hook unboxed. -/
theorem hook_receivers_not_always_references :
    SoundTypes markedTypes ∧ markerType.isInterface = true ∧ Emissions [] newState ∧
      OneType ([] ++ initializesPoint.accesses) ∧
      ∃ effect s', initializesPoint.lower hookedEnvironment none newState = .ok effect s' ∧
        reshape s'.context (initializesPoint.plan hookedEnvironment none).steps ⟨[], []⟩ =
          some ⟨[.unboxed], [(markerHook, .unboxed)]⟩ := by
  obtain ⟨effect, hlower⟩ := Result.eq_ok
    (r := initializesPoint.lower hookedEnvironment none newState) (by decide +kernel)
  exact ⟨soundTypes_marked, rfl, .start emitter_oneMethod .start rfl, nofun, effect, _, hlower,
    rfl⟩

end MarkupLowering
