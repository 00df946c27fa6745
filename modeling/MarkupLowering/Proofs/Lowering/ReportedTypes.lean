import MarkupLowering.Proofs.Lowering.Representation

/-!
# MarkupLowering.Proofs.Lowering.ReportedTypes

**What a value node says of its value, and what its code reports.** A node has a static type
(`ValueNode.valueType`), and its code reports a type of what it left on the stack. Nodes that lower
a value as what it says of itself check the second against the first.

* The two differ in one place: a value that was boxed to be stored in a local is reported as a value
  of the local's type, while its node still says what it was (`ValueNode.boxedFor?`,
  `ValueNode.reported_eq`).
* Which contracts are broken is decided by the tree alone. A plan that was carried out once
  has no refusal, and a plan without one fails for other reasons only (`Plan.Refuses`).
* `reported_type_agrees_iff` is the main statement: when the two types agree, and what becomes of a
  value that can be lowered when it is wrapped in a node that takes it as what it says.
-/

namespace MarkupLowering

open Emission LowerM

/-! ### The type that is reported -/

/-- The type of the local that a value was boxed for, on the way from where it was made. Only the
first local matters: a boxed value is not boxed again. -/
def ValueNode.boxedFor? : ValueNode Empty → Option TypeRef
  | .localInit l value _ =>
    value.boxedFor?.or <|
      if value.valueType.isValueType && !l.type.isValueType then some l.type else none
  | .beginInit value | .parentStack value _ => value.boxedFor?
  | _ => none

namespace ValueNode

/-- Only values of value types are boxed, and what they are boxed for is none. -/
theorem boxedFor?_kinds : ∀ {n : ValueNode Empty} {t : TypeRef}, n.boxedFor? = some t →
    n.valueType.isValueType = true ∧ t.isValueType = false
  | .localInit l value _, t, h => by
    rw [boxedFor?, Option.or_eq_some_iff] at h
    rcases h with hinner | ⟨-, hhere⟩
    · exact boxedFor?_kinds (n := value) hinner
    · split at hhere
      · rename_i hbox
        cases hhere
        exact boxes_iff.mp hbox
      · cases hhere
  | .beginInit value, _, h | .parentStack value _, _, h => boxedFor?_kinds (n := value) h

/-- The code of a node reports what the node says, unless the value was boxed on the way. -/
theorem reported_eq : ∀ n : ValueNode Empty, n.reported = n.boxedFor?.getD n.valueType
  | .string .. | .localRef .. | .contextLocal .. | .cast .. | .newObject .. => rfl
  | .beginInit value | .parentStack value _ => by
    rw [reported, delivered_self value.isValueType_valueType]
    exact value.reported_eq
  | .localInit l value _ => by
    rw [reported, value.reported_eq, boxedFor?, valueType]
    cases hboxed : value.boxedFor? with
    | none =>
      rw [Option.getD_none, Option.none_or, delivered]
      split <;> rfl
    | some t =>
      -- a reference is delivered as it is
      have hreference := (boxedFor?_kinds hboxed).2
      exact delivered_self fun hvalue => by cases hvalue.symm.trans hreference

end ValueNode

/-! ### Refusals -/

def EmitError.isBreach : EmitError → Bool
  | .stackContract .. => true
  | _ => false

/-- A plan has a broken contract. -/
def Plan.Refuses (p : Plan) : Prop := ∃ n b, .refuse n b ∈ p.steps

namespace Plan

variable {p q : Plan}

theorem refuses_seq : (seq p q).Refuses ↔ p.Refuses ∨ q.Refuses := by
  simp only [Refuses, steps, List.mem_append, exists_or]

theorem refuses_scoped {n : Node Empty} : (Plan.scoped n p).Refuses ↔ p.Refuses := by
  simp [Refuses, steps]

theorem not_refuses_act (a : Act) : ¬ (act a).Refuses := by simp [Refuses, steps]

/-- A value is refused exactly where it is not assignable. -/
theorem refuses_receive {env : Environment} {n : Node Empty} {expected actual : TypeRef} :
    (receive env n expected actual).Refuses ↔
      env.hierarchy.assignable expected actual = false := by
  unfold receive
  cases hassign : env.hierarchy.assignable expected actual with
  | true =>
    rw [if_pos rfl]
    split <;> simp [Refuses, steps]
  | false => simp [Refuses, steps]

theorem not_refuses_callHook (env : Environment) (type : TypeRef) :
    ¬ (callHook env type).Refuses := by
  unfold callHook
  split <;> simp [Refuses, steps]

/-- A plan that was carried out has no broken contract. -/
theorem not_refuses_of_ok {s s' : LowerState Empty} (h : p.perform s = .ok () s') :
    ¬ p.Refuses := by
  rintro ⟨n, b, hrefuse⟩
  have htakes := p.takes_perform s
  rw [h] at htakes
  exact Carries.not_refuse htakes n b hrefuse

end Plan

/-- The slots of an emitter are refused, never a contract. -/
theorem Emitter.slotOf_not_breach {e : Emitter} {slot : Slot} {err : EmitError}
    (h : e.slotOf slot = .error err) : err.isBreach = false := by
  rw [Emitter.slotOf_error h]
  rfl

/-- No act fails for a broken contract, whatever the state. -/
theorem Act.perform_not_breach {a : Act} {s s' : LowerState Empty} {e : EmitError}
    (h : a.perform s = .error e s') : e.isBreach = false := by
  cases a with
  | text | copy | drop | create | assign | box | convert =>
    exact absurd h (total_single rfl s e s')
  | hook m => exact absurd h (total_hook m s e s')
  | load l line =>
    rw [perform, LowerM.loadLocal, get_bind] at h
    cases hl : s.context.slot? l <;> rw [hl] at h
    · cases h
      rfl
    · exact Emitter.slotOf_not_breach (emitting_slot_error rfl h)
  | store l =>
    rcases (storeLocal_error h).2 with ⟨slot, -, hrefused⟩ | ⟨-, -, rfl⟩
    · exact Emitter.slotOf_not_breach hrefused
    · rfl
  | context line =>
    rw [perform, loadContext, get_bind] at h
    cases hl : s.context.contextLocal <;> rw [hl] at h
    · cases h
      rfl
    · exact Emitter.slotOf_not_breach (emitting_slot_error rfl h)
  | verify name line =>
    rw [perform, LowerM.verifyParents, get_bind] at h
    dsimp only at h
    split at h
    · cases h
    · split at h <;> cases h
      rfl

/-- A plan without a broken contract fails for other reasons only. -/
theorem Plan.not_breach_of_not_refuses {p : Plan} (hp : ¬ p.Refuses) {s s' : LowerState Empty}
    {e : EmitError} (h : p.perform s = .error e s') : e.isBreach = false := by
  have htakes := p.takes_perform s
  rw [h] at htakes
  obtain ⟨done, rest, next, s₁, s₂, hsplit, -, hfails, -⟩ := htakes
  cases hfails with
  | act ha => exact Act.perform_not_breach ha
  | refuse n b =>
    refine absurd ⟨n, b, ?_⟩ hp
    rw [hsplit]
    exact List.mem_append_right _ List.mem_cons_self

/-- Code that carries a plan out, when the plan has no broken contract. -/
theorem Plan.Plans.not_breach {α : Type} {p : Plan} {code : LowerM Empty α} {a : α}
    (h : p.Plans code a) (hp : ¬ p.Refuses) {s s' : LowerState Empty} {e : EmitError}
    (hcode : code s = .error e s') : e.isBreach = false := by
  rw [show code = _ from h] at hcode
  rcases bind_error hcode with hperform | ⟨_, _, _, hpure⟩
  · exact Plan.not_breach_of_not_refuses hp hperform
  · cases hpure

/-- Code that carries a plan out, when it succeeds. -/
theorem Plan.Plans.ok_inv {α : Type} {p : Plan} {code : LowerM Empty α} {a b : α}
    (h : p.Plans code a) {s s' : LowerState Empty} (hcode : code s = .ok b s') :
    b = a ∧ ¬ p.Refuses := by
  rw [show code = _ from h] at hcode
  obtain ⟨_, s₁, hperform, hpure⟩ := bind_inv hcode
  exact ⟨(pure_inv hpure).1, Plan.not_refuses_of_ok hperform⟩

/-! ### Nodes that take a value as what it says -/

section Wrapping

variable {env : Environment}

/-- The code of a node of any role. -/
def Node.code (env : Environment) : Node Empty → LowerM Empty StackEffect
  | .value n => n.code env
  | .imperative n => n.code env
  | .manipulation n => n.code env

/-- Nodes around a value that lower it as what it says of itself. A manipulation of it is one whose
code succeeds in some state. -/
inductive ValueNode.Wrapping (env : Environment) (n : ValueNode Empty) : Node Empty → Prop
  | beginInit : Wrapping env n (.value (.beginInit n))
  | parentStack (line : Position) : Wrapping env n (.value (.parentStack n line))
  | manipulated {m : ManipulationNode Empty} {s s' : LowerState Empty} {effect : StackEffect}
      (line : Position) : m.code env s = .ok effect s' →
      Wrapping env n (.imperative (.valueManipulation n m line))

variable {n : ValueNode Empty} {w : Node Empty}

theorem Plan.refuses_deliver {expected : TypeRef} :
    (Plan.deliver env n expected (n.plan env)).Refuses ↔
      (n.plan env).Refuses ∨ env.hierarchy.assignable expected n.reported = false := by
  rw [deliver, refuses_seq, refuses_scoped, refuses_receive]

/-- Around a value that keeps its contracts, only its delivery can break one. -/
theorem ValueNode.Wrapping.not_breach (h : n.Wrapping env w) (hn : ¬ (n.plan env).Refuses)
    (hassign : env.hierarchy.assignable n.valueType n.reported = true) {s s' : LowerState Empty}
    {e : EmitError} (hcode : w.code env s = .error e s') : e.isBreach = false := by
  have hdeliver : ¬ (Plan.deliver env n n.valueType (n.plan env)).Refuses := by
    rw [Plan.refuses_deliver, hassign]
    simpa using hn
  cases h with
  | beginInit =>
    refine (plans_value (.beginInit n)).not_breach ?_ hcode
    rw [ValueNode.plan, Plan.refuses_seq, not_or]
    exact ⟨hdeliver, Plan.not_refuses_callHook env _⟩
  | parentStack line =>
    refine (plans_value (.parentStack n line)).not_breach ?_ hcode
    rw [ValueNode.plan, Plan.refuses_seq, not_or]
    exact ⟨Plan.not_refuses_act _, hdeliver⟩
  | @manipulated m _ _ _ line hm =>
    refine (plans_imperative (.valueManipulation n m line)).not_breach ?_ hcode
    rw [ImperativeNode.plan, Plan.refuses_seq, Plan.refuses_scoped, not_or]
    exact ⟨hdeliver, ((plans_manipulation m).ok_inv hm).2⟩

/-- A value that is lowered and is not what its node says breaks the contract of its receiver. -/
theorem deliver_breaches {s s' : LowerState Empty} {effect : StackEffect} {expected : TypeRef}
    (hdispatch : dispatch (.value n) (n.code env) s = .ok effect s')
    (hassign : env.hierarchy.assignable expected n.reported = false) :
    deliver env n expected (n.code env) s = .error (.stackContract (Node.value n).name
      (Node.value n).line (.notAssignable n.reported.fullName expected.fullName)) s' := by
  obtain ⟨rfl, -⟩ := ((plans_value n).dispatch (.value n)).ok_inv hdispatch
  simp only [deliver, Bind.bind, EStateM.bind, hdispatch, LowerM.checkValue, StackEffect.value,
    ne_eq, not_true_eq_false, if_false, hassign, Bool.not_false, if_true]
  rfl

/-- Around a value that is not what its node says, that breach is all that comes of it. -/
theorem ValueNode.Wrapping.breach (h : n.Wrapping env w)
    (hassign : env.hierarchy.assignable n.valueType n.reported = false) {s s' : LowerState Empty}
    {effect : StackEffect} (hverified : s.context.parentsVerified = true)
    (hdispatch : dispatch (.value n) (n.code env) s = .ok effect s') :
    w.code env s = .error (.stackContract (Node.value n).name (Node.value n).line
      (.notAssignable n.reported.fullName n.valueType.fullName)) s' := by
  have hdeliver := deliver_breaches hdispatch hassign
  cases h with
  | beginInit =>
    rw [Node.code, ValueNode.code]
    simp only [Bind.bind, EStateM.bind, hdeliver]
  | parentStack line =>
    have hverify : verifyParents (ValueNode.parentStack n line).name line s = .ok () s := by
      rw [LowerM.verifyParents, get_bind]
      simp only [hverified, if_true]
      rfl
    rw [Node.code, ValueNode.code]
    simp only [Bind.bind, EStateM.bind, hverify]
    exact hdeliver
  | manipulated line hm =>
    rw [Node.code, ImperativeNode.code]
    simp only [Bind.bind, EStateM.bind, hdeliver]

end Wrapping

/-! ### The main statement -/

/-- Code of a value node that succeeds takes nothing and leaves a value. The reported type is the
one that the node says exactly if the value was not boxed for a local of another type on the way.
If values of the reported type can be stored as what the node says, no node that wraps the value
breaks a contract, in any state; otherwise each does, wherever the value can be lowered. -/
theorem reported_type_agrees_iff {env : Environment} {n : ValueNode Empty}
    {s s' : LowerState Empty} {effect : StackEffect} (h : n.code env s = .ok effect s') :
    effect.consumed = 0 ∧ ∃ t, effect.result = some t ∧
      ((t == n.valueType) = true ↔ ∀ u, n.boxedFor? = some u → (u == n.valueType) = true) ∧
      ∀ w, n.Wrapping env w →
        (env.hierarchy.assignable n.valueType t = true → ∀ s₁ e s₂,
          w.code env s₁ = .error e s₂ → e.isBreach = false) ∧
        (env.hierarchy.assignable n.valueType t = false → ∀ s₁ effect' s₂,
          s₁.context.parentsVerified = true →
          dispatch (.value n) (n.code env) s₁ = .ok effect' s₂ →
          w.code env s₁ = .error (.stackContract (Node.value n).name (Node.value n).line
            (.notAssignable t.fullName n.valueType.fullName)) s₂) := by
  obtain ⟨rfl, hplan⟩ := (plans_value n).ok_inv h
  refine ⟨rfl, n.reported, rfl, ?_, fun w hw => ⟨?_, ?_⟩⟩
  · rw [n.reported_eq]
    cases n.boxedFor? with
    | none => simp
    | some t => simp
  · exact fun hassign s₁ e s₂ hcode => hw.not_breach hplan hassign hcode
  · exact fun hassign s₁ _ s₂ hverified hdispatch => hw.breach hassign hverified hdispatch

/-- A local for points. -/
def pointLocal : CompilerLocal := ⟨1, pointType, none⟩

/-- A point that is kept as a point. -/
def keptPoint : ValueNode Empty := .localInit pointLocal newPoint default

/-- A point that is kept as a point is what its node says, and can be wrapped. -/
theorem reported_type_agrees_keptPoint :
    ∃ effect s', keptPoint.code (markedEnvironment rootType) newState = .ok effect s' ∧
      ∃ t, effect.result = some t ∧ (t == keptPoint.valueType) = true ∧
        ∀ w, keptPoint.Wrapping (markedEnvironment rootType) w → ∀ s₁ e s₂,
          w.code (markedEnvironment rootType) s₁ = .error e s₂ → e.isBreach = false := by
  obtain ⟨effect, hcode⟩ := Result.eq_ok
    (r := keptPoint.code (markedEnvironment rootType) newState) (by decide +kernel)
  obtain ⟨-, t, hresult, hagrees, hwraps⟩ := reported_type_agrees_iff hcode
  have hsame : (t == keptPoint.valueType) = true := hagrees.mpr nofun
  refine ⟨effect, _, hcode, t, hresult, hsame, fun w hw => (hwraps w hw).1 ?_⟩
  rw [Hierarchy.assignable, BEq.comm, hsame]
  rfl

/-- A point that is kept as an object. -/
def boxedPoint : ValueNode Empty := .localInit objectLocal newPoint default

/-- A point that is boxed for a local of objects is reported as an object, while its node says that
it is a point; and where it is wrapped, it is refused. -/
theorem reported_type_not_always_agrees :
    (∃ effect s', boxedPoint.code (markedEnvironment rootType) newState = .ok effect s' ∧
        effect.result = some rootType) ∧
      (rootType == boxedPoint.valueType) = false ∧
      ∃ s', ValueNode.code (markedEnvironment rootType) (.beginInit boxedPoint) newState =
          .error (.stackContract "LocalInitNode" default (.notAssignable "Object" "Point")) s' := by
  obtain ⟨effect, hcode⟩ := Result.eq_ok
    (r := boxedPoint.code (markedEnvironment rootType) newState) (by decide +kernel)
  obtain ⟨rfl, -⟩ := (plans_value boxedPoint).ok_inv hcode
  exact ⟨⟨_, _, hcode, rfl⟩, by decide +kernel, _, Result.eq_error (by decide +kernel)⟩

end MarkupLowering
