import MarkupLowering.Proofs.Lowering.Locals

/-!
# MarkupLowering.Proofs.Lowering.Representation

**Values arrive in the form that their receiver expects.** Values of value types lie on the stack
as they are or boxed, all others are references. Whether a value is boxed is decided from the type
that its node reports, so reported types and stack have to agree through all chains of nodes.

* `replay` runs the acts of a plan on a stack of types and forms, and gets stuck where a receiver
  finds the wrong one. It knows the plan and the slots of the context, but not the emitter.
* A value `Serves` for the type that its node reports; `Sound` collects what this has to give. After
  the code of a value node such a value is on the stack (`replays_value`), by one case for each kind
  of node. This is the invariant of the whole replay. Statements and manipulations need no other:
  they leave below them what was there before.
* Replay may rely on what lowering has checked. That a plan was carried out to its end says that no
  contract was broken and that the slots it loads from are there (`Plan.Passed`); a tree that was
  lowered has this of its plan (`Carries.passed`).
* `lower_delivers_values` is the main statement.

A value that was boxed to be stored in a local is on the stack under two types, its own and that
of the local, and receivers are checked against the second. `Entry.retype` goes on with this one.
With `Entry.keep`, which goes on with the first, replay can get stuck
(`own_type_not_always_accepted`), unless assignability is transitive. All that differs in the proof
is which values serve for a type, so replay is gone through once for any way to go on that is
`Sound`.
-/

namespace MarkupLowering

open Emission LowerM

/-! ### Types on the stack -/

/-- How a value lies on the stack. -/
inductive Form
  /-- A value of a value type, as it is. -/
  | unboxed
  /-- An object, be it of a reference type or a boxed value. -/
  | reference
  deriving DecidableEq

/-- What is known of a value on the stack. -/
structure Entry where
  type : TypeRef
  form : Form

/-- The form in which values of a type are expected. -/
def TypeRef.form (t : TypeRef) : Form := if t.isValueType then .unboxed else .reference

/-- A value of a type, in the form of the type. -/
def TypeRef.entry (t : TypeRef) : Entry := ⟨t, t.form⟩

namespace Entry

/-- Whether a value can be taken where a type is declared. -/
def fits (h : Hierarchy) (declared : TypeRef) (e : Entry) : Bool :=
  h.assignable declared e.type && decide (e.form = declared.form)

/-- Whether values can be taken where types are declared, in order. -/
def fitAll (h : Hierarchy) : List TypeRef → List Entry → Bool
  | [], [] => true
  | t :: ts, e :: es => e.fits h t && fitAll h ts es
  | _, _ => false

/-- A value of a value type that is a reference was boxed. -/
def isBoxed (e : Entry) : Bool := e.type.isValueType && decide (e.form = .reference)

/-- A value that was stored in a local goes on with its own type. -/
def keep (_ : TypeRef) (e : Entry) : Entry := e

/-- A boxed value that was stored in a local goes on with the type of the local. -/
def retype (declared : TypeRef) (e : Entry) : Entry :=
  if e.isBoxed then ⟨declared, .reference⟩ else e

end Entry

/-! ### Replay -/

section Replay

variable (env : Environment) (stored : TypeRef → Entry → Entry) (c : Context Empty)

/-- What an act does to the stack, with the slots of a context. Setters take the object and the
value, hooks the copy of the value, and neither leaves anything. -/
def Act.replay : Act → List Entry → Option (List Entry)
  | .text type _, stack => some (⟨type, .reference⟩ :: stack)
  | .load l _, stack => do
    let slot ← c.slot? l
    some (slot.type.entry :: stack)
  | .store l, e :: stack => do
    let slot ← c.slot? l
    if e.fits env.hierarchy slot.type then some (stack.modifyHead (stored slot.type)) else none
  | .context _, stack => do
    let slot ← c.contextLocal
    some (slot.type.entry :: stack)
  | .copy, e :: stack => some (e :: e :: stack)
  | .drop, _ :: stack => some stack
  | .create r, stack =>
    if Entry.fitAll env.hierarchy r.params (stack.take r.params.length).reverse then
      some (r.declaring.entry :: stack.drop r.params.length)
    else none
  | .assign property _, e :: _ :: stack =>
    if e.fits env.hierarchy property.type then some stack else none
  | .hook _, e :: stack => some (e :: stack)
  | .box type, e :: stack =>
    if e.type == type && decide (e.form = .unboxed) then some (⟨type, .reference⟩ :: stack)
    else none
  | .convert target, e :: stack =>
    if e.fits env.hierarchy env.config.core.object && decide (e.form = .reference) then
      some (target.entry :: stack)
    else none
  | .verify .., stack => some stack
  | _, _ => none

/-- What a step does to the stack. Entering a node does nothing, and past a breach there is nothing
to replay. -/
def Step.replay : Step → List Entry → Option (List Entry)
  | .enter _, stack => some stack
  | .act a, stack => a.replay env stored c stack
  | .refuse .., _ => none

/-- Replays steps, up to the first that finds a wrong value. -/
def replay (steps : List Step) (stack : List Entry) : Option (List Entry) :=
  steps.foldlM (fun stack step => step.replay env stored c stack) stack

theorem replay_append (steps steps' : List Step) (stack : List Entry) :
    replay env stored c (steps ++ steps') stack =
      (replay env stored c steps stack).bind (replay env stored c steps') :=
  List.foldlM_append

theorem replay_cons (step : Step) (steps : List Step) (stack : List Entry) :
    replay env stored c (step :: steps) stack =
      (step.replay env stored c stack).bind (replay env stored c steps) :=
  List.foldlM_cons

end Replay

/-! ### Types that agree about kinds -/

/-- Types that agree about what values are: equal ones are of one kind, roots are reference types,
and no reference type derives from a value type. -/
structure SoundTypes (types : List TypeRef) : Prop where
  /-- Types are compared by identity, which the kind is no part of. -/
  sameKind : ∀ t ∈ types, ∀ u ∈ types, (t == u) = true → t.kind = u.kind
  /-- With a type, the list has all that it derives from. -/
  bases : ∀ t ∈ types, ∀ u ∈ t.bases, u ∈ types
  references : ∀ t ∈ types, t.isValueType = false → ∀ u ∈ t.bases, u.isValueType = false
  root : ∀ t ∈ types, t.isRoot = true → t.isValueType = false

/-- Only values of value types can be stored where a value type is declared. So no receiver gets a
reference where it expects an unboxed value, and all there is to do is boxing. -/
theorem SoundTypes.isValueType_of_assignable {types : List TypeRef} (h : SoundTypes types)
    {hierarchy : Hierarchy} {target source : TypeRef} (htarget : target ∈ types)
    (hsource : source ∈ types) (hassign : hierarchy.assignable target source = true)
    (hvalue : target.isValueType = true) : source.isValueType = true := by
  have hroot : target.isRoot = false := by
    cases hroot : target.isRoot with
    | false => rfl
    | true => exact absurd (h.root target htarget hroot) (by rw [hvalue]; exact nofun)
  have hinterface : target.isInterface = false := by
    rw [TypeRef.isValueType, beq_iff_eq] at hvalue
    rw [TypeRef.isInterface, hvalue]
    rfl
  -- neither a root nor an interface: the types are equal, or one is a base of the other
  unfold Hierarchy.assignable at hassign
  rw [hroot, hinterface] at hassign
  simp only [Bool.or_false, Bool.false_eq_true, if_false, Bool.or_eq_true, List.any_eq_true]
    at hassign
  rcases hassign with hsame | ⟨base, hbase, hsame⟩
  · rw [TypeRef.isValueType, ← h.sameKind target htarget source hsource hsame]
    exact hvalue
  · have hkind := h.sameKind base (h.bases source hsource base hbase) target htarget hsame
    have hbaseValue : base.isValueType = true := by
      rw [TypeRef.isValueType, hkind]
      exact hvalue
    cases hreference : source.isValueType with
    | true => rfl
    | false =>
      exact absurd (h.references source hsource hreference base hbase)
        (by rw [hbaseValue]; exact nofun)

/-- Types that agree about what values are, and objects of which are references. -/
structure Representable (env : Environment) (types : List TypeRef) : Prop
    extends SoundTypes types where
  object : env.config.core.object ∈ types
  /-- What is to be converted is delivered as an object, so values are boxed for it. -/
  objects : env.config.core.object.isValueType = false

/-- Assignability can be chained among some types. -/
def Hierarchy.TransitiveOn (h : Hierarchy) (types : List TypeRef) : Prop :=
  ∀ t ∈ types, ∀ u ∈ types, ∀ v ∈ types,
    h.assignable t u = true → h.assignable u v = true → h.assignable t v = true

/-! ### Values that stand for a type -/

/-- The form of a value is right for a type where its type is a value type when the other is. -/
theorem TypeRef.form_eq {t u : TypeRef} (h : t.isValueType = u.isValueType) : t.form = u.form := by
  rw [TypeRef.form, TypeRef.form, h]

/-- A way to go on with stored values is sound if values `Serve` for the types that are reported of
them: they are as good as any value of that type, and remain so when they are stored. -/
structure Sound (env : Environment) (types : List TypeRef) (stored : TypeRef → Entry → Entry)
    (Serves : TypeRef → Entry → Prop) : Prop extends Representable env types where
  /-- A value of a type serves for it. -/
  entry : ∀ t, Serves t t.entry
  /-- Whether a value is unboxed can be told from the reported type. -/
  form : ∀ {t e}, Serves t e → e.form = t.form
  /-- The type to box a value as can be told from the reported type. -/
  unboxed : ∀ {t e}, Serves t e → t.isValueType = true → e.type = t
  /-- Whoever accepts the reported type accepts the value. -/
  accepted : ∀ {t e u}, Serves t e → u ∈ types → env.hierarchy.assignable u t = true →
    env.hierarchy.assignable u e.type = true
  /-- A value that is stored as it is serves for what it did. -/
  kept : ∀ {t e} (declared : TypeRef), Serves t e → Serves t (stored declared e)
  /-- A value that was boxed to be stored serves for the type of the local, which is what the node
  reports then. -/
  boxed : ∀ {declared t}, declared ∈ types → t ∈ types →
    env.hierarchy.assignable declared t = true → t.isValueType = true →
    declared.isValueType = false → Serves declared (stored declared ⟨t, .reference⟩)

/-- Boxed values go on as what they were stored as: then every value is of the reported type. -/
theorem Representable.retype {env : Environment} {types : List TypeRef}
    (h : Representable env types) :
    Sound env types Entry.retype (fun t e => e = t.entry) where
  toRepresentable := h
  entry _ := rfl
  form he := by rw [he, TypeRef.entry]
  unboxed he _ := by rw [he, TypeRef.entry]
  accepted he _ hassign := by rw [he]; exact hassign
  kept declared he := by
    rw [he, Entry.retype, Entry.isBoxed, TypeRef.entry, TypeRef.form]
    cases TypeRef.isValueType _ <;> rfl
  boxed _ _ _ hvalue hreference := by
    rw [Entry.retype, Entry.isBoxed, hvalue, TypeRef.entry, TypeRef.form, hreference]
    rfl

/-- Values keep their own types: where assignability is transitive, these are accepted too. -/
theorem Representable.keep {env : Environment} {types : List TypeRef} (h : Representable env types)
    (htrans : env.hierarchy.TransitiveOn types) :
    Sound env types Entry.keep fun t e => e.form = t.form ∧ (t.isValueType = true → e.type = t) ∧
      ∀ u ∈ types, env.hierarchy.assignable u t = true →
        env.hierarchy.assignable u e.type = true where
  toRepresentable := h
  entry _ := ⟨rfl, fun _ => rfl, fun _ _ hassign => hassign⟩
  form he := he.1
  unboxed he := he.2.1
  accepted he := he.2.2 _
  kept _ he := he
  boxed {declared t} hdeclared ht hassign hvalue hreference := by
    refine ⟨?_, fun hdeclaredValue => ?_, fun u hu haccepts => ?_⟩
    · rw [TypeRef.form, hreference]
      rfl
    · rw [hreference] at hdeclaredValue
      cases hdeclaredValue
    · exact htrans u hu declared hdeclared t ht haccepts hassign

/-- What is received of a value: it is boxed where its form is not the expected one. -/
def Entry.received (expected actual : TypeRef) (e : Entry) : Entry :=
  if actual.isValueType && !expected.isValueType then ⟨actual, .reference⟩ else e

section Boxing

variable {expected actual : TypeRef}

/-! Whether a value is boxed is decided in one way in the plan (`Plan.receive`), in what is received
of the value (`Entry.received`) and in what is reported of it (`delivered`). -/

/-- Values are boxed that are of a value type where none is expected. -/
theorem boxes_iff : (actual.isValueType && !expected.isValueType) = true ↔
    actual.isValueType = true ∧ expected.isValueType = false := by
  rw [Bool.and_eq_true, Bool.not_eq_true']

theorem not_boxes (h : actual.isValueType = true → expected.isValueType = true) :
    ¬ (actual.isValueType && !expected.isValueType) = true := by
  intro hbox
  obtain ⟨hvalue, hreference⟩ := boxes_iff.mp hbox
  cases (h hvalue).symm.trans hreference

theorem delivered_self (h : actual.isValueType = true → expected.isValueType = true) :
    delivered expected actual = actual := if_neg (not_boxes h)

theorem Entry.received_self (e : Entry)
    (h : actual.isValueType = true → expected.isValueType = true) :
    e.received expected actual = e := if_neg (not_boxes h)

end Boxing

namespace Sound

variable {env : Environment} {types : List TypeRef} {stored : TypeRef → Entry → Entry}
variable {Serves : TypeRef → Entry → Prop} {expected actual : TypeRef} {e : Entry}

/-- A value is received in the expected form. -/
theorem received_fits (h : Sound env types stored Serves)
    (he : Serves actual e) (hexpected : expected ∈ types) (hactual : actual ∈ types)
    (hassign : env.hierarchy.assignable expected actual = true) :
    (e.received expected actual).fits env.hierarchy expected = true := by
  rw [Entry.fits, Bool.and_eq_true, decide_eq_true_iff]
  unfold Entry.received
  split
  · rename_i hbox
    refine ⟨hassign, ?_⟩
    rw [TypeRef.form, (boxes_iff.mp hbox).2]
    rfl
  · rename_i hbox
    -- not boxed: either both are value types or none is, as a value type accepts only such
    refine ⟨h.accepted he hexpected hassign, (h.form he).trans (TypeRef.form_eq ?_)⟩
    cases hvalue : expected.isValueType with
    | true => exact h.isValueType_of_assignable hexpected hactual hassign hvalue
    | false => simpa [hvalue] using hbox

/-- What was received and stored serves for the type that is reported of it. -/
theorem serves_stored (h : Sound env types stored Serves) (he : Serves actual e)
    (hexpected : expected ∈ types) (hactual : actual ∈ types)
    (hassign : env.hierarchy.assignable expected actual = true) :
    Serves (delivered expected actual) (stored expected (e.received expected actual)) := by
  unfold Entry.received delivered
  -- both are decided by the same test
  split
  · rename_i hbox
    obtain ⟨hvalue, hreference⟩ := boxes_iff.mp hbox
    exact h.boxed hexpected hactual hassign hvalue hreference
  · exact h.kept expected he

end Sound

/-! ### Trees with types -/

/-- A node refers to types of a list only. Texts are references, and nodes for the context local
have its type. -/
def Node.Typed (types : List TypeRef) (context : Option Slot) : Node Empty → Prop
  | .value (.string type _ _) => type ∈ types ∧ type.isValueType = false
  | .value (.localRef l _) | .value (.localInit l _ _) => l.type ∈ types
  | .value (.contextLocal type _) =>
    type ∈ types ∧ ∀ slot, context = some slot → slot.type = type
  | .value (.cast _ target _) => target ∈ types
  | .value (.newObject r _ _) => r.declaring ∈ types ∧ ∀ param ∈ r.params, param ∈ types
  | .manipulation (.assign property _ _) => property.type ∈ types
  | _ => True

/-- All nodes of a walk are typed. -/
def TypedWalk (types : List TypeRef) (context : Option Slot) (walk : List (Occurrence Empty)) :
    Prop := ∀ o ∈ walk, o.node.Typed types context

section Trees

variable {types : List TypeRef} {context : Option Slot}

theorem typedWalk_rooted {n : Node Empty} {walk : List (Occurrence Empty)} :
    TypedWalk types context (rooted n walk) ↔
      n.Typed types context ∧ TypedWalk types context walk := by
  simp [TypedWalk, rooted, Occurrence.under]

theorem typedWalk_append {walk walk' : List (Occurrence Empty)} :
    TypedWalk types context (walk ++ walk') ↔
      TypedWalk types context walk ∧ TypedWalk types context walk' :=
  List.forall_mem_append

/-- What is reported of a delivered value is one of the two types. -/
theorem delivered_mem {expected actual : TypeRef} (hexpected : expected ∈ types)
    (hactual : actual ∈ types) : delivered expected actual ∈ types := by
  unfold delivered
  split <;> assumption

/-- The types that are known of a value node are types of the list. By induction on the node: where
a node says what another one says, the other one is below it and in the same walk. -/
theorem ValueNode.types_mem : ∀ n : ValueNode Empty,
    TypedWalk types context (rooted (.value n) n.descendants) →
    n.reported ∈ types ∧ n.valueType ∈ types
  | .string type _ _, h => by
    have htype := (typedWalk_rooted.mp h).1.1
    exact ⟨htype, htype⟩
  | .localRef l _, h => by
    have htype := (typedWalk_rooted.mp h).1
    exact ⟨htype, htype⟩
  | .localInit l value _, h => by
    obtain ⟨htype, hvalue⟩ := typedWalk_rooted.mp h
    obtain ⟨hreported, hvalueType⟩ := value.types_mem hvalue
    exact ⟨delivered_mem htype hreported, hvalueType⟩
  | .beginInit value, h => by
    obtain ⟨hreported, hvalueType⟩ := value.types_mem (typedWalk_rooted.mp h).2
    exact ⟨delivered_mem hvalueType hreported, hvalueType⟩
  | .contextLocal type _, h => by
    have htype := (typedWalk_rooted.mp h).1.1
    exact ⟨htype, htype⟩
  | .cast _ target _, h => by
    have htype := (typedWalk_rooted.mp h).1
    exact ⟨htype, htype⟩
  | .parentStack value _, h => by
    obtain ⟨hreported, hvalueType⟩ := value.types_mem (typedWalk_rooted.mp h).2
    exact ⟨delivered_mem hvalueType hreported, hvalueType⟩
  | .newObject r _ _, h => by
    have htype := (typedWalk_rooted.mp h).1.1
    exact ⟨htype, htype⟩

end Trees

/-- A node that reports a value type is of one: where a value is delivered as what its node says,
it is never boxed. The two types part only at a local that a value is boxed for, and there what is
reported is the type of the local, a reference type. -/
theorem ValueNode.isValueType_valueType : ∀ n : ValueNode Empty,
    n.reported.isValueType = true → n.valueType.isValueType = true
  | .string .., h | .localRef .., h | .contextLocal .., h | .cast .., h | .newObject .., h => h
  | .localInit l value _, h => by
    rw [ValueNode.reported, delivered] at h
    rw [ValueNode.valueType]
    split at h
    · rename_i hbox
      cases h.symm.trans (boxes_iff.mp hbox).2
    · exact value.isValueType_valueType h
  | .beginInit value, h | .parentStack value _, h => by
    rw [ValueNode.reported, delivered_self value.isValueType_valueType] at h
    exact value.isValueType_valueType h

/-! ### Steps that were carried out -/

/-- What is known of a step that was carried out: the contract held, and the slot is there. -/
def Step.Passed (c : Context Empty) : Step → Prop
  | .refuse .. => False
  | .act (.load l _) | .act (.store l) => ∃ slot, c.slot? l = some slot ∧ slot.type = l.type
  | .act (.context _) => ∃ slot, c.contextLocal = some slot
  | _ => True

/-- The steps of a plan were carried out. -/
def Plan.Passed (p : Plan) (c : Context Empty) : Prop := ∀ step ∈ p.steps, step.Passed c

section Passed

variable {p q : Plan} {c : Context Empty}

theorem Plan.passed_seq : (Plan.seq p q).Passed c ↔ p.Passed c ∧ q.Passed c :=
  List.forall_mem_append

theorem Plan.passed_act {a : Act} : (Plan.act a).Passed c ↔ (Step.act a).Passed c :=
  List.forall_mem_singleton

/-- No breach was passed, so the cases of a broken contract are closed by this. -/
theorem Plan.passed_refuse (n : Node Empty) (b : Breach) : ¬ (Plan.refuse n b).Passed c :=
  fun h => h _ List.mem_cons_self

theorem Plan.passed_scoped {n : Node Empty} : (Plan.scoped n p).Passed c ↔ p.Passed c := by
  rw [Plan.Passed, Plan.steps, List.forall_mem_cons]
  exact and_iff_right trivial

end Passed

/-! ### Replaying trees -/

section Trees

variable {env : Environment} {types : List TypeRef} {stored : TypeRef → Entry → Entry}
variable {Serves : TypeRef → Entry → Prop} {c : Context Empty}

/-- Replaying a plan, from one stack to another. -/
def Plan.Turns (env : Environment) (stored : TypeRef → Entry → Entry) (c : Context Empty) (p : Plan)
    (stack stack' : List Entry) : Prop := replay env stored c p.steps stack = some stack'

/-- A plan after another one starts where that one ended. -/
theorem Plan.Turns.seq {p q : Plan} {stack stack₁ stack₂ : List Entry}
    (h : p.Turns env stored c stack stack₁) (h' : q.Turns env stored c stack₁ stack₂) :
    (Plan.seq p q).Turns env stored c stack stack₂ := by
  unfold Plan.Turns at *
  rw [Plan.steps, replay_append, h]
  exact h'

/-- Entering a node does nothing to the stack. -/
theorem Plan.Turns.scoped {p : Plan} {stack stack' : List Entry} (n : Node Empty)
    (h : p.Turns env stored c stack stack') : (Plan.scoped n p).Turns env stored c stack stack' := h

theorem Plan.turns_act {a : Act} {stack stack' : List Entry}
    (h : a.replay env stored c stack = some stack') :
    (Plan.act a).Turns env stored c stack stack' := by
  rw [Plan.Turns, Plan.steps, replay_cons, Step.replay, h]
  rfl

/-- Replaying a value plan leaves a value that serves for a type. -/
def Plan.Leaves (env : Environment) (stored : TypeRef → Entry → Entry)
    (Serves : TypeRef → Entry → Prop) (c : Context Empty) (p : Plan) (t : TypeRef) : Prop :=
  ∀ stack, ∃ e, Serves t e ∧ p.Turns env stored c stack (e :: stack)

/-- A value is received in the form that is expected: that the contract was passed says that it is
assignable, and if it is boxed then it was unboxed before. -/
theorem replays_receive (h : Sound env types stored Serves) {n : Node Empty}
    {expected actual : TypeRef} {e : Entry}
    (hpassed : (Plan.receive env n expected actual).Passed c) (he : Serves actual e)
    (stack : List Entry) :
    env.hierarchy.assignable expected actual = true ∧
      (Plan.receive env n expected actual).Turns env stored c (e :: stack)
        (e.received expected actual :: stack) := by
  unfold Plan.receive Entry.received at *
  split at hpassed
  · rename_i hassign
    refine ⟨hassign, ?_⟩
    rw [if_pos hassign]
    split
    · rename_i hbox
      have hvalue := (boxes_iff.mp hbox).1
      have hform : e.form = .unboxed := by rw [h.form he, TypeRef.form, if_pos hvalue]
      refine Plan.turns_act ?_
      rw [Act.replay, h.unboxed he hvalue, hform, BEq.rfl]
      rfl
    · rfl
  · exact absurd hpassed (Plan.passed_refuse _ _)

/-- A value is delivered in the form that is expected: first its code is replayed, by `h`, and then
it is received. -/
theorem replays_deliver (hsound : Sound env types stored Serves) {n : ValueNode Empty}
    {expected : TypeRef} (hexpected : expected ∈ types) (hn : n.reported ∈ types)
    (hpassed : (Plan.deliver env n expected (n.plan env)).Passed c)
    (h : (n.plan env).Passed c → (n.plan env).Leaves env stored Serves c n.reported)
    (stack : List Entry) :
    ∃ e, Serves n.reported e ∧ env.hierarchy.assignable expected n.reported = true ∧
      (e.received expected n.reported).fits env.hierarchy expected = true ∧
      (Plan.deliver env n expected (n.plan env)).Turns env stored c stack
        (e.received expected n.reported :: stack) := by
  rw [Plan.deliver, Plan.passed_seq, Plan.passed_scoped] at hpassed
  obtain ⟨e, he, hturns⟩ := h hpassed.1 stack
  obtain ⟨hassign, hreceive⟩ := replays_receive hsound hpassed.2 he stack
  exact ⟨e, he, hassign, hsound.received_fits he hexpected hn hassign,
    (hturns.scoped _).seq hreceive⟩

/-- A value that is delivered as what its node says is not changed. -/
theorem replays_deliver_self (hsound : Sound env types stored Serves) {n : ValueNode Empty}
    (hmem : n.reported ∈ types ∧ n.valueType ∈ types)
    (hpassed : (Plan.deliver env n n.valueType (n.plan env)).Passed c)
    (h : (n.plan env).Passed c → (n.plan env).Leaves env stored Serves c n.reported)
    (stack : List Entry) :
    ∃ e, Serves (delivered n.valueType n.reported) e ∧
      (Plan.deliver env n n.valueType (n.plan env)).Turns env stored c stack (e :: stack) := by
  obtain ⟨e, he, -, -, hturns⟩ := replays_deliver hsound hmem.2 hmem.1 hpassed h stack
  rw [e.received_self n.isValueType_valueType] at hturns
  refine ⟨e, ?_, hturns⟩
  rw [delivered_self n.isValueType_valueType]
  exact he

/-- The hook takes the copy of the value, so the stack is as before. What the hook is called on is
not checked here. -/
theorem replays_callHook (type : TypeRef) (e : Entry) (stack : List Entry) :
    (Plan.callHook env type).Turns env stored c (e :: stack) (e :: stack) := by
  unfold Plan.callHook
  cases env.beginInitFor type with
  | none => rfl
  | some hook => exact Plan.turns_act rfl

mutual

/-- The code of a value node leaves a value that serves for the reported type. By induction on the
node, for any stack below the value; each case replays the parts of the plan in their order. -/
theorem replays_value (h : Sound env types stored Serves) : ∀ n : ValueNode Empty,
    TypedWalk types c.contextLocal (rooted (.value n) n.descendants) → (n.plan env).Passed c →
    (n.plan env).Leaves env stored Serves c n.reported
  | .string type text line, hn, hpassed => by
    intro stack
    obtain ⟨-, hreference⟩ := (typedWalk_rooted.mp hn).1
    have hentry : type.entry = ⟨type, .reference⟩ := by
      rw [TypeRef.entry, TypeRef.form, hreference]
      rfl
    refine ⟨type.entry, h.entry type, ?_⟩
    unfold ValueNode.plan
    refine Plan.turns_act ?_
    rw [hentry]
    rfl
  | .localRef l line, hn, hpassed => by
    intro stack
    unfold ValueNode.plan at hpassed ⊢
    obtain ⟨slot, hslot, htype⟩ := Plan.passed_act.mp hpassed
    refine ⟨l.type.entry, h.entry l.type, Plan.turns_act ?_⟩
    rw [Act.replay, hslot, ← htype]
    rfl
  | .localInit l value line, hn, hpassed => by
    intro stack
    obtain ⟨hl, hvalue⟩ := typedWalk_rooted.mp hn
    unfold ValueNode.plan at hpassed ⊢
    obtain ⟨hdeliver, hrest⟩ := Plan.passed_seq.mp hpassed
    obtain ⟨slot, hslot, htype⟩ := Plan.passed_act.mp (Plan.passed_seq.mp hrest).2
    have hreported := (value.types_mem hvalue).1
    obtain ⟨e, he, hassign, hfits, hturns⟩ :=
      replays_deliver h hl hreported hdeliver (replays_value h value hvalue) stack
    -- the store takes the copy, and what is left goes on as `stored`
    refine ⟨_, h.serves_stored he hl hreported hassign, ?_⟩
    refine hturns.seq (.seq (Plan.turns_act rfl) (Plan.turns_act ?_))
    rw [Act.replay, hslot, ← htype] at *
    exact if_pos hfits
  | .beginInit value, hn, hpassed => by
    intro stack
    have hvalue := (typedWalk_rooted.mp hn).2
    unfold ValueNode.plan at hpassed ⊢
    obtain ⟨e, he, hturns⟩ := replays_deliver_self h (value.types_mem hvalue)
      (Plan.passed_seq.mp hpassed).1 (replays_value h value hvalue) stack
    exact ⟨e, he, hturns.seq (replays_callHook _ e stack)⟩
  | .contextLocal type line, hn, hpassed => by
    intro stack
    unfold ValueNode.plan at hpassed ⊢
    obtain ⟨slot, hslot⟩ := Plan.passed_act.mp hpassed
    have htype := (typedWalk_rooted.mp hn).1.2 slot hslot
    refine ⟨type.entry, h.entry type, Plan.turns_act ?_⟩
    rw [Act.replay, hslot, ← htype]
    rfl
  | .cast value target line, hn, hpassed => by
    intro stack
    have hvalue := (typedWalk_rooted.mp hn).2
    unfold ValueNode.plan at hpassed ⊢
    obtain ⟨e, he, -, hfits, hturns⟩ := replays_deliver h h.object
      (value.types_mem hvalue).1 (Plan.passed_seq.mp hpassed).1 (replays_value h value hvalue) stack
    refine ⟨target.entry, h.entry target, hturns.seq (Plan.turns_act (if_pos ?_))⟩
    -- what fits an object is a reference
    rw [hfits]
    rw [Entry.fits, Bool.and_eq_true, decide_eq_true_iff, TypeRef.form, h.objects] at hfits
    rw [hfits.2]
    rfl
  | .parentStack value line, hn, hpassed => by
    intro stack
    have hvalue := (typedWalk_rooted.mp hn).2
    unfold ValueNode.plan at hpassed ⊢
    obtain ⟨e, he, hturns⟩ := replays_deliver_self h (value.types_mem hvalue)
      (Plan.passed_seq.mp hpassed).2 (replays_value h value hvalue) stack
    exact ⟨e, he, .seq (Plan.turns_act rfl) hturns⟩
  | .newObject r arguments line, hn, hpassed => by
    intro stack
    obtain ⟨⟨-, hparams⟩, harguments⟩ := typedWalk_rooted.mp hn
    unfold ValueNode.plan at hpassed ⊢
    obtain ⟨hcount, hrest⟩ := Plan.passed_seq.mp hpassed
    split at hcount
    · rename_i hlength
      obtain ⟨es, hes, hfits, hturns⟩ := replays_arguments h arguments r.params hparams hlength
        harguments (Plan.passed_seq.mp hrest).1 stack
      refine ⟨r.declaring.entry, h.entry _, ?_⟩
      rw [if_pos hlength]
      have hnothing : Plan.nothing.Turns env stored c stack stack := rfl
      refine hnothing.seq (hturns.seq (Plan.turns_act ?_))
      -- the last argument is on top
      have htake : ((es.reverse ++ stack).take r.params.length).reverse = es := by
        rw [List.take_left' (by rw [List.length_reverse, hes]), List.reverse_reverse]
      rw [Act.replay, htake, hfits, List.drop_left' (by rw [List.length_reverse, hes])]
      rfl
    · exact absurd hcount (Plan.passed_refuse _ _)

/-- The code of arguments leaves values that fit the parameters, the last one on top. As many are
given as there are parameters, so the two lists end together. -/
theorem replays_arguments (h : Sound env types stored Serves) :
    ∀ (values : List (ValueNode Empty)) (params : List TypeRef),
    (∀ param ∈ params, param ∈ types) → params.length = values.length →
    TypedWalk types c.contextLocal (argumentsWalk values) →
    (argumentsPlan env values params).Passed c →
    ∀ stack, ∃ es : List Entry, es.length = params.length ∧
      Entry.fitAll env.hierarchy params es = true ∧
      (argumentsPlan env values params).Turns env stored c stack (es.reverse ++ stack)
  | [], [], _, _, _, _, stack => by
    unfold argumentsPlan
    exact ⟨[], rfl, rfl, rfl⟩
  | value :: values, param :: params, hparams, hlength, hwalk, hpassed, stack => by
    obtain ⟨hvalue, hvalues⟩ := typedWalk_append.mp hwalk
    unfold argumentsPlan at hpassed ⊢
    obtain ⟨hfirst, hrest⟩ := Plan.passed_seq.mp hpassed
    obtain ⟨hparam, hparams⟩ := List.forall_mem_cons.mp hparams
    obtain ⟨e, he, -, hfits, hturns⟩ := replays_deliver h hparam
      (value.types_mem hvalue).1 hfirst (replays_value h value hvalue) stack
    obtain ⟨es, hes, hfitAll, hturnsAll⟩ := replays_arguments h values params hparams
      (Nat.succ.inj hlength) hvalues hrest (e.received param value.reported :: stack)
    refine ⟨e.received param value.reported :: es, by rw [List.length_cons, hes]; rfl, ?_, ?_⟩
    · rw [Entry.fitAll, hfits, hfitAll]
      rfl
    · rw [List.reverse_cons, List.append_assoc]
      exact hturns.seq hturnsAll

/-- The code of a statement leaves the stack as it was. -/
theorem replays_imperative (h : Sound env types stored Serves) : ∀ n : ImperativeNode Empty,
    TypedWalk types c.contextLocal (rooted (.imperative n) n.descendants) → (n.plan env).Passed c →
    ∀ stack, (n.plan env).Turns env stored c stack stack
  | .valueManipulation value manipulation line, hn, hpassed, stack => by
    obtain ⟨hvalue, hmanipulation⟩ := typedWalk_append.mp (typedWalk_rooted.mp hn).2
    unfold ImperativeNode.plan at hpassed ⊢
    obtain ⟨hdeliver, hrest⟩ := Plan.passed_seq.mp hpassed
    obtain ⟨e, -, hturns⟩ := replays_deliver_self h (value.types_mem hvalue) hdeliver
      (replays_value h value hvalue) stack
    have hmanipulate := replays_manipulation h manipulation hmanipulation
      (Plan.passed_scoped.mp hrest) e stack
    exact hturns.seq (hmanipulate.scoped _)
  | .block children line, hn, hpassed, stack => by
    unfold ImperativeNode.plan at hpassed ⊢
    exact replays_statements h children (typedWalk_rooted.mp hn).2 hpassed stack

/-- So does the code of statements, one after the other. -/
theorem replays_statements (h : Sound env types stored Serves) :
    ∀ children : List (ImperativeNode Empty),
    TypedWalk types c.contextLocal (statementsWalk children) →
    (statementsPlan env children).Passed c →
    ∀ stack, (statementsPlan env children).Turns env stored c stack stack
  | [], _, _, stack => by
    unfold statementsPlan
    rfl
  | child :: children, hwalk, hpassed, stack => by
    obtain ⟨hchild, hchildren⟩ := typedWalk_append.mp hwalk
    unfold statementsPlan at hpassed ⊢
    obtain ⟨hfirst, hrest⟩ := Plan.passed_seq.mp hpassed
    have hturns := replays_imperative h child hchild (Plan.passed_scoped.mp hfirst) stack
    exact (hturns.scoped _).seq (replays_statements h children hchildren hrest stack)

/-- The code of a manipulation takes one value. -/
theorem replays_manipulation (h : Sound env types stored Serves) : ∀ n : ManipulationNode Empty,
    TypedWalk types c.contextLocal (rooted (.manipulation n) n.descendants) →
    (n.plan env).Passed c → ∀ e stack, (n.plan env).Turns env stored c (e :: stack) stack
  | .imperative body line, hn, hpassed, e, stack => by
    unfold ManipulationNode.plan at hpassed ⊢
    have hbody := Plan.passed_scoped.mp (Plan.passed_seq.mp hpassed).2
    have hturns := replays_imperative h body (typedWalk_rooted.mp hn).2 hbody stack
    exact .seq (Plan.turns_act rfl) (hturns.scoped _)
  | .assign property value line, hn, hpassed, e, stack => by
    obtain ⟨hproperty, hvalue⟩ := typedWalk_rooted.mp hn
    unfold ManipulationNode.plan at hpassed ⊢
    cases hsetter : property.setter with
    | none =>
      rw [hsetter] at hpassed
      exact absurd (Plan.passed_seq.mp hpassed).1 (Plan.passed_refuse _ _)
    | some setter =>
      rw [hsetter] at hpassed
      obtain ⟨v, -, -, hfits, hturns⟩ := replays_deliver h hproperty
        (value.types_mem hvalue).1 (Plan.passed_seq.mp hpassed).1 (replays_value h value hvalue)
        (e :: stack)
      exact hturns.seq (Plan.turns_act (if_pos hfits))
  | .group children line, hn, hpassed, e, stack => by
    unfold ManipulationNode.plan at hpassed ⊢
    exact replays_group h children (typedWalk_rooted.mp hn).2 hpassed e stack

/-- So does that of a group: each child but the last one gets a copy, the last one the value. -/
theorem replays_group (h : Sound env types stored Serves) :
    ∀ children : List (ManipulationNode Empty),
    TypedWalk types c.contextLocal (groupWalk children) → (groupPlan env children).Passed c →
    ∀ e stack, (groupPlan env children).Turns env stored c (e :: stack) stack
  | [], _, _, e, stack => by
    unfold groupPlan
    exact Plan.turns_act rfl
  | [child], hwalk, hpassed, e, stack => by
    unfold groupPlan at hpassed ⊢
    have hchild := (typedWalk_append.mp hwalk).1
    have hturns := replays_manipulation h child hchild (Plan.passed_scoped.mp hpassed) e stack
    exact hturns.scoped _
  | child :: next :: children, hwalk, hpassed, e, stack => by
    obtain ⟨hchild, hchildren⟩ := typedWalk_append.mp hwalk
    unfold groupPlan at hpassed ⊢
    obtain ⟨hfirst, hrest⟩ := Plan.passed_seq.mp (Plan.passed_seq.mp hpassed).2
    have hturns := replays_manipulation h child hchild (Plan.passed_scoped.mp hfirst) e (e :: stack)
    exact .seq (Plan.turns_act rfl)
      ((hturns.scoped _).seq (replays_group h (next :: children) hchildren hrest e stack))

end

end Trees

/-! ### Trees that were lowered -/

/-- The compiler local that is accessed. -/
def Access.temp? : Access → Option CompilerLocal
  | .load l _ | .store l => some l
  | .context _ => none

/-- Compiler locals of one number are one local, and have one type. Contexts know locals by their
numbers, and would take two of one number for one. -/
def OneType (log : List Access) : Prop :=
  ∀ a ∈ log, ∀ b ∈ log, ∀ l l', a.temp? = some l → b.temp? = some l' → l.id = l'.id →
    l.type = l'.type

/-- One access knows one local at most. -/
theorem oneType_singleton (a : Access) : OneType [a] := by
  intro b hb b' hb' l l' hl hl' _
  obtain rfl := List.mem_singleton.mp hb
  obtain rfl := List.mem_singleton.mp hb'
  rw [Option.some.inj (hl.symm.trans hl')]

/-- A local has a slot because it was stored. -/
theorem store_mem_of_allotted {log : List Access} {l : CompilerLocal} (h : l ∈ allotted log) :
    .store l ∈ log := by
  -- the same of a fold that starts with any locals
  suffices hall : ∀ locals, l ∈ log.foldl allot locals → l ∈ locals ∨ .store l ∈ log from
    (hall [] h).resolve_left nofun
  clear h
  induction log with
  | nil => exact fun _ => Or.inl
  | cons a log ih =>
    intro locals h
    rcases ih _ h with hlocals | hlog
    · cases a with
      | load | context => exact Or.inl hlocals
      | store l' =>
        rw [allot] at hlocals
        split at hlocals
        · exact Or.inl hlocals
        · rcases List.mem_append.mp hlocals with hold | hnew
          · exact Or.inl hold
          · obtain rfl := List.mem_singleton.mp hnew
            exact Or.inr List.mem_cons_self
    · exact Or.inr (List.mem_cons_of_mem _ hlog)

/-- The slot of a local has the type of the local. The slot was defined by the first store to a
local of this number, and that is this local. -/
theorem Accounts.slot_type {log : List Access} {s : LowerState Empty} (h : Accounts log s)
    (hone : OneType log) {a : Access} (ha : a ∈ log) {l : CompilerLocal} (hl : a.temp? = some l)
    {slot : Slot} (hslot : s.context.slot? l = some slot) : slot.type = l.type := by
  have htypes := h.slots l
  rw [hslot, Option.map_some, eq_comm, Option.map_eq_some_iff] at htypes
  obtain ⟨l', hfind, htype⟩ := htypes
  have hid : l'.id = l.id := by simpa using List.find?_some hfind
  rw [← htype]
  exact hone _ (store_mem_of_allotted (List.mem_of_find?_eq_some hfind)) a ha l' l rfl hl hid

/-- Steps that were carried out to the end have no breach among them. -/
theorem Carries.not_refuse {steps : List Step} {s s' : LowerState Empty} (h : Carries s steps s')
    (n : Node Empty) (b : Breach) : .refuse n b ∉ steps := by
  induction h with
  | nil => exact nofun
  | enter _ _ ih | act _ _ ih => simpa using ih
  | silent _ _ ih => exact ih

/-- Steps that were carried out have the slots that they use. What is said here is of the context at
the end, as slots stay what they are once they are defined. -/
theorem Carries.passed {steps : List Step} {log : List Access} {s s' : LowerState Empty}
    (h : Carries s steps s') (haccounts : Accounts log s)
    (hone : OneType (log ++ steps.filterMap Step.access?)) :
    ∀ step ∈ steps, step.Passed s'.context := by
  intro step hstep
  have hadvances := h.advances haccounts
  obtain ⟨new, -, happended⟩ := hadvances.code
  have hdone : ∀ {x : Access}, step.access? = some x → x ∈ steps.filterMap Step.access? :=
    fun hx => List.mem_filterMap.mpr ⟨step, hstep, hx⟩
  have htype : ∀ {x : Access} {l : CompilerLocal} {slot : Slot}, step.access? = some x →
      x.temp? = some l → s'.context.slot? l = some slot → slot.type = l.type :=
    fun hx hl => hadvances.accounts.slot_type hone (List.mem_append_right _ (hdone hx)) hl
  cases step with
  | enter n => exact trivial
  | refuse n b => exact h.not_refuse n b hstep
  | act a =>
    cases a with
    | load l | store l =>
      obtain ⟨use, huse⟩ := Access.instruction_of_map happended (hdone rfl)
      obtain ⟨slot, hslot, -⟩ := Option.map_eq_some_iff.mp huse
      exact ⟨slot, hslot, htype rfl rfl hslot⟩
    | context line =>
      obtain ⟨use, huse⟩ := Access.instruction_of_map happended (hdone rfl)
      obtain ⟨slot, hslot, -⟩ := Option.map_eq_some_iff.mp huse
      exact ⟨slot, hslot⟩
    | _ => exact trivial

/-- The instructions of a step. -/
def Step.code (c : Context Empty) : Step → List (Opcode × Operand)
  | .act a => a.code c
  | _ => []

/-- The instructions of an act are the same in any later context: it uses slots that are there when
it is done, and these stay. -/
theorem Act.Done.code_stable {a : Act} {s s₁ s' : LowerState Empty} {log done : List Access}
    (h : a.Done s s₁) (hadvances : Advances log done s₁ s') :
    a.code s'.context = a.code s₁.context := by
  cases h.alters with
  | load hl hkeeps | store hl hkeeps =>
    rw [Act.code, Act.code, hkeeps.slot?, hl, hadvances.stable _ _ ((hkeeps.slot? _).trans hl)]
  | allot hallots =>
    have hself := hallots.slot?_self rfl
    rw [Act.code, Act.code, hself, hadvances.stable _ _ hself]
  | context hl hkeeps => rw [Act.code, Act.code, hadvances.contextLocal]
  | other hslot hkeeps => cases a <;> first | rfl | cases hslot

/-- Steps that were carried out appended their instructions, and nothing else was appended. The
instructions can all be read off the context at the end (`Act.Done.code_stable`). -/
theorem Carries.script {steps : List Step} {log : List Access} {s s' : LowerState Empty}
    (h : Carries s steps s') (haccounts : Accounts log s) :
    ∃ rs, Request.script rs s.emission = .ok () s'.emission ∧
      emitted rs = steps.flatMap (Step.code s'.context) := by
  induction h generalizing log with
  | nil s => exact ⟨[], rfl, rfl⟩
  | enter n _ ih => exact ih (haccounts.enter n).accounts
  | act ha hrest ih =>
    have hdone := Act.perform_inv ha
    have haccounts₁ := (hdone.advances haccounts).accounts
    obtain ⟨rs, hrs, hcode⟩ := hdone.script
    obtain ⟨rs', hrs', hcode'⟩ := ih haccounts₁
    refine ⟨rs ++ rs', Request.script_append hrs hrs', ?_⟩
    rw [emitted_append, hcode, hcode', List.flatMap_cons, Step.code,
      hdone.code_stable (hrest.advances haccounts₁)]
  | silent hsilent _ ih =>
    obtain ⟨rs, hrs, hnone⟩ := hsilent.script
    obtain ⟨rs', hrs', hcode'⟩ := ih (haccounts.silent hsilent).accounts
    refine ⟨rs ++ rs', Request.script_append hrs hrs', ?_⟩
    rw [emitted_append, hnone, hcode']
    rfl

/-! ### The main statement -/

/-- The type that a value from a tree is expected to have. -/
def Node.receiver? (expected : Option TypeRef) : Node Empty → Option TypeRef
  | .value n => some (expected.getD n.valueType)
  | _ => none

/-- Replaying a tree takes and leaves the values of the tree, in the expected form. -/
theorem replays_node {env : Environment} {types : List TypeRef} {stored : TypeRef → Entry → Entry}
    {Serves : TypeRef → Entry → Prop} (h : Sound env types stored Serves) {c : Context Empty}
    (n : Node Empty) (hn : TypedWalk types c.contextLocal n.occurrences) {expected : Option TypeRef}
    (hexpected : ∀ t, expected = some t → t ∈ types) (hpassed : (n.plan env expected).Passed c)
    (ambient rest : List Entry) (hambient : ambient.length = n.takes) :
    ∃ results, results.length = n.leaves ∧
      (n.plan env expected).Turns env stored c (ambient ++ rest) (results ++ rest) ∧
      ∀ t, n.receiver? expected = some t → ∀ e ∈ results, e.fits env.hierarchy t = true := by
  cases n with
  | value n =>
    obtain rfl := List.eq_nil_of_length_eq_zero hambient
    obtain ⟨hreported, hvalueType⟩ := n.types_mem hn
    have hreceiver : expected.getD n.valueType ∈ types := by
      cases expected with
      | none => exact hvalueType
      | some t => exact hexpected t rfl
    obtain ⟨e, -, -, hfits, hturns⟩ := replays_deliver h hreceiver hreported hpassed
      (replays_value h n hn) rest
    refine ⟨[_], rfl, hturns, fun t ht e' he' => ?_⟩
    obtain rfl := List.mem_singleton.mp he'
    cases ht
    exact hfits
  | imperative n =>
    obtain rfl := List.eq_nil_of_length_eq_zero hambient
    have hturns := replays_imperative h n hn (Plan.passed_scoped.mp hpassed) rest
    exact ⟨[], rfl, hturns.scoped _, nofun⟩
  | manipulation n =>
    obtain ⟨e, rfl⟩ := List.length_eq_one_iff.mp hambient
    have hturns := replays_manipulation h n hn (Plan.passed_scoped.mp hpassed) e rest
    exact ⟨[], rfl, hturns.scoped _, nofun⟩

/-- Values are delivered in the form that is expected. Where types agree about kinds and a tree is
lowered, its instructions replay on every stack that has the values that it takes: whatever is
passed to a constructor or a setter, stored in a local or converted is assignable to the declared
type and unboxed exactly if that is a value type, only unboxed values of the right type are boxed,
and only references are converted. A boxed value that was stored in a local counts as what it was
stored as, or, where assignability is transitive, as what it is. -/
theorem lower_delivers_values {log : List Access} {s s' : LowerState Empty} {env : Environment}
    {types : List TypeRef} {n : Node Empty} {expected : Option TypeRef} {effect : StackEffect}
    (h : Emissions log s) (htypes : Representable env types)
    (hn : TypedWalk types s.context.contextLocal n.occurrences)
    (hexpected : ∀ t, expected = some t → t ∈ types) (hone : OneType (log ++ n.accesses))
    (hlower : n.lower env expected s = .ok effect s') :
    (∃ rs, Request.script rs s.emission = .ok () s'.emission ∧
      s.emission.emitter.Appends (emitted rs) s'.emission.emitter ∧
      emitted rs = (n.plan env expected).steps.flatMap (Step.code s'.context)) ∧
    ∀ stored, (stored = Entry.retype ∨
        stored = Entry.keep ∧ env.hierarchy.TransitiveOn types) →
      ∀ ambient rest : List Entry, ambient.length = n.takes → ∃ results, results.length = n.leaves ∧
        replay env stored s'.context (n.plan env expected).steps (ambient ++ rest) =
          some (results ++ rest) ∧
        ∀ t, n.receiver? expected = some t → ∀ e ∈ results, e.fits env.hierarchy t = true := by
  have haccounts := h.accounts
  have htakes := n.takes_lower env expected s
  rw [hlower] at htakes
  have hpassed : (n.plan env expected).Passed s'.context := by
    rw [← (n.covers_plan env expected).order] at hone
    exact Carries.passed htakes haccounts hone
  obtain ⟨hadvances, -⟩ := haccounts.lower_ok hlower
  rw [← hadvances.contextLocal] at hn
  obtain ⟨rs, hrs, hcode⟩ := Carries.script htakes haccounts
  obtain ⟨happends, -⟩ := Request.appends_of_script haccounts.limit hrs
  refine ⟨⟨rs, hrs, happends, hcode⟩, ?_⟩
  rintro stored (rfl | ⟨rfl, htrans⟩)
  · exact replays_node htypes.retype n hn hexpected hpassed
  · exact replays_node (htypes.keep htrans) n hn hexpected hpassed

/-! ### A root with an interface -/

/-- A type that derives from no other. -/
def plainType (name : String) (kind : TypeKind) (isRoot : Bool) (id : Nat) : TypeRef :=
  .named (.ofString name) kind (.assembly "Lib") isRoot none none id

def rootType : TypeRef := plainType "Object" .classType true 0
def markerType : TypeRef := plainType "Marker" .interfaceType false 1
def pointType : TypeRef := plainType "Point" .valueType false 2
def widgetType : TypeRef := plainType "Widget" .classType false 3

def markedTypes : List TypeRef := [rootType, markerType, pointType, widgetType]

/-- Only the root has an interface. Points go where the root is declared, but do not have it. -/
def markedEnvironment (object : TypeRef) : Environment :=
  ⟨⟨#[[markerType], [], [], []]⟩, { core := { (default : CoreTypes) with object := object } }⟩

/-- A local for objects. -/
def objectLocal : CompilerLocal := ⟨0, rootType, none⟩

/-- A new point. -/
def newPoint : ValueNode Empty := .newObject ⟨pointType, [], false, none⟩ [] default

/-- Stores a point as an object, and passes it on as a marker. -/
def marksPoint : Node Empty :=
  .value <| .newObject ⟨widgetType, [markerType], false, none⟩
    [.localInit objectLocal newPoint default] default

/-- Converts a point. -/
def castsPoint : Node Empty := .value (.cast newPoint widgetType default)

theorem soundTypes_marked : SoundTypes markedTypes where
  sameKind := by decide +kernel
  bases := by
    simp [markedTypes, rootType, markerType, pointType, widgetType, plainType, TypeRef.bases]
  references := by
    simp [markedTypes, rootType, markerType, pointType, widgetType, plainType, TypeRef.bases]
  root := by decide +kernel

theorem representable_marked : Representable (markedEnvironment rootType) markedTypes :=
  ⟨soundTypes_marked, List.mem_cons_self, rfl⟩

theorem typedWalk_marksPoint : TypedWalk markedTypes none marksPoint.occurrences := by
  simp [TypedWalk, marksPoint, newPoint, Node.occurrences, Node.descendants, rooted,
    ValueNode.descendants, argumentsWalk, Occurrence.under, Node.Typed, markedTypes, objectLocal]

theorem typedWalk_castsPoint : TypedWalk markedTypes none castsPoint.occurrences := by
  simp [TypedWalk, castsPoint, newPoint, Node.occurrences, Node.descendants, rooted,
    ValueNode.descendants, argumentsWalk, Occurrence.under, Node.Typed, markedTypes]

theorem oneType_marksPoint : OneType ([] ++ marksPoint.accesses) :=
  oneType_singleton (.store objectLocal)

theorem lower_marksPoint : ∃ effect,
    marksPoint.lower (markedEnvironment rootType) none newState =
      .ok effect (Result.state (marksPoint.lower (markedEnvironment rootType) none newState)) :=
  Result.eq_ok (by decide +kernel)

/-- The instructions store a point, and pass on what was stored. -/
theorem lower_delivers_values_marksPoint :
    ∃ effect s', marksPoint.lower (markedEnvironment rootType) none newState = .ok effect s' ∧
      ∀ rest, ∃ e, e.fits (markedEnvironment rootType).hierarchy widgetType = true ∧
        replay (markedEnvironment rootType) Entry.retype s'.context
          (marksPoint.plan (markedEnvironment rootType) none).steps rest = some (e :: rest) := by
  obtain ⟨effect, hlower⟩ := lower_marksPoint
  obtain ⟨-, hreplay⟩ := lower_delivers_values (.start emitter_oneMethod .start rfl)
    representable_marked typedWalk_marksPoint (fun _ h => by cases h) oneType_marksPoint hlower
  refine ⟨effect, _, hlower, fun rest => ?_⟩
  obtain ⟨results, hlength, hreplay, hfits⟩ := hreplay Entry.retype (Or.inl rfl) [] rest rfl
  obtain ⟨e, rfl⟩ := List.length_eq_one_iff.mp hlength
  exact ⟨e, hfits widgetType rfl e List.mem_cons_self, hreplay⟩

/-- With its own type, a point that was stored as an object is not accepted where the object is.
And where values count as objects, a point that is to be converted is none. -/
theorem own_type_not_always_accepted :
    SoundTypes markedTypes ∧
      (Emissions [] newState ∧ OneType ([] ++ marksPoint.accesses) ∧
        TypedWalk markedTypes newState.context.contextLocal marksPoint.occurrences ∧
        ∃ effect s', marksPoint.lower (markedEnvironment rootType) none newState = .ok effect s' ∧
          replay (markedEnvironment rootType) Entry.keep s'.context
            (marksPoint.plan (markedEnvironment rootType) none).steps [] = none) ∧
      TypedWalk markedTypes newState.context.contextLocal castsPoint.occurrences ∧
        ∃ effect s', castsPoint.lower (markedEnvironment pointType) none newState = .ok effect s' ∧
          replay (markedEnvironment pointType) Entry.keep s'.context
            (castsPoint.plan (markedEnvironment pointType) none).steps [] = none := by
  have hnew : Emissions [] newState := .start emitter_oneMethod .start rfl
  obtain ⟨effect, hlower⟩ := lower_marksPoint
  obtain ⟨effect', hlower'⟩ := Result.eq_ok
    (r := castsPoint.lower (markedEnvironment pointType) none newState) (by decide +kernel)
  refine ⟨soundTypes_marked,
    ⟨hnew, oneType_marksPoint, typedWalk_marksPoint, effect, _, hlower, ?_⟩,
    typedWalk_castsPoint, effect', _, hlower', ?_⟩
  · exact Option.isNone_iff_eq_none.mp (by decide +kernel)
  · exact Option.isNone_iff_eq_none.mp (by decide +kernel)

end MarkupLowering
