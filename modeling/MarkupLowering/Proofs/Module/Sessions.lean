import MarkupLowering.Proofs.Module.Events

/-!
# MarkupLowering.Proofs.Module.Sessions

**Sessions of work on one module.** Any number of builders and emitters are at work on a module at
the same time; several emitters may write bodies for one method. A `Session` is what they share,
and an `Action` is what one of them does next.

* `Action.perform` does one thing, or refuses it. A refused action leaves no trace
  (`refused_without_trace`), except that a body in the making is gone when it cannot be finished.
* `History s₀ log s` is a course of actions from `s₀` to `s`, granted or refused, in any order.
  Only builders that were returned, copies of them included, and only emitters that are open take
  part (`Session.Permits`).
* `BuildRequest.Granted` says once what a builder does when it does what it is asked.
-/

namespace MarkupLowering

/-! ### Handles that builders return -/

/-- What a builder returns. -/
inductive Handle
  | type (b : TypeBuilder)
  | field (f : FieldRef)
  | method (m : MethodRef)
  | property (p : PropertyRef)
  | constructor (c : ConstructorRef)

namespace BuildRequest

/-- The builder that is asked. Types that are nested in no other are asked of the module. -/
def builder? : BuildRequest → Option TypeBuilder
  | .type .. => none
  | .nested b .. | .complete b | .field b .. | .method b _ | .property b .. | .constructor b ..
  | .implement b _ => some b

/-- Does what is asked, or fails, and returns the handle of what was defined. -/
def grant : BuildRequest → BuildM (Option Handle)
  | .type namespaceName name base attributes visibility => do
    return some (.type (← Construction.defineType namespaceName name base attributes visibility))
  | .nested b base name isPublic => do
    return some (.type (← b.defineNested base name isPublic))
  | .complete b => do
    return some (.type ⟨b.row, ← b.complete⟩)
  | .field b t name isPublic isStatic => do
    return some (.field (← b.defineField t name isPublic isStatic))
  | .method b d => do
    return some (.method (← b.defineMethod d))
  | .property b t name setter getter => do
    return some (.property (← b.defineProperty t name setter getter))
  | .constructor b isStatic params => do
    return some (.constructor (← b.defineConstructor isStatic params))
  | .implement b i => do
    b.implement i
    return none

/-- To perform a request is to disregard the handle. -/
theorem perform_eq_grant (r : BuildRequest) : r.perform = (do let _ ← r.grant) := by
  cases r <;> simp [perform, grant]

theorem atomic_grant (r : BuildRequest) : Atomic r.grant := by
  intro s err s' h
  refine (TakesUp.perform s.module.core r).atomic s err s' ?_
  rw [perform_eq_grant]
  simp only [Bind.bind, EStateM.bind, h]

end BuildRequest

/-! ### Sessions -/

/-- Work on one module. -/
structure Session where
  hierarchy : Hierarchy
  module : Module
  /-- The handles that the module and its builders have returned. -/
  handles : List Handle := []
  /-- The open emitters, by the names that they are called by. -/
  emitters : Nat → Option Emitter := fun _ => none

/-- What can be done next. -/
inductive Action
  /-- A builder is asked for something. -/
  | build (r : BuildRequest)
  /-- An emitter for the body of a method or constructor is asked for, under a name. -/
  | openEmitter (k : Nat) (owner : BodyOwner)
  /-- An emitter is asked for something. -/
  | request (k : Nat) (r : Request)
  /-- An emitter finishes its body, and is gone. -/
  | finish (k : Nat)
  /-- An emitter is abandoned. -/
  | drop (k : Nat)
  /-- Something is imported into the module. -/
  | importing (i : Import)
  /-- The document of a file is asked for. -/
  | document (file : SourceFile)
  /-- A type is made elsewhere. -/
  | allot (interfaces : List TypeRef)
  /-- An interface is added to a type, by whoever has a handle to it. -/
  | addInterface (t i : TypeRef)

namespace Session

/-- A session with a module that is new. Types may exist already. -/
def start (h : Hierarchy) (id : Nat) (name : String) (core : CoreTypes) : Session :=
  { hierarchy := h, module := .new id name core }

/-- Gives a name to an emitter, or takes it away. -/
def setEmitter (s : Session) (k : Nat) (e : Option Emitter) : Session :=
  { s with emitters := fun j => if j = k then e else s.emitters j }

@[simp] theorem setEmitter_module (s : Session) (k : Nat) (e : Option Emitter) :
    (s.setEmitter k e).module = s.module := rfl

@[simp] theorem setEmitter_hierarchy (s : Session) (k : Nat) (e : Option Emitter) :
    (s.setEmitter k e).hierarchy = s.hierarchy := rfl

@[simp] theorem setEmitter_handles (s : Session) (k : Nat) (e : Option Emitter) :
    (s.setEmitter k e).handles = s.handles := rfl

theorem setEmitter_emitters (s : Session) (k : Nat) (e : Option Emitter) (j : Nat) :
    (s.setEmitter k e).emitters j = if j = k then e else s.emitters j := rfl

theorem setEmitter_self {s : Session} {k : Nat} {e : Option Emitter} (h : s.emitters k = e) :
    s.setEmitter k e = s := by
  have hsame : (fun j => if j = k then e else s.emitters j) = s.emitters := by
    funext j
    split
    · rename_i hj
      rw [hj, h]
    · rfl
  rw [setEmitter, hsame]

/-- A builder does what it is asked, and what it returns is on record. -/
def building (r : BuildRequest) : EStateM EmitError Session Unit := fun s =>
  match r.grant ⟨s.hierarchy, s.module⟩ with
  | .ok handle c =>
    .ok () { s with hierarchy := c.hierarchy, module := c.module
                    handles := s.handles ++ handle.toList }
  | .error err c => .error err { s with hierarchy := c.hierarchy, module := c.module }

/-- Opens an emitter. One that had the name before is abandoned. -/
def opening (k : Nat) (owner : BodyOwner) : EStateM EmitError Session Unit := fun s =>
  match s.module.emitter owner with
  | .ok e => .ok () (s.setEmitter k (some e))
  | .error err => .error err s

/-- An emitter does what it is asked. -/
def requesting (k : Nat) (r : Request) : EStateM EmitError Session Unit := fun s =>
  match s.emitters k with
  | none => .ok () s
  | some e =>
    match r.perform ⟨s.module, e⟩ with
    | .ok _ t => .ok () ({ s with module := t.module }.setEmitter k (some t.emitter))
    | .error err t => .error err ({ s with module := t.module }.setEmitter k (some t.emitter))

/-- An emitter finishes its body. -/
def finishing (k : Nat) : EStateM EmitError Session Unit := fun s =>
  match s.emitters k with
  | none => .ok () s
  | some e =>
    match e.finish s.module with
    | .ok _ m => .ok () ({ s with module := m }.setEmitter k none)
    | .error err m => .error err ({ s with module := m }.setEmitter k none)

end Session

/-- Does one thing, or fails. -/
def Action.perform : Action → EStateM EmitError Session Unit
  | .build r => Session.building r
  | .openEmitter k owner => Session.opening k owner
  | .request k r => Session.requesting k r
  | .finish k => Session.finishing k
  | .drop k => modify (·.setEmitter k none)
  | .importing i => modify fun s => { s with module := (s.module.importing i.perform).2 }
  | .document file => modify fun s => { s with module := (s.module.document file).2 }
  | .allot interfaces => modify fun s => { s with hierarchy := s.hierarchy.allot interfaces }
  | .addInterface t i => modify fun s => { s with hierarchy := s.hierarchy.addInterface t i }

/-! ### Refused actions -/

namespace Session

theorem atomic_building (r : BuildRequest) : Atomic (building r) := by
  intro s err s' h
  unfold building at h
  split at h
  · cases h
  · rename_i c hc
    injection h with _ hs
    rw [r.atomic_grant _ _ _ hc] at hs
    exact hs.symm

theorem atomic_opening (k : Nat) (owner : BodyOwner) : Atomic (opening k owner) := by
  intro s err s' h
  unfold opening at h
  split at h
  · cases h
  · injection h with _ hs
    exact hs.symm

theorem atomic_requesting (k : Nat) (r : Request) : Atomic (requesting k r) := by
  intro s err s' h
  unfold requesting at h
  split at h
  · cases h
  · rename_i e he
    split at h
    · cases h
    · rename_i t ht
      injection h with _ hs
      rw [r.atomic_perform _ _ _ ht] at hs
      rw [← hs]
      exact setEmitter_self he

end Session

/-- A body that cannot be finished leaves the module as it was. -/
theorem Emitter.atomic_finish (e : Emitter) : Atomic e.finish := by
  intro m err m' h
  unfold finish at h
  split at h
  · cases h
    rfl
  · split at h
    · cases h
      rfl
    · cases h

/-- A body that cannot be finished is gone. -/
theorem Session.finishing_error {k : Nat} {s s' : Session} {err : EmitError}
    (h : finishing k s = .error err s') : s' = s.setEmitter k none := by
  unfold finishing at h
  split at h
  · cases h
  · rename_i e he
    split at h
    · cases h
    · rename_i m hm
      injection h with _ hs
      rw [e.atomic_finish _ _ _ hm] at hs
      exact hs.symm

/-- A refused action leaves everything as it was, or it was the last of an emitter. -/
theorem Action.perform_error {a : Action} {s s' : Session} {err : EmitError}
    (h : a.perform s = .error err s') :
    s' = s ∨ ∃ k, a = .finish k ∧ s' = s.setEmitter k none := by
  cases a with
  | build r => exact Or.inl (Session.atomic_building r _ _ _ h)
  | openEmitter k owner => exact Or.inl (Session.atomic_opening k owner _ _ _ h)
  | request k r => exact Or.inl (Session.atomic_requesting k r _ _ _ h)
  | finish k => exact Or.inr ⟨k, rfl, Session.finishing_error h⟩
  | drop k => cases h
  | importing i => cases h
  | document file => cases h
  | allot interfaces => cases h
  | addInterface t i => cases h

/-- A refused action leaves no trace. Whatever is asked of the module, of its builders or of its
emitters, when it fails: the tables of the module, its imports and documents, the interface lists
of all types and the handles on record are as they were, and so are all emitters, but for one that
failed to finish its body, which is gone. -/
theorem refused_without_trace {a : Action} {s s' : Session} {err : EmitError}
    (h : a.perform s = .error err s') :
    s'.module = s.module ∧ s'.hierarchy = s.hierarchy ∧ s'.handles = s.handles ∧
      (∀ k, a ≠ .finish k → s'.emitters k = s.emitters k) ∧
      ∀ k, a = .finish k → s'.emitters k = none := by
  rcases Action.perform_error h with rfl | ⟨k, rfl, rfl⟩
  · refine ⟨rfl, rfl, rfl, fun _ _ => rfl, fun k hk => ?_⟩
    subst hk
    have hgone := congrFun (congrArg Session.emitters (Session.finishing_error h)) k
    rwa [Session.setEmitter_emitters, if_pos rfl] at hgone
  · refine ⟨rfl, rfl, rfl, fun j hj => ?_, fun j hj => ?_⟩
    · rw [Session.setEmitter_emitters, if_neg]
      rintro rfl
      exact hj rfl
    · cases hj
      rw [Session.setEmitter_emitters, if_pos rfl]

/-- Two bodies of one method are in the making. -/
def twoEmitters : Session where
  hierarchy := .empty
  module := oneMethod
  emitters k := if k < 2 then some onlyEmitter else none

/-- A number that does not fit the opcode is refused, and both bodies stay as they were. -/
theorem refused_without_trace_shortForm :
    ∃ s', (Action.request 0 (.emit .ldcI4S (.int 1000))).perform twoEmitters =
        .error (.shortFormOutOfRange .ldcI4S 1000) s' ∧
      s'.module = oneMethod ∧ s'.hierarchy = .empty ∧
      s'.emitters 0 = some onlyEmitter ∧ s'.emitters 1 = some onlyEmitter := by
  have h : (Action.request 0 (.emit .ldcI4S (.int 1000))).perform twoEmitters =
      .error (.shortFormOutOfRange .ldcI4S 1000)
        (twoEmitters.setEmitter 0 (some onlyEmitter)) := rfl
  obtain ⟨hmodule, hhierarchy, -, hemitters, -⟩ := refused_without_trace h
  exact ⟨_, h, hmodule, hhierarchy, hemitters 0 nofun, hemitters 1 nofun⟩

/-! ### Histories -/

/-- The session after an action, granted or refused. -/
def Session.after (s : Session) (a : Action) : Session := Result.state (a.perform s)

/-- Builders are those that were returned, and emitters those that are open. -/
def Session.Permits (s : Session) : Action → Prop
  | .build r => ∀ b, r.builder? = some b → .type b ∈ s.handles
  | .request k _ | .finish k | .drop k => (s.emitters k).isSome
  | _ => True

/-- An action and the session in which it was done. -/
structure Turn where
  session : Session
  action : Action

/-- A course of actions in any order, from the session `s₀`. -/
inductive History (s₀ : Session) : List Turn → Session → Prop
  | start : History s₀ [] s₀
  | turn {log : List Turn} {s : Session} (a : Action) : History s₀ log s → s.Permits a →
      History s₀ (log ++ [⟨s, a⟩]) (s.after a)

namespace History

variable {s₀ s s' : Session} {log log' : List Turn}

theorem trans (h : History s₀ log s) (h' : History s log' s') : History s₀ (log ++ log') s' := by
  induction h' with
  | start =>
    rw [List.append_nil]
    exact h
  | turn a _ ha ih =>
    rw [← List.append_assoc]
    exact .turn a ih ha

end History

/-! ### What builders do -/

/-- The handle to a field, by the row, the type that declares it and its place. -/
def FieldRow.ref (row : FieldRow) (declaring : TypeRef) (d : Definition) : FieldRef :=
  { declaring, name := .ofString row.name, type := row.type, attributes := row.attributes
    definition := some d }

/-- The handle to a method. -/
def MethodRow.ref (row : MethodRow) (declaring : TypeRef) (d : Definition) : MethodRef :=
  { declaring, name := .ofString row.name, returns := row.returns, params := row.params
    attributes := row.attributes, definition := some d }

/-- The handle to a constructor. -/
def MethodRow.constructorRef (row : MethodRow) (declaring : TypeRef) (d : Definition) :
    ConstructorRef :=
  { declaring, params := row.params, isStatic := row.isStatic, definition := some d }

/-- The handle to a property. -/
def PropertyRow.ref (row : PropertyRow) (declaring : TypeRef) (d : Definition) : PropertyRef :=
  { declaring, name := .ofString row.name, type := row.type, getter := row.getter
    setter := row.setter, definition := some d }

/-- What a builder does when it grants a request: a row is added to the module and the handle of
the row is returned, or the row of the builder's type is changed. -/
inductive BuildRequest.Granted (r : BuildRequest) (s : Construction) :
    Option Handle → Construction → Prop
  | type {namespaceName name : String} {base : Option TypeRef} {attributes : TypeAttributes}
      {visibility : Visibility} {b : TypeBuilder} {s' : Construction} :
      visibility.isNested = r.builder?.isSome →
      Construction.addType namespaceName name base attributes visibility r.builder? s = .ok b s' →
      r.Granted s (some (.type b)) s'
  | complete {b : TypeBuilder} : r.builder? = some b →
      r.Granted s (some (.type b))
        { s with module := s.module.modifyType b.row fun row => { row with created := true } }
  | field {b : TypeBuilder} (row : FieldRow) : r.builder? = some b → row.declaring = b.row →
      r.Granted s (some (.field (row.ref b.type ⟨s.module.id, s.module.fields.size⟩)))
        { s with module := (s.module.addField row).2 }
  | method {b : TypeBuilder} (row : MethodRow) : r.builder? = some b → row.declaring = b.row →
      row.body = none → row.isConstructor = false →
      r.Granted s (some (.method (row.ref b.type ⟨s.module.id, s.module.methods.size⟩)))
        { s with module := (s.module.addMethod row).2 }
  | constructor {b : TypeBuilder} (row : MethodRow) : r.builder? = some b →
      row.declaring = b.row → row.body = none → row.isConstructor = true →
      row.name = ConstructorRef.nameOf row.isStatic → row.returns = s.module.core.void →
      r.Granted s
        (some (.constructor (row.constructorRef b.type ⟨s.module.id, s.module.methods.size⟩)))
        { s with module := (s.module.addMethod row).2 }
  | property {b : TypeBuilder} (row : PropertyRow) : r.builder? = some b →
      row.declaring = b.row →
      r.Granted s (some (.property (row.ref b.type ⟨s.module.id, s.module.properties.size⟩)))
        { s with module := (s.module.addProperty row).2 }
  | implement {b : TypeBuilder} (i : TypeRef) : r.builder? = some b → i.isInterface = true →
      r.Granted s none ⟨s.hierarchy.addInterface b.type i, s.module.addInterface b.row i⟩

theorem isStatic_constructorAttributes (isStatic : Bool) :
    (constructorAttributes isStatic).contains .staticMember = isStatic := by
  cases isStatic <;> decide

namespace BuildRequest

open Construction TypeBuilder

/-- A check that was passed changed nothing. -/
theorem check_inv {α : Type} {step : BuildM Unit} (hstep : Checks step) {next : Unit → BuildM α}
    {s s' : Construction} {a : α} (h : (step >>= next) s = .ok a s') : next () s = .ok a s' := by
  obtain ⟨_, s₁, hs₁, hs'⟩ := bind_inv h
  rwa [hstep.same s _ s₁ hs₁] at hs'

/-- A member that is defined takes the next row, and its handle is made from the row. -/
theorem defined_inv {α : Type} {f : Module → Nat × Module} {handle : Nat → Option Definition → α}
    {s s' : Construction} {a : α}
    (h : (do
      let row ← Construction.onModule f
      return handle row (← TypeBuilder.definitionAt row) : BuildM α) s = .ok a s') :
    a = handle (f s.module).1 (some ⟨(f s.module).2.id, (f s.module).1⟩) ∧
      s' = { s with module := (f s.module).2 } := by
  cases h
  exact ⟨rfl, rfl⟩

/-- What a builder request that succeeds did. The bodies of the builders are gone through here and
nowhere else: callers go by the cases of `Granted`. -/
theorem granted_of_grant {r : BuildRequest} {s s' : Construction} {g : Option Handle}
    (h : r.grant s = .ok g s') : r.Granted s g s' := by
  unfold grant at h
  cases r with
  | type namespaceName name base attributes visibility =>
    obtain ⟨b, s₁, hb, hp⟩ := bind_inv h
    obtain ⟨rfl, rfl⟩ := pure_inv hp
    unfold Construction.defineType at hb
    split at hb
    · cases hb
    · rename_i hnested
      exact .type (by simpa [builder?] using hnested) hb
  | nested b base name isPublic =>
    obtain ⟨b', s₁, hb, hp⟩ := bind_inv h
    obtain ⟨rfl, rfl⟩ := pure_inv hp
    refine .type ?_ hb
    cases isPublic <;> rfl
  | complete b =>
    cases h
    exact .complete rfl
  | field b t name isPublic isStatic =>
    obtain ⟨f, s₁, hf, hp⟩ := bind_inv h
    obtain ⟨rfl, rfl⟩ := pure_inv hp
    obtain ⟨rfl, rfl⟩ := defined_inv (check_inv (checks_name b _ name) hf)
    exact .field ⟨b.row, name, t, fieldAttributes isPublic isStatic⟩ rfl rfl
  | method b d =>
    obtain ⟨f, s₁, hf, hp⟩ := bind_inv h
    obtain ⟨rfl, rfl⟩ := pure_inv hp
    obtain ⟨rfl, rfl⟩ := defined_inv (check_inv (checks_name b _ d.name) hf)
    exact .method
      ⟨b.row, d.name, d.returns, d.params, d.attributes, d.overrides.toList, false, none⟩
      rfl rfl rfl rfl
  | property b t name setter getter =>
    obtain ⟨f, s₁, hf, hp⟩ := bind_inv h
    obtain ⟨rfl, rfl⟩ := pure_inv hp
    have hf := check_inv (checks_name b _ name) hf
    have hf := check_inv (checks_accessor b name setter) hf
    obtain ⟨rfl, rfl⟩ := defined_inv (check_inv (checks_accessor b name getter) hf)
    exact .property ⟨b.row, name, t, getter, setter⟩ rfl rfl
  | constructor b isStatic params =>
    obtain ⟨f, s₁, hf, hp⟩ := bind_inv h
    obtain ⟨rfl, rfl⟩ := pure_inv hp
    unfold TypeBuilder.defineConstructor at hf
    split at hf
    · cases hf
    · obtain ⟨rfl, rfl⟩ := defined_inv hf
      have hstatic := isStatic_constructorAttributes isStatic
      have hgranted := Granted.constructor (r := .constructor b isStatic params) (s := s) (b := b)
        ⟨b.row, ConstructorRef.nameOf isStatic, s.module.core.void, params,
          constructorAttributes isStatic, [], true, none⟩
        rfl rfl rfl rfl (by rw [MethodRow.isStatic, hstatic]) rfl
      rw [MethodRow.constructorRef, MethodRow.isStatic, hstatic] at hgranted
      exact hgranted
  | implement b i =>
    obtain ⟨_, s₁, hi, hp⟩ := bind_inv h
    obtain ⟨rfl, rfl⟩ := pure_inv hp
    unfold TypeBuilder.implement at hi
    split at hi
    · rename_i hinterface
      cases hi
      exact .implement i rfl hinterface
    · cases hi

end BuildRequest

/-! ### What actions do -/

/-- Everything that an action can do to a session. -/
inductive Session.Changes (s : Session) : Action → Session → Prop
  /-- It is refused, or there is nothing to do. -/
  | idle (a : Action) : s.Changes a s
  | built {r : BuildRequest} {g : Option Handle} {c : Construction} :
      r.Granted ⟨s.hierarchy, s.module⟩ g c →
      s.Changes (.build r) { s with hierarchy := c.hierarchy, module := c.module
                                    handles := s.handles ++ g.toList }
  | opened {k : Nat} {owner : BodyOwner} {e : Emitter} : s.module.emitter owner = .ok e →
      s.Changes (.openEmitter k owner) (s.setEmitter k (some e))
  | requested {k : Nat} {r : Request} {e : Emitter} {t : Emission} : s.emitters k = some e →
      r.perform ⟨s.module, e⟩ = .ok () t →
      s.Changes (.request k r) ({ s with module := t.module }.setEmitter k (some t.emitter))
  | finished {k : Nat} {e : Emitter} {m : Module} : s.emitters k = some e →
      e.finish s.module = .ok () m →
      s.Changes (.finish k) ({ s with module := m }.setEmitter k none)
  /-- An emitter is abandoned, or could not finish its body. -/
  | closed {a : Action} (k : Nat) : a = .drop k ∨ a = .finish k → s.Changes a (s.setEmitter k none)
  | imported (i : Import) :
      s.Changes (.importing i) { s with module := (s.module.importing i.perform).2 }
  | documented (file : SourceFile) :
      s.Changes (.document file) { s with module := (s.module.document file).2 }
  | allotted (interfaces : List TypeRef) :
      s.Changes (.allot interfaces) { s with hierarchy := s.hierarchy.allot interfaces }
  | extended (t i : TypeRef) :
      s.Changes (.addInterface t i) { s with hierarchy := s.hierarchy.addInterface t i }

/-- An action that succeeds does what its case of `Changes` says. -/
theorem Session.changes_ok {s s' : Session} {a : Action} (h : a.perform s = .ok () s') :
    s.Changes a s' := by
  cases a with
  | build r =>
    change building r s = _ at h
    unfold building at h
    split at h
    · rename_i hgrant
      cases h
      exact .built (BuildRequest.granted_of_grant hgrant)
    · cases h
  | openEmitter k owner =>
    change opening k owner s = _ at h
    unfold opening at h
    split at h
    · rename_i he
      cases h
      exact .opened he
    · cases h
  | request k r =>
    change requesting k r s = _ at h
    unfold requesting at h
    split at h
    · cases h
      exact .idle _
    · rename_i he
      split at h
      · rename_i hr
        cases h
        exact .requested he hr
      · cases h
  | finish k =>
    change finishing k s = _ at h
    unfold finishing at h
    split at h
    · cases h
      exact .idle _
    · rename_i he
      split at h
      · rename_i hm
        cases h
        exact .finished he hm
      · cases h
  | drop k =>
    cases h
    exact .closed k (Or.inl rfl)
  | importing i =>
    cases h
    exact .imported i
  | document file =>
    cases h
    exact .documented file
  | allot interfaces =>
    cases h
    exact .allotted interfaces
  | addInterface t i =>
    cases h
    exact .extended t i

theorem Session.changes_after (s : Session) (a : Action) : s.Changes a (s.after a) := by
  unfold Session.after
  cases h : a.perform s with
  | ok u s' => exact changes_ok h
  | error err s' =>
    rw [Result.state_error]
    rcases Action.perform_error h with rfl | ⟨k, rfl, rfl⟩
    · exact .idle a
    · exact .closed k (Or.inr rfl)

/-- An open emitter was open before, or was just opened, or was just asked for something. -/
theorem Session.Changes.emitter_inv {s s' : Session} {a : Action} (h : s.Changes a s') {k : Nat}
    {e' : Emitter} (he' : s'.emitters k = some e') :
    s.emitters k = some e' ∨ (∃ owner, s.module.emitter owner = .ok e') ∨
      ∃ r e t, a = .request k r ∧ s.emitters k = some e ∧ r.perform ⟨s.module, e⟩ = .ok () t ∧
        e' = t.emitter ∧ s'.module = t.module := by
  cases h with
  | @opened j owner e hopen =>
    rw [setEmitter_emitters] at he'
    split at he'
    · cases he'
      exact Or.inr (Or.inl ⟨owner, hopen⟩)
    · exact Or.inl he'
  | @requested j r e t he hr =>
    rw [setEmitter_emitters] at he'
    split at he'
    · rename_i hk
      subst hk
      cases he'
      exact Or.inr (Or.inr ⟨r, e, t, rfl, he, hr, rfl, rfl⟩)
    · exact Or.inl he'
  | finished _ _ | closed _ _ =>
    rw [setEmitter_emitters] at he'
    split at he'
    · cases he'
    · exact Or.inl he'
  | idle | built _ | imported _ | documented _ | allotted _ | extended _ _ => exact Or.inl he'

/-- What every change keeps holds throughout a history. -/
theorem History.keeps {P : Session → Prop} {s₀ s : Session} {log : List Turn}
    (step : ∀ s a s', P s → s.Permits a → s.Changes a s' → P s') (h : History s₀ log s)
    (h₀ : P s₀) : P s := by
  induction h with
  | start => exact h₀
  | turn a _ ha ih => exact step _ a _ ih ha (Session.changes_after _ a)

/-! ### A type to build on -/

/-- The builder of the first type of a module. -/
def firstBuilder : TypeBuilder where
  row := 0
  type := .named (.ofString "N.C") .classType (.construction 0 0) false (some default) none 0

/-- The type is asked for. -/
def firstRequest : Action := .build (.type "N" "C" none .none .publicType)

/-- A session with a module of one type. -/
def oneType : Session := (Session.start .empty 0 "m" default).after firstRequest

theorem history_oneType : History (.start .empty 0 "m" default)
    [⟨.start .empty 0 "m" default, firstRequest⟩] oneType :=
  History.start.turn firstRequest nofun

theorem permits_firstBuilder {s : Session} {handles : List Handle}
    (h : s.handles = .type firstBuilder :: handles) :
    ∀ b, some firstBuilder = some b → .type b ∈ s.handles := by
  rintro b hb
  cases hb
  rw [h]
  exact List.mem_cons_self

end MarkupLowering
