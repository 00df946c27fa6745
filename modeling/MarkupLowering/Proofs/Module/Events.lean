import MarkupLowering.Proofs.Import.MemberRows
import MarkupLowering.Proofs.Module.History

/-!
# MarkupLowering.Proofs.Module.Events

**What a module imports.** A history of a module is a list of events (`Module.Event`), each of
which may be refused. Every request imports what it mentions, in an order of its own, when it is
granted (`BuildRequest.imports`, `Request.imports`), and nothing when it is refused.

`Took log m m'` is all that matters of an event for the import tables: they are the tables after
the imports of the log, and the types that the module defines stay what they were. It holds of
every history (`Module.took_after`), so what is true of tables after any imports is true of the
tables of every module.
-/

namespace MarkupLowering

open ImportTables

/-! ### What is imported on the way from one module to another -/

/-- Between the modules, the imports of the log were made in order. Definitions of types may have
been added; those that were there kept their handles. -/
structure Module.Took (log : List Import) (m m' : Module) : Prop where
  id : m'.id = m.id
  core : m'.core = m.core
  imports : m'.imports = importAll m.id log m.imports
  types : ∀ (row : Nat) (r : TypeRow), m.types[row]? = some r →
    ∃ r', m'.types[row]? = some r' ∧ r'.handle = r.handle

namespace Module.Took

variable {m m₁ m₂ : Module} {log log' : List Import}

theorem refl (m : Module) : m.Took [] m := ⟨rfl, rfl, rfl, fun _ r h => ⟨r, h, rfl⟩⟩

theorem trans (h₁ : m.Took log m₁) (h₂ : m₁.Took log' m₂) : m.Took (log ++ log') m₂ where
  id := h₂.id.trans h₁.id
  core := h₂.core.trans h₁.core
  imports := by
    rw [h₂.imports, h₁.imports, h₁.id, importAll, importAll, importAll, List.foldl_append]
  types row r h := by
    obtain ⟨r₁, hr₁, heq₁⟩ := h₁.types row r h
    obtain ⟨r₂, hr₂, heq₂⟩ := h₂.types row r₁ hr₁
    exact ⟨r₂, hr₂, heq₂.trans heq₁⟩

/-- Further steps that import nothing. -/
theorem quiet (h₁ : m.Took log m₁) (h₂ : m₁.Took [] m₂) : m.Took log m₂ := by
  have h := h₁.trans h₂
  rwa [List.append_nil] at h

/-- A step on the import tables. -/
theorem importing {α : Type} {step : Nat → ImportM α}
    (h : (step m.id m.imports).2 = importAll m.id log m.imports) :
    m.Took log (m.importing step).2 :=
  ⟨rfl, rfl, h, fun _ r hr => ⟨r, hr, rfl⟩⟩

theorem entity (m : Module) (i : Import) : m.Took [i] (m.importing fun unit => i.perform unit).2 :=
  importing rfl

theorem importType (m : Module) (t : TypeRef) : m.Took [.type t] (m.importType t).2 :=
  entity m (.type t)

/-- A step on other tables. -/
theorem of_eq {m' : Module} (hid : m'.id = m.id) (hcore : m'.core = m.core)
    (himports : m'.imports = m.imports) (htypes : m'.types = m.types) : m.Took [] m' := by
  refine ⟨hid, hcore, himports, fun _ r h => ⟨r, ?_, rfl⟩⟩
  rw [htypes, h]

theorem modifyType (m : Module) (row : Nat) {f : TypeRow → TypeRow}
    (hf : ∀ r, (f r).handle = r.handle) : m.Took [] (m.modifyType row f) := by
  refine ⟨rfl, rfl, rfl, fun k r hk => ?_⟩
  by_cases hrow : row = k
  · refine ⟨f r, ?_, hf r⟩
    simp [Module.modifyType, Array.getElem?_modify, hrow, hk]
  · refine ⟨r, ?_, rfl⟩
    simp [Module.modifyType, Array.getElem?_modify, hrow, hk]

/-- A member gets a row of its own, and is entered in the row of its type. -/
theorem member {m' : Module} (h : m.Took log m₁) (hid : m'.id = m₁.id) (hcore : m'.core = m₁.core)
    (himports : m'.imports = m₁.imports) (htypes : m'.types = m₁.types) (row : Nat)
    {f : TypeRow → TypeRow} (hf : ∀ r, (f r).handle = r.handle) :
    m.Took log (m'.modifyType row f) :=
  (h.quiet (of_eq hid hcore himports htypes)).quiet (modifyType m' row hf)

end Module.Took

/-! ### Adding rows -/

/-- A list of types is imported one by one. -/
theorem importTypes_eq_importAll (unit : Nat) (types : List TypeRef) (t : ImportTables) :
    (importTypes unit types t).2 = importAll unit (types.map Import.type) t := by
  induction types generalizing t with
  | nil => rfl
  | cons type types ih => exact ih (importType unit type t).2

theorem importMethods_eq_importAll (unit : Nat) (methods : List MethodRef) (t : ImportTables) :
    (Module.importMethods unit methods t).2 = importAll unit (methods.map Import.method) t := by
  induction methods generalizing t with
  | nil => rfl
  | cons r methods ih => exact ih (importMethod unit r t).2

/-- What the row of a method mentions, in the order of the imports. -/
def MethodRow.imports (row : MethodRow) : List Import :=
  .type row.returns :: (row.params.map Import.type ++ row.overrides.map Import.method)

namespace Module

variable (m : Module)

theorem took_addType (row : TypeRow) :
    m.Took (row.base.toList.map Import.type) (m.addType row).2 := by
  have himport : m.Took (row.base.toList.map Import.type)
      (m.importing fun unit => importType? unit row.base).2 := by
    refine .importing ?_
    cases row.base with
    | none => rfl
    | some base => rfl
  have hpush : m.Took (row.base.toList.map Import.type)
      { (m.importing fun unit => importType? unit row.base).2 with
        types := m.types.push row } := by
    refine himport.quiet ⟨rfl, rfl, rfl, fun k r hk => ⟨r, ?_, rfl⟩⟩
    exact getElem?_push_of_some hk
  unfold addType
  dsimp only
  split
  · exact hpush.quiet (.modifyType _ _ fun _ => rfl)
  · exact hpush

theorem took_addField (row : FieldRow) : m.Took [.type row.type] (m.addField row).2 := by
  refine (Took.importType m row.type).member ?_ ?_ ?_ ?_ _ ?_
  all_goals intros; rfl

theorem took_addMethod (row : MethodRow) : m.Took row.imports (m.addMethod row).2 := by
  have himport : m.Took row.imports (m.importing fun unit => do
      let _ ← ImportTables.importType unit row.returns
      let _ ← ImportTables.importTypes unit row.params
      importMethods unit row.overrides).2 := by
    refine .importing ?_
    change (importMethods m.id row.overrides (importTypes m.id row.params
      (ImportTables.importType m.id row.returns m.imports).2).2).2 = _
    rw [importMethods_eq_importAll, importTypes_eq_importAll]
    exact List.foldl_append.symm
  refine himport.member ?_ ?_ ?_ ?_ _ ?_
  all_goals intros; rfl

theorem took_addProperty (row : PropertyRow) : m.Took [.type row.type] (m.addProperty row).2 := by
  refine (Took.importType m row.type).member ?_ ?_ ?_ ?_ _ ?_
  all_goals intros; rfl

theorem took_addInterface (row : Nat) (i : TypeRef) : m.Took [.type i] (m.addInterface row i) :=
  (Took.importType m i).member rfl rfl rfl rfl _ fun _ => rfl

end Module

/-! ### What builders import -/

/-- A new type takes the next row, which holds its handle. The handle knows the row. -/
theorem Construction.addType_inv {namespaceName name : String} {base : Option TypeRef}
    {attributes : TypeAttributes} {visibility : Visibility} {outer : Option TypeBuilder}
    {s s' : Construction} {b : TypeBuilder}
    (h : addType namespaceName name base attributes visibility outer s = .ok b s') :
    ∃ row : TypeRow, s'.module = (s.module.addType row).2 ∧ row.handle = b.type ∧
      row.base = baseOf s.module.core base (attributes.contains .interfaceType) ∧
      b.row = s.module.types.size ∧ ownRow? s.module.id b.type = some b.row := by
  unfold addType at h
  split at h
  · cases h
  · cases h
    exact ⟨_, rfl, rfl, rfl, rfl, if_pos rfl⟩

/-- What a granted request to a builder imports. -/
def BuildRequest.imports (core : CoreTypes) : BuildRequest → List Import
  | .type _ _ base attributes _ =>
    (Construction.baseOf core base (attributes.contains .interfaceType)).toList.map Import.type
  | .nested _ base _ _ => [.type base]
  | .complete _ => []
  | .field _ t _ _ _ => [.type t]
  | .method _ d =>
    .type d.returns :: (d.params.map Import.type ++ d.overrides.toList.map Import.method)
  | .property _ t _ _ _ => [.type t]
  | .constructor _ _ params => .type core.void :: params.map Import.type
  | .implement _ i => [.type i]

/-- The step fails or does nothing. -/
structure Checks (step : BuildM Unit) : Prop where
  atomic : Atomic step
  same : ∀ s a s', step s = .ok a s' → s' = s

/-- The step succeeds and leaves the module alone. -/
def Quiet {α : Type} (step : BuildM α) : Prop :=
  ∀ s, ∃ a s', step s = .ok a s' ∧ s'.module = s.module

/-- The step fails without a trace, or imports what the log says, in a module with the given
runtime types. -/
structure TakesUp {α : Type} (core : CoreTypes) (log : List Import) (step : BuildM α) : Prop where
  atomic : Atomic step
  took : ∀ s a s', s.module.core = core → step s = .ok a s' → s.module.Took log s'.module

section Builders

open Construction TypeBuilder

variable {α β : Type} {core : CoreTypes} {log : List Import}

theorem checks_pure : Checks (pure ()) := ⟨atomic_pure _, fun _ _ _ h => (pure_inv h).2⟩

theorem checks_reject (fault : DefinitionFault) : Checks (reject fault) :=
  ⟨atomic_throw _, fun _ _ _ h => by cases h⟩

theorem checks_name (b : TypeBuilder) (kind name : String) : Checks (b.checkName kind name) := by
  unfold TypeBuilder.checkName
  split
  · exact checks_reject _
  · exact checks_pure

theorem checks_accessor (b : TypeBuilder) (property : String) (accessor : Option MethodRef) :
    Checks (b.checkAccessor property accessor) := by
  unfold TypeBuilder.checkAccessor
  split
  · exact checks_pure
  · split
    · exact checks_pure
    · exact checks_reject _

theorem quiet_pure (a : α) : Quiet (pure a) := fun s => ⟨a, s, rfl, rfl⟩

theorem quiet_definitionAt (row : Nat) (handle : Option Definition → α) :
    Quiet (do return handle (← definitionAt row)) := fun s => ⟨_, s, rfl, rfl⟩

theorem Quiet.total {step : BuildM α} (h : Quiet step) : Total step := by
  intro s e s' hs
  obtain ⟨a, s₁, hok, -⟩ := h s
  rw [hok] at hs
  cases hs

namespace TakesUp

theorem reject (fault : DefinitionFault) : TakesUp core log (reject fault : BuildM α) :=
  ⟨atomic_throw _, fun _ _ _ _ h => by cases h⟩

theorem onModule {f : Module → α × Module} (h : ∀ m : Module, m.core = core → m.Took log (f m).2) :
    TakesUp core log (onModule f) where
  atomic _ _ _ hs := by cases hs
  took s a s' hcore hs := by
    injection hs with _ hs
    rw [← hs]
    exact h s.module hcore

theorem after {step : BuildM Unit} {next : Unit → BuildM β} (hstep : Checks step)
    (hnext : ∀ a, TakesUp core log (next a)) : TakesUp core log (step >>= next) where
  atomic := hstep.atomic.bind_of_pure hstep.same fun a => (hnext a).atomic
  took s b s' hcore h := by
    obtain ⟨a, s₁, hs₁, hs'⟩ := bind_inv h
    rw [hstep.same s a s₁ hs₁] at hs'
    exact (hnext a).took s b s' hcore hs'

theorem before {step : BuildM α} {next : α → BuildM β} (hstep : TakesUp core log step)
    (hnext : ∀ a, Quiet (next a)) : TakesUp core log (step >>= next) where
  atomic := hstep.atomic.bind_total fun a => (hnext a).total
  took s b s' hcore h := by
    obtain ⟨a, s₁, hs₁, hs'⟩ := bind_inv h
    obtain ⟨_, _, hok, hmodule⟩ := hnext a s₁
    rw [hok] at hs'
    injection hs' with _ hs'
    rw [← hs', hmodule]
    exact hstep.took s a s₁ hcore hs₁

/-- A member is defined by one step on the module, and its handle is made from the row. -/
theorem defined {f : Module → Nat × Module} {handle : Nat → Option Definition → α}
    (h : ∀ m : Module, m.core = core → m.Took log (f m).2) :
    TakesUp core log (do
      let row ← Construction.onModule f
      return handle row (← TypeBuilder.definitionAt row)) :=
  (onModule h).before fun row => quiet_definitionAt row _

theorem addType (namespaceName name : String) (base : Option TypeRef) (attributes : TypeAttributes)
    (visibility : Visibility) (outer : Option TypeBuilder) :
    TakesUp core
      ((baseOf core base (attributes.contains .interfaceType)).toList.map Import.type)
      (addType namespaceName name base attributes visibility outer) where
  atomic s e s' h := by
    unfold Construction.addType at h
    split at h
    · cases h
      rfl
    · cases h
  took s b s' hcore h := by
    obtain ⟨row, hmodule, -, hbase, -⟩ := addType_inv h
    rw [hmodule, ← hcore, ← hbase]
    exact s.module.took_addType row

/-- A request to a builder fails without a trace or imports what it mentions. -/
theorem perform (core : CoreTypes) (r : BuildRequest) :
    TakesUp core (r.imports core) r.perform := by
  cases r with
  | type namespaceName name base attributes visibility =>
    refine before ?_ fun _ => quiet_pure _
    unfold Construction.defineType
    split
    · exact reject _
    · exact addType _ _ _ _ _ _
  | nested b base name isPublic =>
    refine before ?_ fun _ => quiet_pure _
    exact addType "" name (some base) _ _ _
  | complete b =>
    refine before (before (onModule fun m _ => ?_) fun _ => quiet_pure _) fun _ => quiet_pure _
    exact .modifyType _ _ fun _ => rfl
  | field b t name isPublic isStatic =>
    refine before (after (checks_name b _ name) fun _ => ?_) fun _ => quiet_pure _
    exact defined fun m _ =>
      m.took_addField ⟨b.row, name, t, fieldAttributes isPublic isStatic⟩
  | method b d =>
    refine before (after (checks_name b _ d.name) fun _ => ?_) fun _ => quiet_pure _
    exact defined fun m _ => m.took_addMethod
      ⟨b.row, d.name, d.returns, d.params, d.attributes, d.overrides.toList, false, none⟩
  | property b t name setter getter =>
    refine before (after (checks_name b _ name) fun _ => ?_) fun _ => quiet_pure _
    refine after (checks_accessor b name setter) fun _ => ?_
    refine after (checks_accessor b name getter) fun _ => ?_
    exact defined fun m _ => m.took_addProperty ⟨b.row, name, t, getter, setter⟩
  | constructor b isStatic params =>
    refine before ?_ fun _ => quiet_pure _
    unfold TypeBuilder.defineConstructor
    split
    · exact reject _
    · refine defined fun m hcore => ?_
      rw [← hcore]
      have h := m.took_addMethod ⟨b.row, ConstructorRef.nameOf isStatic, m.core.void, params,
        constructorAttributes isStatic, [], true, none⟩
      simpa [MethodRow.imports, BuildRequest.imports] using h
  | implement b i =>
    change TakesUp core _ (b.implement i)
    unfold TypeBuilder.implement
    split
    · refine (onModule fun m _ => m.took_addInterface b.row i).before fun _ => ?_
      exact fun s => ⟨(), { s with hierarchy := s.hierarchy.addInterface b.type i }, rfl, rfl⟩
    · exact reject _

end TakesUp

end Builders

/-! ### What emitters import -/

/-- What a granted request to an emitter imports. -/
def Request.imports : Request → List Import
  | .emit _ x => x.imports
  | .defineLocal t => [.type t]
  | .defineLabel | .markLabel _ | .beginCapture _ _ | .endCapture _ => []

/-- Reducing an operand imports what the operand mentions. -/
theorem Emission.Reduction.took {is : List Import} {step : EmitM PendingArgument}
    (h : Reduction is step) {s s' : Emission} {p : PendingArgument} (hstep : step s = .ok p s') :
    s.module.Took is s'.module := by
  cases h with
  | ready a =>
    obtain ⟨-, rfl⟩ := pure_inv hstep
    exact .refl _
  | token i =>
    obtain ⟨-, rfl⟩ := token_inv hstep
    exact .entity _ i
  | argument | slotAt | slotOf =>
    obtain ⟨-, -, -, rfl⟩ := known_inv hstep
    exact .refl _
  | branch l =>
    obtain ⟨-, -, rfl⟩ := branch_inv hstep
    exact .refl _
  | refused => cases hstep

/-- A granted request makes the imports of what it mentions, and no others. -/
theorem Request.took_perform {r : Request} {s s' : Emission} (h : r.perform s = .ok () s') :
    s.module.Took r.imports s'.module := by
  cases r with
  | emit op x =>
    obtain ⟨p, s₁, hp, happ⟩ := bind_inv h
    injection happ with _ hs
    rw [← hs]
    unfold Emission.resolve at hp
    cases hx : Emission.overflow? op x with
    | some value =>
      rw [hx] at hp
      cases hp
    | none =>
      rw [hx] at hp
      have htook : s.module.Took x.imports s₁.module := (Emission.reduction op x).took hp
      exact htook
  | defineLocal t =>
    obtain ⟨slot, s₁, hd, hp⟩ := bind_inv h
    obtain ⟨-, rfl⟩ := pure_inv hp
    unfold Emission.defineLocal at hd
    dsimp only at hd
    split at hd
    · cases hd
      exact .importType _ t
    · cases hd
  | defineLabel =>
    obtain ⟨l, s₁, hd, hp⟩ := bind_inv h
    obtain ⟨-, rfl⟩ := pure_inv hp
    cases hd
    exact .refl _
  | markLabel l =>
    unfold perform Emission.markLabel at h
    dsimp only at h
    split at h
    · cases h
      exact .refl _
    · cases h
  | beginCapture file position =>
    cases h
    exact .of_eq rfl rfl rfl rfl
  | endCapture id =>
    cases h
    exact .refl _

theorem Emitter.took_finish (e : Emitter) (m : Module) :
    m.Took [] (Result.state (e.finish m)) := by
  unfold finish
  split
  · exact .refl m
  · split
    · exact .refl m
    · exact .of_eq rfl rfl rfl rfl

/-! ### Histories -/

/-- Whether a step was granted. -/
def Result.granted {ε σ α : Type} : EStateM.Result ε σ α → Bool
  | .ok _ _ => true
  | .error _ _ => false

namespace Module

/-- What can happen to a module. -/
inductive Event
  /-- A builder is asked for something. -/
  | build (h : Hierarchy) (r : BuildRequest)
  /-- An emitter is asked for something. -/
  | request (e : Emitter) (r : Request)
  | finish (e : Emitter)
  | importing (i : Import)
  | document (file : SourceFile)

/-- The module after an event. -/
def Event.apply (m : Module) : Event → Module
  | .build h r => (Result.state (r.perform ⟨h, m⟩)).module
  | .request e r => (Result.state (r.perform ⟨m, e⟩)).module
  | .finish e => Result.state (e.finish m)
  | .importing i => (m.importing i.perform).2
  | .document file => (m.document file).2

/-- What is imported by an event. -/
def Event.imports (m : Module) : Event → List Import
  | .build h r => if Result.granted (r.perform ⟨h, m⟩) then r.imports m.core else []
  | .request e r => if Result.granted (r.perform ⟨m, e⟩) then r.imports else []
  | .importing i => [i]
  | .finish _ | .document _ => []

/-- The module after events in order. -/
def after (m : Module) (events : List Event) : Module := events.foldl Event.apply m

/-- What is imported by events in order. -/
def importLog (m : Module) : List Event → List Import
  | [] => []
  | e :: events => e.imports m ++ importLog (e.apply m) events

/-- An event that is refused has no imports, and the module is as before. -/
theorem Event.took_apply (m : Module) (e : Event) : m.Took (e.imports m) (e.apply m) := by
  cases e with
  | build h r =>
    rw [imports, apply]
    cases hr : r.perform ⟨h, m⟩ with
    | ok u s =>
      rw [Result.granted, if_pos rfl]
      exact (TakesUp.perform m.core r).took ⟨h, m⟩ u s rfl hr
    | error err s =>
      rw [Result.state_error, (TakesUp.perform m.core r).atomic _ _ _ hr]
      exact .refl m
  | request e r =>
    rw [imports, apply]
    cases hr : r.perform ⟨m, e⟩ with
    | ok u s => exact Request.took_perform hr
    | error err s =>
      rw [Result.state_error, r.atomic_perform _ _ _ hr]
      exact .refl m
  | finish e => exact e.took_finish m
  | importing i => exact .entity m i
  | document file => exact .of_eq rfl rfl rfl rfl

/-- After any history, the tables hold what was imported. -/
theorem took_after (m : Module) (events : List Event) :
    m.Took (m.importLog events) (m.after events) := by
  induction events generalizing m with
  | nil => exact .refl m
  | cons e events ih => exact (e.took_apply m).trans (ih (e.apply m))

end Module

end MarkupLowering
