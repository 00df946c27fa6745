import MarkupLowering.Proofs.Module.Bodies
import MarkupLowering.Proofs.Module.Catalogue

/-!
# MarkupLowering.Proofs.Module.Closure

**References are closed.** What the rows of a module mention is defined by the module or has a row
in its import tables, and so has every token in the bodies of its methods.

* `Module.Refers`: what is mentioned, as an `Import`. Each step imports what it makes the module,
  or a body in the making, mention for the first time (`Session.Changes.refers`); and what was
  imported stays known (`Module.Took.known`).
* `History.grounded`: a token has a row in the import tables, or an operand claimed a definition of
  the module for it. A claim is good if the handle was returned by a builder, since then there is a
  row behind the handle (`Session.Orderly.hasRow`).

The main statement is `references_closed`.
-/

namespace MarkupLowering

open ImportTables

/-! ### What a module refers to -/

/-- What the row of a type mentions. -/
def TypeRow.mentions (r : TypeRow) : List Import :=
  (r.base.toList ++ r.interfaces).map Import.type

/-- What the row of a field mentions. -/
def FieldRow.mentions (r : FieldRow) : List Import := [.type r.type]

/-- What a body mentions beside its tokens. -/
def Body.mentions (b : Body) : List Import := b.locals.toList.map Import.type

/-- What the row of a method mentions: its signature, the methods that it overrides, and the slots
of its body. -/
def MethodRow.mentions (r : MethodRow) : List Import :=
  r.imports ++ r.body.toList.flatMap Body.mentions

theorem MethodRow.mentions_of_not_body {r : MethodRow} (h : r.body = none) :
    r.mentions = r.imports := by
  rw [mentions, h, Option.toList_none, List.flatMap_nil, List.append_nil]

/-- What the row of a property mentions. -/
def PropertyRow.mentions (r : PropertyRow) : List Import := [.type r.type]

/-- A row of the table mentions an entity. -/
def Mentioned {α : Type} (rows : Array α) (mentions : α → List Import) (i : Import) : Prop :=
  ∃ r ∈ rows, i ∈ mentions r

/-- The rows of the module mention an entity. -/
def Module.Refers (m : Module) (i : Import) : Prop :=
  Mentioned m.types TypeRow.mentions i ∨ Mentioned m.fields FieldRow.mentions i ∨
    Mentioned m.methods MethodRow.mentions i ∨ Mentioned m.properties PropertyRow.mentions i

namespace Mentioned

variable {α : Type} {rows : Array α} {mentions : α → List Import} {i : Import}

theorem push {r : α} (h : Mentioned (rows.push r) mentions i) :
    Mentioned rows mentions i ∨ i ∈ mentions r := by
  obtain ⟨r', hr', hi⟩ := h
  rcases Array.mem_push.mp hr' with hold | rfl
  · exact Or.inl ⟨r', hold, hi⟩
  · exact Or.inr hi

theorem modify {k : Nat} {f : α → α} {new : List Import}
    (h : Mentioned (rows.modify k f) mentions i)
    (hf : ∀ r, i ∈ mentions (f r) → i ∈ mentions r ∨ i ∈ new) :
    Mentioned rows mentions i ∨ i ∈ new := by
  obtain ⟨r, hr, hi⟩ := h
  obtain ⟨j, hj⟩ := Array.mem_iff_getElem?.mp hr
  rw [Array.getElem?_modify] at hj
  split at hj
  · obtain ⟨old, hold, rfl⟩ := Option.map_eq_some_iff.mp hj
    exact (hf old hi).imp_left fun hi => ⟨old, Array.mem_of_getElem? hold, hi⟩
  · exact Or.inl ⟨r, Array.mem_of_getElem? hj, hi⟩

/-- A change to what is not mentioned. -/
theorem of_modify {k : Nat} {f : α → α} (h : Mentioned (rows.modify k f) mentions i)
    (hf : ∀ r, mentions (f r) = mentions r) : Mentioned rows mentions i := by
  have hold : Mentioned rows mentions i ∨ i ∈ ([] : List Import) :=
    h.modify fun r hi => Or.inl (hf r ▸ hi)
  exact hold.resolve_right List.not_mem_nil

end Mentioned

namespace Module

variable {m m' : Module} {i : Import} {new : List Import}

/-- What the module mentions is told table by table. -/
theorem Refers.imp (h : m'.Refers i)
    (htypes : Mentioned m'.types TypeRow.mentions i →
      Mentioned m.types TypeRow.mentions i ∨ i ∈ new)
    (hfields : Mentioned m'.fields FieldRow.mentions i →
      Mentioned m.fields FieldRow.mentions i ∨ i ∈ new)
    (hmethods : Mentioned m'.methods MethodRow.mentions i →
      Mentioned m.methods MethodRow.mentions i ∨ i ∈ new)
    (hproperties : Mentioned m'.properties PropertyRow.mentions i →
      Mentioned m.properties PropertyRow.mentions i ∨ i ∈ new) : m.Refers i ∨ i ∈ new := by
  rcases h with h | h | h | h
  · exact (htypes h).imp_left Or.inl
  · exact (hfields h).imp_left (Or.inr ∘ Or.inl)
  · exact (hmethods h).imp_left (Or.inr ∘ Or.inr ∘ Or.inl)
  · exact (hproperties h).imp_left (Or.inr ∘ Or.inr ∘ Or.inr)

theorem refers_addType {row : TypeRow} (h : (m.addType row).2.Refers i) :
    m.Refers i ∨ i ∈ row.mentions := by
  refine h.imp (fun h => ?_) (fun h => ?_) (fun h => ?_) fun h => ?_
  · rw [types_addType] at h
    split at h
    · exact (h.of_modify fun _ => rfl).push
    · exact h.push
  · rw [fields_addType] at h
    exact Or.inl h
  · rw [methods_addType] at h
    exact Or.inl h
  · rw [properties_addType] at h
    exact Or.inl h

theorem refers_addField {row : FieldRow} (h : (m.addField row).2.Refers i) :
    m.Refers i ∨ i ∈ row.mentions := by
  refine h.imp (fun h => ?_) (fun h => ?_) Or.inl Or.inl
  · rw [types_addField] at h
    exact Or.inl (h.of_modify fun _ => rfl)
  · rw [fields_addField] at h
    exact h.push

theorem refers_addMethod {row : MethodRow} (h : (m.addMethod row).2.Refers i) :
    m.Refers i ∨ i ∈ row.mentions := by
  refine h.imp (fun h => ?_) Or.inl (fun h => ?_) Or.inl
  · rw [types_addMethod] at h
    exact Or.inl (h.of_modify fun _ => rfl)
  · rw [methods_addMethod] at h
    exact h.push

theorem refers_addProperty {row : PropertyRow} (h : (m.addProperty row).2.Refers i) :
    m.Refers i ∨ i ∈ row.mentions := by
  refine h.imp (fun h => ?_) Or.inl Or.inl fun h => ?_
  · rw [types_addProperty] at h
    exact Or.inl (h.of_modify fun _ => rfl)
  · rw [properties_addProperty] at h
    exact h.push

theorem refers_complete {k : Nat}
    (h : (m.modifyType k fun r => { r with created := true }).Refers i) : m.Refers i := by
  refine h.imp_left fun h => ?_
  rw [types_modifyType] at h
  exact h.of_modify fun _ => rfl

theorem refers_addInterface {k : Nat} {t : TypeRef} (h : (m.addInterface k t).Refers i) :
    m.Refers i ∨ i ∈ [Import.type t] := by
  refine h.imp (fun h => ?_) Or.inl Or.inl Or.inl
  rw [types_addInterface] at h
  refine h.modify fun r hi => ?_
  simp only [TypeRow.mentions, Hierarchy.insertInterface] at hi ⊢
  split at hi
  · exact Or.inl hi
  · rw [← List.append_assoc, List.map_append, List.mem_append] at hi
    exact hi

theorem refers_setBody {k : Nat} {body : Body} (h : (m.setBody k body).Refers i) :
    m.Refers i ∨ i ∈ body.mentions := by
  refine h.imp Or.inl Or.inl (fun h => ?_) Or.inl
  rw [methods_setBody] at h
  refine h.modify fun r hi => ?_
  simp only [MethodRow.mentions, List.mem_append] at hi ⊢
  rcases hi with hi | hi
  · exact Or.inl (Or.inl hi)
  · simpa using Or.inr hi

theorem refers_of_sameRows (hsame : m.SameRows m') (h : m'.Refers i) : m.Refers i := by
  rw [hsame] at h
  exact h

end Module

/-! ### What was imported is known -/

/-- The module can refer to the entity: it is its own, or there is a token for it. -/
def Module.Knows (m : Module) (i : Import) : Prop :=
  ∀ key, i.key? m.id = some key → ∃ token, m.imports.find? key = some token

theorem keyed_importAll (unit : Nat) (log : List Import) {t : ImportTables} (ht : Keyed t) :
    Keyed (importAll unit log t) := by
  induction log generalizing t with
  | nil => exact ht
  | cons i log ih => exact ih (i.grows_perform unit t ht).1

/-- What is among the imports has a token after them. -/
theorem find?_importAll {unit : Nat} {log : List Import} {i : Import} (hi : i ∈ log)
    {key : ImportKey} (hkey : i.key? unit = some key) {t : ImportTables} (ht : Keyed t) :
    ∃ token, (importAll unit log t).find? key = some token := by
  induction log generalizing t with
  | nil => cases hi
  | cons j log ih =>
    have hkeyed := (j.grows_perform unit t ht).1
    rcases List.mem_cons.mp hi with rfl | hi
    · have hfind := (Import.lookedUp_of_key? hkey).find?_perform ht
      exact ⟨_, (extends_importAll unit hkeyed log).find? _ _ hfind⟩
    · exact ih hi hkeyed

namespace Module.Took

variable {m m' : Module} {log : List Import}

theorem keyed (h : m.Took log m') (hm : Keyed m.imports) : Keyed m'.imports := by
  rw [h.imports]
  exact keyed_importAll m.id log hm

theorem extendsImports (h : m.Took log m') (hm : Keyed m.imports) :
    Extends m.imports m'.imports := by
  rw [h.imports]
  exact extends_importAll m.id hm log

/-- What was known is known, and so is what was imported. -/
theorem knows (h : m.Took log m') (hm : Keyed m.imports) {i : Import} (hi : m.Knows i ∨ i ∈ log) :
    m'.Knows i := by
  intro key hkey
  rw [h.id] at hkey
  rcases hi with hknown | hnew
  · obtain ⟨token, htoken⟩ := hknown key hkey
    exact ⟨token, (h.extendsImports hm).find? key token htoken⟩
  · rw [h.imports]
    exact find?_importAll hnew hkey hm

end Module.Took

/-! ### What a session refers to -/

/-- The module mentions the entity, or a body in the making does. -/
def Session.Refers (s : Session) (i : Import) : Prop :=
  s.module.Refers i ∨ ∃ k e t, s.emitters k = some e ∧ t ∈ e.locals ∧ i = .type t

/-- Builders import what they make the module mention. -/
theorem BuildRequest.Granted.refers {r : BuildRequest} {s s' : Construction} {g : Option Handle}
    (h : r.Granted s g s') :
    ∃ log, s.module.Took log s'.module ∧
      ∀ i, s'.module.Refers i → s.module.Refers i ∨ i ∈ log := by
  cases h with
  | type _ hadd =>
    obtain ⟨-, rfl⟩ := Construction.addType_row hadd
    refine ⟨_, s.module.took_addType _, fun i hi => ?_⟩
    refine (Module.refers_addType hi).imp_right fun hrow => ?_
    simpa [TypeRow.mentions, Construction.typeRow] using hrow
  | complete _ =>
    exact ⟨[], .modifyType _ _ fun _ => rfl, fun i hi => Or.inl (Module.refers_complete hi)⟩
  | field row _ _ => exact ⟨_, s.module.took_addField row, fun i hi => Module.refers_addField hi⟩
  | method row _ _ hnone _ =>
    refine ⟨_, s.module.took_addMethod row, fun i hi => ?_⟩
    rw [← MethodRow.mentions_of_not_body hnone]
    exact Module.refers_addMethod hi
  | constructor row _ _ hnone _ _ _ =>
    refine ⟨_, s.module.took_addMethod row, fun i hi => ?_⟩
    rw [← MethodRow.mentions_of_not_body hnone]
    exact Module.refers_addMethod hi
  | property row _ _ =>
    exact ⟨_, s.module.took_addProperty row, fun i hi => Module.refers_addProperty hi⟩
  | implement t _ _ =>
    exact ⟨_, s.module.took_addInterface _ t, fun i hi => Module.refers_addInterface hi⟩

/-- Requests to emitters import what they make a body mention. -/
theorem Request.locals_perform {r : Request} {s s' : Emission} (h : r.perform s = .ok () s')
    {t : TypeRef} (ht : t ∈ s'.emitter.locals) :
    t ∈ s.emitter.locals ∨ Import.type t ∈ r.imports := by
  cases r with
  | emit op x =>
    obtain ⟨p, -, -, hs⟩ := Emission.emit_inv h
    rw [hs] at ht
    exact Or.inl ht
  | defineLocal type =>
    rw [(defineLocal_inv h).2] at ht
    rcases Array.mem_push.mp ht with hold | rfl
    · exact Or.inl hold
    · exact Or.inr (List.mem_singleton_self _)
  | defineLabel =>
    rw [defineLabel_inv h] at ht
    exact Or.inl ht
  | markLabel l =>
    rw [(Emission.markLabel_inv h).2] at ht
    exact Or.inl ht
  | beginCapture file position => exact Or.inl ((beginCapture_inv h).locals ▸ ht)
  | endCapture id => exact Or.inl ((endCapture_inv h).locals ▸ ht)

/-- The slots of a body are those of its emitter. -/
theorem Emitter.locals_finishedBody {e : Emitter} {body : Body} (h : e.finishedBody = .ok body) :
    body.locals = e.locals := by
  rw [finishedBody_eq] at h
  split at h
  · cases h
  · cases h
    rfl

/-- An emitter that is gone mentions nothing, and a new one what it mentions itself. -/
theorem Session.refers_setEmitter {s : Session} {k : Nat} {e : Option Emitter} {i : Import}
    (h : (s.setEmitter k e).Refers i) :
    s.Refers i ∨ ∃ e' t, e = some e' ∧ t ∈ e'.locals ∧ i = .type t := by
  rcases h with hi | ⟨j, e', t, hj, ht, rfl⟩
  · exact Or.inl (Or.inl hi)
  · rw [setEmitter_emitters] at hj
    split at hj
    · exact Or.inr ⟨e', t, hj, ht, rfl⟩
    · exact Or.inl (Or.inr ⟨j, e', t, hj, ht, rfl⟩)

/-- Whatever is done, what is mentioned for the first time is imported. -/
theorem Session.Changes.refers {s s' : Session} {a : Action} (h : s.Changes a s') :
    ∃ log, s.module.Took log s'.module ∧ ∀ i, s'.Refers i → s.Refers i ∨ i ∈ log := by
  cases h with
  | built hgrant =>
    obtain ⟨log, htook, hnew⟩ := hgrant.refers
    refine ⟨log, htook, ?_⟩
    rintro i (hi | hi)
    · exact (hnew i hi).imp_left Or.inl
    · exact Or.inl (Or.inr hi)
  | opened hopen =>
    refine ⟨[], .refl _, fun i hi => ?_⟩
    rcases refers_setEmitter hi with hi | ⟨e', t, heq, ht, -⟩
    · exact Or.inl hi
    · cases heq
      rw [(Module.emitter_inv hopen).1.locals] at ht
      simp at ht
  | @requested k r e t he hr =>
    refine ⟨r.imports, Request.took_perform hr, fun i hi => ?_⟩
    rcases refers_setEmitter hi with (hi | hi) | ⟨e', type, heq, ht, rfl⟩
    · exact Or.inl (Or.inl (Module.refers_of_sameRows (Request.sameRows hr) hi))
    · exact Or.inl (Or.inr hi)
    · cases heq
      exact (Request.locals_perform hr ht).imp_left fun hold => Or.inr ⟨k, e, type, he, hold, rfl⟩
  | @finished k e m he hm =>
    have htook := e.took_finish s.module
    rw [hm] at htook
    obtain ⟨body, hbody, rfl⟩ := Emitter.finish_inv hm
    refine ⟨[], htook, fun i hi => Or.inl ?_⟩
    rcases refers_setEmitter hi with (hi | hi) | ⟨e', t, heq, -, -⟩
    · -- the slots of the body were those of the emitter
      rcases Module.refers_setBody hi with hold | hnew
      · exact Or.inl hold
      · obtain ⟨t, ht, rfl⟩ := List.mem_map.mp hnew
        rw [Emitter.locals_finishedBody hbody, Array.mem_toList_iff] at ht
        exact Or.inr ⟨k, e, t, he, ht, rfl⟩
    · exact Or.inr hi
    · cases heq
  | closed k _ =>
    refine ⟨[], .refl _, fun i hi => ?_⟩
    rcases refers_setEmitter hi with hi | ⟨e', t, heq, -, -⟩
    · exact Or.inl hi
    · cases heq
  | imported i => exact ⟨[i], .entity _ i, fun j hj => Or.inl hj⟩
  | documented file => exact ⟨[], .of_eq rfl rfl rfl rfl, fun i hi => Or.inl hi⟩
  | idle | allotted _ | extended _ _ => exact ⟨[], .refl _, fun i hi => Or.inl hi⟩

/-- The import tables are in order, and what is mentioned is known. -/
structure Session.Closed (s : Session) : Prop where
  keyed : Keyed s.module.imports
  known : ∀ i, s.Refers i → s.module.Knows i

theorem Session.Closed.start (h : Hierarchy) (id : Nat) (name : String) (core : CoreTypes) :
    (Session.start h id name core).Closed where
  keyed := keyed_empty
  known i hi := by simp [Session.Refers, Module.Refers, Mentioned, Session.start, Module.new] at hi

theorem History.closed {s₀ s : Session} {log : List Turn} (h : History s₀ log s)
    (h₀ : s₀.Closed) : s.Closed := by
  refine h.keeps (fun s a s' hs _ hchange => ?_) h₀
  obtain ⟨imports, htook, hnew⟩ := hchange.refers
  exact ⟨htook.keyed hs.keyed,
    fun i hi => htook.knows hs.keyed ((hnew i hi).imp_left (hs.known i))⟩

/-! ### Tokens -/

/-- The token leads to a row of its table. -/
def Module.HasRow (m : Module) : Token → Prop
  | .typeDef row => row < m.types.size
  | .typeRef row => row < m.imports.typeRefs.size
  | .typeSpec row => row < m.imports.typeSpecs.size
  | .fieldDef row => row < m.fields.size
  | .methodDef row => row < m.methods.size
  | .memberRef row => row < m.imports.memberRefs.size
  | .string row => row < m.imports.strings.size

theorem Module.hasRow_of_rowOf {m : Module} {key : ImportKey} {token : Token}
    (h : m.imports.RowOf key token) : m.HasRow token := by
  cases h <;> rename_i hk <;> exact (Array.getElem?_eq_some_iff.mp hk).1

namespace Import

/-- The definition of module `unit` that an entity claims to be. -/
def claim? (unit : Nat) : Import → Option Token
  | .type t => (ownRow? unit t).map Token.typeDef
  | .field f => (rowIn? unit f.definition).map Token.fieldDef
  | .method m => (rowIn? unit m.definition).map Token.methodDef
  | .constructor c => (rowIn? unit c.definition).map Token.methodDef
  | .string _ => none

/-- The token that an import returns has a row in the tables, or it was claimed. -/
theorem token_perform (unit : Nat) (i : Import) {t : ImportTables} (ht : Keyed t) :
    i.claim? unit = some (i.perform unit t).1 ∨
      ∃ key, (i.perform unit t).2.RowOf key (i.perform unit t).1 := by
  have hanswered := i.answered_perform unit ht
  cases hkey : i.key? unit with
  | some key =>
    rw [Answered, hkey] at hanswered
    exact Or.inr ⟨key, hanswered⟩
  | none =>
    refine Or.inl ?_
    cases i with
    | type type =>
      cases hown : ownRow? unit type with
      | none => simp [key?, hown] at hkey
      | some row =>
        have hperform : importType unit type t = (.typeDef row, t) :=
          importType_of_token? (by rw [token?, hown])
        rw [claim?, hown, perform, hperform]
        rfl
    | string text => cases hkey
    | field f | method f | constructor f =>
      obtain ⟨row, hrow⟩ := rowIn?_of_not_key? hkey rfl
      rw [perform_member rfl, hrow, claim?, hrow]
      rfl

/-- A builder returned the handle of the entity. -/
def Returned (handles : List Handle) : Import → Prop
  | .type t => ∃ b, .type b ∈ handles ∧ b.type = t
  | .field f => .field f ∈ handles
  | .method m => .method m ∈ handles
  | .constructor c => .constructor c ∈ handles
  | .string _ => False

end Import

theorem ownRow?_inv {unit row : Nat} {t : TypeRef} (h : ownRow? unit t = some row) :
    t.isGeneric = false ∧ t.origin = .construction unit row := by
  unfold ownRow? at h
  split at h
  · rename_i horigin
    split at h
    · rename_i hunit
      subst hunit
      cases h
      exact ⟨rfl, horigin⟩
    · cases h
  · cases h

theorem rowIn?_inv {unit row : Nat} {d : Option Definition} (h : rowIn? unit d = some row) :
    d = some ⟨unit, row⟩ := by
  unfold rowIn? at h
  split at h
  · split at h
    · rename_i hunit
      subst hunit
      cases h
      rfl
    · cases h
  · cases h

theorem rowIn?_self (unit row : Nat) : rowIn? unit (some ⟨unit, row⟩) = some row := if_pos rfl

/-- There is a row for what a returned handle claims to be. -/
theorem Session.Orderly.hasRow {s : Session} (hs : s.Orderly) {i : Import}
    (hreturned : i.Returned s.handles) {token : Token}
    (hclaim : i.claim? s.module.id = some token) : s.module.HasRow token := by
  cases i with
  | type t =>
    obtain ⟨b, hb, rfl⟩ := hreturned
    obtain ⟨r, hr, hhandle⟩ := hs.holds _ hb
    obtain ⟨row, hrow, rfl⟩ := Option.map_eq_some_iff.mp hclaim
    have horigin := (hs.catalogued.declared b.row r hr).origin
    rw [hhandle, (ownRow?_inv hrow).2] at horigin
    cases horigin
    exact (Array.getElem?_eq_some_iff.mp hr).1
  | field f =>
    obtain ⟨k, row, owner, hrow, -, rfl⟩ := hs.holds _ hreturned
    rw [Import.claim?, FieldRow.ref, rowIn?_self] at hclaim
    cases hclaim
    exact (Array.getElem?_eq_some_iff.mp hrow).1
  | method f =>
    obtain ⟨k, row, owner, hrow, -, -, rfl⟩ := hs.holds _ hreturned
    rw [Import.claim?, MethodRow.ref, rowIn?_self] at hclaim
    cases hclaim
    exact (Array.getElem?_eq_some_iff.mp hrow).1
  | constructor c =>
    obtain ⟨k, row, owner, hrow, -, -, -, -, rfl⟩ := hs.holds _ hreturned
    rw [Import.claim?, MethodRow.constructorRef, rowIn?_self] at hclaim
    cases hclaim
    exact (Array.getElem?_eq_some_iff.mp hrow).1
  | string text => cases hreturned

/-- The token is in the body of a method, or in a body in the making. -/
inductive Session.Uses (s : Session) (token : Token) : Prop
  | installed {row : Nat} {body : Body} {i : Instruction} : s.module.bodyAt row = some body →
      i ∈ body.instructions → i.argument = .token token → s.Uses token
  | pending {k : Nat} {e : Emitter} {i : PendingInstruction} : s.emitters k = some e →
      i ∈ e.instructions → i.argument = .ready (.token token) → s.Uses token

/-- An operand with the claim was asked for. -/
def Claimed (unit : Nat) (log : List Turn) (token : Token) : Prop :=
  ∃ turn ∈ log, ∃ k op x, turn.action = .request k (.emit op x) ∧
    ∃ i ∈ x.imports, i.claim? unit = some token

/-- Operands are reduced to tokens by importing what they mention. -/
theorem Emission.Reduces.token {m : Module} {e : Emitter} {expected : OperandType} {x : Operand}
    {token : Token} (h : Reduces m e expected x (.ready (.token token))) :
    ∃ i, x.imports = [i] ∧ token = (i.perform m.id m.imports).1 := by
  cases h with
  | string text => exact ⟨.string text, rfl, rfl⟩
  | field f => exact ⟨.field f, rfl, rfl⟩
  | method r => exact ⟨.method r, rfl, rfl⟩
  | constructor c => exact ⟨.constructor c, rfl, rfl⟩
  | type t => exact ⟨.type t, rfl, rfl⟩
  | argument _ ha => rcases Emitter.argument_inv ha with h | ⟨n, h⟩ <;> cases h
  | slotAt _ ha =>
    obtain ⟨n, -, -, h⟩ := Emitter.slotAt_inv ha
    cases h
  | slotOf _ ha => cases (Emitter.slotOf_inv ha).1

/-- A branch is resolved to a target, and anything else is finished as it is. -/
theorem Emitter.finishArgument_token {labels : LabelTable} {offsets : Array Nat}
    {index offset : Nat} {p : PendingInstruction} {token : Token}
    (h : finishArgument labels offsets index offset p = .ok (.token token)) :
    p.argument = .ready (.token token) := by
  unfold finishArgument at h
  split at h
  · rename_i hready
    cases h
    exact hready
  · unfold resolveBranch at h
    split at h
    · cases h
    · dsimp only at h
      split at h <;> cases h

/-- The tokens of a body are those of its emitter. -/
theorem Emitter.token_finishedBody {e : Emitter} {body : Body} (h : e.finishedBody = .ok body)
    {i : Instruction} (hi : i ∈ body.instructions) {token : Token}
    (htoken : i.argument = .token token) :
    ∃ p ∈ e.instructions, p.argument = .ready (.token token) := by
  rw [finishedBody_eq] at h
  split at h
  · cases h
  · rename_i out hout
    cases h
    obtain ⟨hsize, -, hfinished⟩ := finishFrom_ok hout
    obtain ⟨j, hj⟩ := Array.mem_iff_getElem?.mp hi
    have hlt : j < e.instructions.toList.length := by
      have hbound := (Array.getElem?_eq_some_iff.mp hj).1
      simpa [hsize] using hbound
    have hp := List.getElem?_eq_getElem hlt
    obtain ⟨a, ha, hat⟩ := hfinished j _ hp
    rw [Array.size_empty, Nat.zero_add, hj] at hat
    cases hat
    obtain rfl : a = .token token := htoken
    exact ⟨_, Array.mem_toList_iff.mp (List.mem_of_getElem? hp), finishArgument_token ha⟩

theorem Module.bodyAt_setBody_inv {m : Module} {row : Nat} {body body' : Body}
    (h : (m.setBody row body).bodyAt row = some body') : body' = body := by
  rw [bodyAt, methods_setBody, Array.getElem?_modify, if_pos rfl] at h
  cases hr : m.methods[row]? with
  | none =>
    rw [hr] at h
    cases h
  | some r =>
    rw [hr] at h
    cases h
    rfl

namespace Session.Changes

variable {s s' : Session} {a : Action}

/-- A body was there before, or an emitter has just finished it. -/
theorem bodyAt_inv (h : s.Changes a s') {row : Nat} {body : Body}
    (hbody : s'.module.bodyAt row = some body) :
    s.module.bodyAt row = some body ∨
      ∃ k e, s.emitters k = some e ∧ e.finishedBody = .ok body := by
  by_cases hfinish : ∃ k, a = .finish k
  · obtain ⟨k, rfl⟩ := hfinish
    cases h with
    | @finished _ e _ he hm =>
      obtain ⟨body', hfinished, rfl⟩ := Emitter.finish_inv hm
      rw [setEmitter_module] at hbody
      by_cases hrow : e.row = row
      · subst hrow
        obtain rfl := Module.bodyAt_setBody_inv hbody
        exact Or.inr ⟨k, e, he, hfinished⟩
      · rw [Module.bodyAt_setBody_of_ne hrow] at hbody
        exact Or.inl hbody
    | idle | closed _ _ => exact Or.inl hbody
  · rw [h.bodyAt (fun k hk => hfinish ⟨k, hk⟩)] at hbody
    exact Or.inl hbody

/-- An instruction was there before, or it was just asked for. -/
theorem pending_inv (h : s.Changes a s') {k : Nat} {e : Emitter} (he : s'.emitters k = some e)
    {i : PendingInstruction} (hi : i ∈ e.instructions) :
    (∃ k₀ e₀, s.emitters k₀ = some e₀ ∧ i ∈ e₀.instructions) ∨
      ∃ k₀ e₀ op x, a = .request k₀ (.emit op x) ∧
        Emission.Reduces s.module e₀ op.operandType x i.argument ∧
        s.module.Took x.imports s'.module := by
  rcases h.emitter_inv he with hold | ⟨owner, hopen⟩ | ⟨r, e₀, t, rfl, he₀, hr, rfl, hmodule⟩
  · exact Or.inl ⟨k, e, hold, hi⟩
  · rw [(Module.emitter_inv hopen).1.instructions] at hi
    simp at hi
  · rcases Request.perform_code hr with ⟨op, x, p, rfl, -, hp, happend⟩ | ⟨-, hsame⟩
    · rw [happend] at hi
      rcases Array.mem_push.mp hi with hold | rfl
      · exact Or.inl ⟨k, e₀, he₀, hold⟩
      · rw [hmodule]
        exact Or.inr ⟨k, e₀, op, x, rfl, hp, Request.took_perform hr⟩
    · rw [hsame] at hi
      exact Or.inl ⟨k, e₀, he₀, hi⟩

/-- A token was there before, or it was just given to an operand. -/
theorem uses (h : s.Changes a s') (hs : s.Closed) {token : Token} (hu : s'.Uses token) :
    s.Uses token ∨ (∃ key, s'.module.imports.RowOf key token) ∨
      Claimed s.module.id [⟨s, a⟩] token := by
  cases hu with
  | installed hbody hi htoken =>
    rcases h.bodyAt_inv hbody with hold | ⟨k, e, he, hfinished⟩
    · exact Or.inl (.installed hold hi htoken)
    · obtain ⟨p, hp, hready⟩ := Emitter.token_finishedBody hfinished hi htoken
      exact Or.inl (.pending he hp hready)
  | pending he hi htoken =>
    rcases h.pending_inv he hi with ⟨k₀, e₀, he₀, hold⟩ | ⟨k₀, e₀, op, x, rfl, hreduces, htook⟩
    · exact Or.inl (.pending he₀ hold htoken)
    · rw [htoken] at hreduces
      obtain ⟨i, hx, rfl⟩ := hreduces.token
      refine Or.inr ?_
      rcases i.token_perform s.module.id hs.keyed with hclaim | ⟨key, hrow⟩
      · refine Or.inr ⟨_, List.mem_singleton_self _, k₀, op, x, rfl, i, ?_, hclaim⟩
        rw [hx]
        exact List.mem_singleton_self i
      · rw [htook.imports, hx]
        exact Or.inl ⟨key, hrow⟩

end Session.Changes

/-- Every token has a row in the import tables, or a definition of the module was claimed. -/
theorem History.grounded {s₀ s : Session} {log : List Turn} (h : History s₀ log s)
    (h₀ : s₀.Closed) (hnone : ∀ token, ¬ s₀.Uses token) {token : Token} (hu : s.Uses token) :
    (∃ key, s.module.imports.RowOf key token) ∨ Claimed s.module.id log token := by
  induction h with
  | start => exact absurd hu (hnone token)
  | @turn log s a h _ ih =>
    have hclosed := h.closed h₀
    have hchange := Session.changes_after s a
    obtain ⟨imports, htook, -⟩ := hchange.refers
    rw [htook.id]
    rcases hchange.uses hclosed hu with hold | hrow | ⟨turn, hturn, hclaim⟩
    · rcases ih hold with ⟨key, hrow⟩ | ⟨turn, hturn, hclaim⟩
      · exact Or.inl ⟨key, hrow.mono (htook.extendsImports hclosed.keyed).toKeepsRows⟩
      · exact Or.inr ⟨turn, List.mem_append_left _ hturn, hclaim⟩
    · exact Or.inl hrow
    · exact Or.inr ⟨turn, List.mem_append_right _ hturn, hclaim⟩

/-! ### References are closed -/

/-- Every handle that stands for a definition of module `unit` among the operands of instructions
was returned by a builder. -/
def OperandsReturned (unit : Nat) (log : List Turn) (handles : List Handle) : Prop :=
  ∀ turn ∈ log, ∀ k op x, turn.action = .request k (.emit op x) →
    ∀ i ∈ x.imports, ∀ token, i.claim? unit = some token → i.Returned handles

/-- Whatever builders and emitters do, in any order, references are closed. A type that rows or
the slots of bodies mention is a type of the module and no instance, or has a row of its identity;
a method that is overridden is one of the module, or has a row of its identity; and if only handles
that builders returned are used for the definitions of the module, every token in a body leads to a
row. -/
theorem references_closed {h : Hierarchy} {id : Nat} {name : String} {core : CoreTypes}
    {log : List Turn} {s : Session} (hs : History (.start h id name core) log s) :
    (∀ t, s.module.Refers (.type t) →
      (t.isGeneric = false ∧ t.unit? = some id) ∨
      (∃ (k : Nat) (row : TypeRefRow), s.module.imports.typeRefs[k]? = some row ∧
        row.identity = t.identity) ∨
      ∃ (k : Nat) (row : TypeSpecRow), s.module.imports.typeSpecs[k]? = some row ∧
        row.identity = t.identity) ∧
    (∀ r, s.module.Refers (.method r) →
      (∃ row, r.definition = some ⟨id, row⟩) ∨
      ∃ (k : Nat) (row : MemberRefRow), s.module.imports.memberRefs[k]? = some row ∧
        row.identity = r.identity) ∧
    (OperandsReturned id log s.handles →
      ∀ row body, s.module.bodyAt row = some body → ∀ i ∈ body.instructions, ∀ token,
        i.argument = .token token → s.module.HasRow token) := by
  have hclosed := hs.closed (.start h id name core)
  have hknown : ∀ i, s.module.Refers i → s.module.Knows i := fun i hi =>
    hclosed.known i (Or.inl hi)
  have hid := hs.module_id
  refine ⟨fun t ht => ?_, fun r hr => ?_, fun hreturned row body hbody i hi token htoken => ?_⟩
  · have hkey := hknown _ ht
    rw [Module.Knows, hid, Import.key?] at hkey
    cases hown : ownRow? id t with
    | some row =>
      obtain ⟨hgeneric, horigin⟩ := ownRow?_inv hown
      exact Or.inl ⟨hgeneric, by rw [TypeRef.unit?, horigin]⟩
    | none =>
      obtain ⟨token, hfind⟩ := hkey _ (by rw [hown]; rfl)
      refine Or.inr ?_
      rcases (hclosed.keyed _ _ hfind).type_inv with ⟨k, row, -, hrow⟩ | ⟨k, row, -, hrow⟩
      · exact Or.inl ⟨k, row, hrow⟩
      · exact Or.inr ⟨k, row, hrow⟩
  · have hkey := hknown _ hr
    rw [Module.Knows, hid, Import.key?] at hkey
    cases hown : rowIn? id r.definition with
    | some row => exact Or.inl ⟨row, rowIn?_inv hown⟩
    | none =>
      obtain ⟨token, hfind⟩ := hkey _ (by rw [hown]; rfl)
      obtain ⟨k, row, -, hrow⟩ := (hclosed.keyed _ _ hfind).member_inv
      exact Or.inr ⟨k, row, hrow⟩
  · have hnone : ∀ token, ¬ (Session.start h id name core).Uses token := by
      rintro token (⟨hbody, -, -⟩ | ⟨he, -, -⟩)
      · cases hbody
      · cases he
    rcases hs.grounded (.start h id name core) hnone (.installed hbody hi htoken) with
      ⟨key, hrow⟩ | ⟨turn, hturn, k, op, x, haction, i, hi, hclaim⟩
    · exact Module.hasRow_of_rowOf hrow
    · have horderly := hs.orderly (.start h id name core)
      rw [hid] at hclaim
      refine horderly.hasRow (hreturned turn hturn k op x haction i hi token hclaim) ?_
      rw [hid, hclaim]

/-- The handle to a field of the first type. -/
def firstFieldRef : FieldRef where
  declaring := firstBuilder.type
  name := .ofString "f"
  type := default
  attributes := fieldAttributes true false
  definition := some ⟨0, 0⟩

/-- A method of the first type reads its field. -/
def fieldRead : Session :=
  let s := oneType.after (.build (.field firstBuilder default "f" true false))
  let s := s.after (.build (.method firstBuilder firstMethod))
  let s := s.after (.openEmitter 0 (.method firstMethodRef))
  let s := s.after (.request 0 (.emit .ldfld (.field firstFieldRef)))
  s.after (.finish 0)

/-- The type of the field has a row, and so has the field. -/
theorem references_closed_fieldRead :
    ((∃ (k : Nat) (row : TypeRefRow), fieldRead.module.imports.typeRefs[k]? = some row ∧
        row.identity = firstFieldRef.type.identity) ∨
      ∃ (k : Nat) (row : TypeSpecRow), fieldRead.module.imports.typeSpecs[k]? = some row ∧
        row.identity = firstFieldRef.type.identity) ∧
    ∃ body i, fieldRead.module.bodyAt 0 = some body ∧ i ∈ body.instructions ∧
      i.argument = .token (.fieldDef 0) ∧ fieldRead.module.HasRow (.fieldDef 0) := by
  have hs := ((((history_oneType.turn (.build (.field firstBuilder default "f" true false))
    (permits_firstBuilder rfl)).turn (.build (.method firstBuilder firstMethod))
    (permits_firstBuilder rfl)).turn (.openEmitter 0 (.method firstMethodRef)) trivial).turn
    (.request 0 (.emit .ldfld (.field firstFieldRef))) rfl).turn (.finish 0) rfl
  obtain ⟨htypes, -, htokens⟩ := references_closed hs
  have hfield : fieldRead.module.Refers (.type default) :=
    Or.inr (Or.inl ⟨_, Array.mem_of_getElem? (i := 0) rfl, List.mem_singleton_self _⟩)
  refine ⟨(htypes default hfield).resolve_left nofun, _, _, rfl,
    Array.mem_of_getElem? (i := 0) rfl, rfl, ?_⟩
  refine htokens ?_ 0 _ rfl _ (Array.mem_of_getElem? (i := 0) rfl) _ rfl
  intro turn hturn k op x haction i hi token _
  simp only [List.nil_append, List.cons_append, List.mem_cons, List.not_mem_nil, or_false] at hturn
  rcases hturn with rfl | rfl | rfl | rfl | rfl | rfl <;> cases haction
  obtain rfl := List.mem_singleton.mp hi
  exact List.mem_cons_of_mem _ List.mem_cons_self

end MarkupLowering
