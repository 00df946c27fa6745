import MarkupLowering.Proofs.Lowering.Plan
import MarkupLowering.Proofs.Lowering.Simulation

/-!
# MarkupLowering.Proofs.Lowering.Progress

**How far a plan gets.** A plan is a list of steps (`Plan.steps`): nodes that are dispatched, acts,
and refusals. Carrying it out does these steps in order, with nothing else in between than captures
and the end of nodes (`Silent`); where it fails, the steps before the failing one were done
(`Node.takes_lower`).

* `Carries` is what a tree that lowers leaves behind, `Stops` what one that fails does. Invariants
  of lowering follow by induction along the steps, with no look at nodes.
* `Act.perform_inv`: what a single act does, said here once. It asks for its instructions
  (`Act.code`), and the first store to a compiler local for a slot as well.
* `Act.perform_error`: why a single act fails, where compiler locals have the slots that their first
  store defined (`LowerState.Backed`). It leaves the state as it was (`Act.atomic_perform`).
-/

namespace MarkupLowering

open Emission LowerM

/-! ### Steps -/

/-- A step of a plan. The end of a node is none: it undoes what `enter` did to the ancestors, and
nothing can fail in it. -/
inductive Step
  /-- A node is dispatched. -/
  | enter (n : Node Empty)
  | act (a : Act)
  /-- The node finds that what it was given breaks the contract of the stack. -/
  | refuse (n : Node Empty) (b : Breach)

/-- The steps of a plan, in order. -/
def Plan.steps : Plan → List Step
  | .nothing => []
  | .act a => [.act a]
  | .refuse n b => [.refuse n b]
  | .seq p q => p.steps ++ q.steps
  | .scoped n p => .enter n :: p.steps

/-- What happens between steps: captures begin and end, and nodes are left. -/
structure Silent (s s' : LowerState Empty) : Prop where
  code : s.emission.emitter.SameCode s'.emission.emitter
  /-- No instruction is among the requests. -/
  script : ∃ rs, Request.script rs s.emission = .ok () s'.emission ∧ emitted rs = []
  /-- Of the context only the ancestors may differ. -/
  context : s'.context = { s.context with ancestors := s'.context.ancestors }

namespace Silent

variable {s s₁ s₂ : LowerState Empty}

theorem refl (s : LowerState Empty) : Silent s s := ⟨rfl, ⟨[], rfl, rfl⟩, rfl⟩

theorem trans (h : Silent s s₁) (h' : Silent s₁ s₂) : Silent s s₂ := by
  obtain ⟨rs, hrs, hnone⟩ := h.script
  obtain ⟨rs', hrs', hnone'⟩ := h'.script
  refine ⟨h.code.trans h'.code, ⟨rs ++ rs', Request.script_append hrs hrs', ?_⟩, ?_⟩
  · rw [emitted_append, hnone, hnone']
    rfl
  · rw [h'.context, h.context]

theorem leave (s : LowerState Empty) : Silent s { s with context := s.context.leave } :=
  ⟨rfl, ⟨[], rfl, rfl⟩, rfl⟩

theorem beginCapture (s : LowerState Empty) (file : SourceFile) (line : Position) :
    Silent s { s with emission := (s.emission.beginCapture file line).2 } :=
  ⟨Emitter.sameCode_beginCapture _ _ _, ⟨[.beginCapture file line], rfl, rfl⟩, rfl⟩

theorem endCapture (s : LowerState Empty) (id : Option Nat) :
    Silent s { s with emission := s.emission.endCapture id } := by
  cases id with
  | none => exact refl s
  | some id => exact ⟨Emitter.sameCode_endCapture _ _, ⟨[.endCapture id], rfl, rfl⟩, rfl⟩

end Silent

/-- Steps were carried out, from one state to another. What is silent may come before any of them
and after the last, so that a capture or the end of a node needs no place of its own in the list. -/
inductive Carries : LowerState Empty → List Step → LowerState Empty → Prop
  | nil (s : LowerState Empty) : Carries s [] s
  | enter {s s' : LowerState Empty} {steps : List Step} (n : Node Empty) :
      Carries { s with context := s.context.enter n } steps s' → Carries s (.enter n :: steps) s'
  | act {s s₁ s' : LowerState Empty} {steps : List Step} {a : Act} :
      a.perform s = .ok () s₁ → Carries s₁ steps s' → Carries s (.act a :: steps) s'
  | silent {s s₁ s' : LowerState Empty} {steps : List Step} :
      Silent s s₁ → Carries s₁ steps s' → Carries s steps s'

theorem Carries.trans {s s₁ s₂ : LowerState Empty} {steps steps' : List Step}
    (h : Carries s steps s₁) (h' : Carries s₁ steps' s₂) : Carries s (steps ++ steps') s₂ := by
  induction h with
  | nil => exact h'
  | enter n _ ih => exact .enter n (ih h')
  | act ha _ ih => exact .act ha (ih h')
  | silent hs _ ih => exact .silent hs (ih h')

theorem Carries.andSilent {s s₁ s₂ : LowerState Empty} {steps : List Step}
    (h : Carries s steps s₁) (h' : Silent s₁ s₂) : Carries s steps s₂ := by
  have hboth := h.trans (.silent h' (.nil s₂))
  rwa [List.append_nil] at hboth

/-- A step fails. Dispatching a node never does. -/
inductive Step.Fails : Step → LowerState Empty → EmitError → LowerState Empty → Prop
  | act {a : Act} {s s' : LowerState Empty} {e : EmitError} : a.perform s = .error e s' →
      Fails (.act a) s e s'
  | refuse (n : Node Empty) (b : Breach) (s : LowerState Empty) :
      Fails (.refuse n b) s (.stackContract n.name n.line b) s

/-- Some steps were carried out, and the next one failed. What is silent afterwards are the captures
and nodes that are left on the way out. -/
inductive Stops (s : LowerState Empty) (steps : List Step) (e : EmitError) (s' : LowerState Empty) :
    Prop
  | intro (done rest : List Step) (next : Step) (s₁ s₂ : LowerState Empty)
      (split : steps = done ++ next :: rest) (carries : Carries s done s₁)
      (fails : next.Fails s₁ e s₂) (silent : Silent s₂ s')

namespace Stops

variable {s s₁ s' s'' : LowerState Empty} {steps steps' : List Step} {e : EmitError}

/-- What was carried out before is done as well. -/
theorem after (h : Stops s₁ steps e s') (hbefore : Carries s steps' s₁) :
    Stops s (steps' ++ steps) e s' := by
  obtain ⟨done, rest, next, s₂, s₃, rfl, hcarries, hfails, hsilent⟩ := h
  exact ⟨steps' ++ done, rest, next, s₂, s₃, by rw [List.append_assoc], hbefore.trans hcarries,
    hfails, hsilent⟩

/-- The steps that would have come next make no difference. -/
theorem before (h : Stops s steps e s') (steps' : List Step) : Stops s (steps ++ steps') e s' := by
  obtain ⟨done, rest, next, s₂, s₃, rfl, hcarries, hfails, hsilent⟩ := h
  exact ⟨done, rest ++ steps', next, s₂, s₃, by simp, hcarries, hfails, hsilent⟩

theorem andSilent (h : Stops s steps e s') (h' : Silent s' s'') : Stops s steps e s'' := by
  obtain ⟨done, rest, next, s₂, s₃, hsplit, hcarries, hfails, hsilent⟩ := h
  exact ⟨done, rest, next, s₂, s₃, hsplit, hcarries, hfails, hsilent.trans h'⟩

end Stops

/-- A result of carrying steps out: all were done, or one failed. -/
def Arrives {α : Type} (s : LowerState Empty) (steps : List Step) :
    EStateM.Result EmitError (LowerState Empty) α → Prop
  | .ok _ s' => Carries s steps s'
  | .error e s' => Stops s steps e s'

/-- The code carries steps out, up to the first that fails. -/
def Takes {α : Type} (steps : List Step) (code : LowerM Empty α) : Prop :=
  ∀ s, Arrives s steps (code s)

theorem Arrives.afterSilent {α : Type} {s s₁ : LowerState Empty} {steps : List Step}
    {r : EStateM.Result EmitError (LowerState Empty) α} (h : Arrives s₁ steps r)
    (hsilent : Silent s s₁) : Arrives s steps r := by
  cases r with
  | ok a s' => exact .silent hsilent h
  | error e s' =>
    have hbefore : Carries s [] s₁ := .silent hsilent (.nil s₁)
    exact Stops.after h hbefore

/-- What is silent afterwards, however the code ends. -/
theorem Arrives.andThen {α : Type} {s : LowerState Empty} {steps : List Step}
    {code : LowerM Empty α} {f : LowerState Empty → LowerState Empty}
    (h : Arrives s steps (code s)) (hf : ∀ s, Silent s (f s)) :
    Arrives s steps (andThen code f s) := by
  unfold LowerM.andThen
  cases hcode : code s with
  | ok a s' =>
    rw [hcode] at h
    exact Carries.andSilent h (hf s')
  | error e s' =>
    rw [hcode] at h
    exact Stops.andSilent h (hf s')

namespace Takes

variable {α β : Type} {steps steps' : List Step}

protected theorem pure (a : α) : Takes [] (Pure.pure a : LowerM Empty α) := fun s => .nil s

protected theorem act (a : Act) : Takes [.act a] a.perform := by
  intro s
  cases ha : a.perform s with
  | ok u s' => exact .act ha (.nil s')
  | error e s' => exact ⟨[], [], .act a, s, s', rfl, .nil s, .act ha, .refl s'⟩

protected theorem refuse (n : Node Empty) (b : Breach) :
    Takes [.refuse n b] (breach n b : LowerM Empty α) := fun s =>
  ⟨[], [], .refuse n b, s, s, rfl, .nil s, .refuse n b s, .refl s⟩

/-- Code in sequence takes the steps of the first part, then those of the second. -/
theorem bind {code : LowerM Empty α} {next : α → LowerM Empty β} (h : Takes steps code)
    (hnext : ∀ a, Takes steps' (next a)) : Takes (steps ++ steps') (code >>= next) := by
  intro s
  have hfirst := h s
  simp only [Bind.bind, EStateM.bind]
  cases hcode : code s with
  | error e s₁ =>
    rw [hcode] at hfirst
    exact Stops.before hfirst steps'
  | ok a s₁ =>
    rw [hcode] at hfirst
    have hsecond := hnext a s₁
    dsimp only
    cases hrest : next a s₁ with
    | ok b s₂ =>
      rw [hrest] at hsecond
      exact Carries.trans hfirst hsecond
    | error e s₂ =>
      rw [hrest] at hsecond
      exact Stops.after hsecond hfirst

/-- A capture takes no step of its own, whether it yields a sequence point or not. -/
theorem captured (line : Position) {code : LowerM Empty α} (h : Takes steps code) :
    Takes steps (captured line code) := by
  intro s
  unfold LowerM.captured
  cases s.context.file with
  | none => exact h s
  | some file =>
    dsimp only
    by_cases hline : line.isSynthetic = true
    · rw [if_pos hline]
      exact h s
    · rw [if_neg hline]
      have hin := (h { s with emission := (s.emission.beginCapture file line).2 }).andThen
        fun s' => Silent.endCapture s' (s.emission.beginCapture file line).1
      exact hin.afterSilent (.beginCapture s file line)

/-- Dispatching a node is the one step before those of its code. -/
theorem dispatch (n : Node Empty) {code : LowerM Empty α} (h : Takes steps code) :
    Takes (.enter n :: steps) (dispatch n code) := by
  intro s
  -- The node is left on both exits, so what the code arrived at only changes in its ancestors.
  have hin := (captured n.line h { s with context := s.context.enter n }).andThen Silent.leave
  unfold LowerM.dispatch
  cases hcode : LowerM.andThen (LowerM.captured n.line code)
      (fun s => { s with context := s.context.leave }) { s with context := s.context.enter n } with
  | ok a s' =>
    rw [hcode] at hin
    exact .enter n hin
  | error e s' =>
    rw [hcode] at hin
    have hbefore : Carries s [.enter n] { s with context := s.context.enter n } :=
      .enter n (.nil _)
    exact Stops.after hin hbefore

end Takes

/-- Carrying a plan out takes its steps. -/
theorem Plan.takes_perform : ∀ p : Plan, Takes p.steps p.perform
  | .nothing => .pure ()
  | .act a => .act a
  | .refuse n b => .refuse n b
  | .seq p q => (takes_perform p).bind fun _ => takes_perform q
  | .scoped n p => (takes_perform p).dispatch n

/-- Lowering a tree takes the steps of its plan. -/
theorem Node.takes_lower (env : Environment) (n : Node Empty) (expected : Option TypeRef) :
    Takes (n.plan env expected).steps (n.lower env expected) := by
  rw [n.lower_eq_perform env expected]
  have htakes := (n.plan env expected).takes_perform.bind
    fun _ => Takes.pure (n.effect expected)
  rwa [List.append_nil] at htakes

/-! ### Instructions that are never refused -/

/-- Operands that are never refused: none, or one that becomes a token. -/
def OperandType.takesAny : OperandType → Operand → Bool
  | .none, .none | .string, .string _ | .field, .field _ | .method, .method _
  | .method, .constructor _ | .type, .type _ => true
  | _, _ => false

/-- Such an operand fails no check: it has no short form to fit in, and a token is always found. -/
theorem Emission.total_emit {op : Opcode} {x : Operand} (h : op.operandType.takesAny x = true) :
    Total (emit op x) := by
  intro s e s'
  unfold Emission.emit Emission.resolve overflow? reduce
  generalize op.operandType = t at h
  cases t <;> cases x <;> first | contradiction | exact nofun

/-- An instruction that wants a slot and is given one succeeds exactly if the slot is one of the
emitter's. -/
theorem Emission.emit_slot {op : Opcode} (hop : op.operandType = .slot) (slot : Slot)
    (s : Emission) :
    emit op (.slot slot) s = match s.emitter.slotOf slot with
      | .ok a => .ok () { s with emitter := s.emitter.append ⟨op, .ready a⟩ }
      | .error e => .error e s := by
  have hfits : overflow? op (.slot slot) = none := by
    simp [overflow?, Operand.shortValue?, hop, OperandType.fitsShort]
  unfold Emission.emit Emission.resolve
  rw [hfits]
  unfold reduce
  rw [hop]
  simp only [Bind.bind, EStateM.bind, known]
  cases s.emitter.slotOf slot <;> rfl

/-- A slot that has the type it was defined with is accepted. -/
theorem Emitter.slotOf_of_mem {e : Emitter} {slot : Slot}
    (h : e.locals[slot.index.toNat]? = some slot.type) :
    e.slotOf slot = .ok (.slot slot.index) := by
  unfold Emitter.slotOf
  rw [h]
  exact if_pos (BEq.refl slot.type)

theorem Emitter.slotOf_error {e : Emitter} {slot : Slot} {err : EmitError}
    (h : e.slotOf slot = .error err) :
    err = .localOutOfRange slot.index.toNat e.locals.size := by
  unfold Emitter.slotOf at h
  split at h
  · split at h
    · cases h
    · cases h
      rfl
  · cases h
    rfl

theorem Emission.takesAny_callOpcode (m : MethodRef) :
    (callOpcode m).operandType.takesAny (.method m) = true := by
  unfold callOpcode
  split <;> rfl

theorem toNat_toUInt16_of_lt {n : Nat} (h : n < maxLocals) : n.toUInt16.toNat = n := by
  rw [Nat.toUInt16, UInt16.toNat_ofNat']
  exact Nat.mod_eq_of_lt h

/-! ### What an act does -/

/-- The instructions of an act. The slots are those of a context, the one after the act. -/
def Act.code (c : Context Empty) : Act → List (Opcode × Operand)
  | .text _ s => [(.ldstr, .string s)]
  | .load l _ => (c.slot? l).toList.map fun slot => (.ldloc, .slot slot)
  | .store l => (c.slot? l).toList.map fun slot => (.stloc, .slot slot)
  | .context _ => c.contextLocal.toList.map fun slot => (.ldloc, .slot slot)
  | .copy => [(.dup, .none)]
  | .drop => [(.pop, .none)]
  | .create r => [(.newobj, .constructor r)]
  | .assign _ setter => [(callOpcode setter, .method setter)]
  | .hook m => [(.dup, .none), (callOpcode m, .method m)]
  | .box type => [(.box, .type type)]
  | .convert target => [(if target.isValueType then .unboxAny else .castclass, .type target)]
  | .verify _ _ => []

/-- The instruction of an act that is a single one with an operand that is never refused. -/
def Act.instruction? : Act → Option (Opcode × Operand)
  | .text _ s => some (.ldstr, .string s)
  | .copy => some (.dup, .none)
  | .drop => some (.pop, .none)
  | .create r => some (.newobj, .constructor r)
  | .assign _ setter => some (callOpcode setter, .method setter)
  | .box type => some (.box, .type type)
  | .convert target => some (if target.isValueType then .unboxAny else .castclass, .type target)
  | _ => none

/-- Whether an act reads or writes a slot. -/
def Act.usesSlot : Act → Bool
  | .load .. | .store _ | .context _ => true
  | _ => false

section SingleInstruction

/-! Most acts are one instruction that is never refused. What follows is said of them together; only
loads, stores, the context and the hook need a case of their own below. -/

variable {a : Act} {op : Opcode} {x : Operand} (h : a.instruction? = some (op, x))

include h

theorem Act.perform_single : a.perform = emitting (emit op x) := by
  cases a with
  | convert target =>
    cases h
    rw [Act.perform, MarkupLowering.convert]
    split <;> rfl
  | text | copy | drop | create | assign | box =>
    cases h
    rfl
  | load | store | context | hook | verify => cases h

theorem Act.takesAny_single : op.operandType.takesAny x = true := by
  cases a with
  | assign property setter =>
    cases h
    exact takesAny_callOpcode setter
  | convert target =>
    cases h
    split <;> rfl
  | text | copy | drop | create | box =>
    cases h
    rfl
  | load | store | context | hook | verify => cases h

theorem Act.code_single (c : Context Empty) : a.code c = [(op, x)] := by
  cases a <;> cases h <;> rfl

theorem Act.usesSlot_single : a.usesSlot = false := by
  cases a <;> cases h <;> rfl

end SingleInstruction

/-- A compiler local was given the next slot. -/
structure Allots (l : CompilerLocal) (s s' : LowerState Empty) : Prop where
  unknown : s.context.slot? l = none
  room : s.emission.emitter.locals.size < maxLocals
  slots : s'.context.slots =
    (l.id, ⟨s.emission.emitter.locals.size.toUInt16, l.type⟩) :: s.context.slots
  locals : s'.emission.emitter.locals = s.emission.emitter.locals.push l.type

namespace Allots

variable {l l' : CompilerLocal} {s s' : LowerState Empty}

theorem slot?_self (h : Allots l s s') (hid : l'.id = l.id) :
    s'.context.slot? l' = some ⟨s.emission.emitter.locals.size.toUInt16, l.type⟩ := by
  rw [Context.slot?, h.slots, hid]
  exact List.lookup_cons_self

theorem slot?_other (h : Allots l s s') (hid : l'.id ≠ l.id) :
    s'.context.slot? l' = s.context.slot? l' := by
  rw [Context.slot?, h.slots, List.lookup_cons, beq_eq_false_iff_ne.mpr hid]
  rfl

/-- What had a slot has the same one. -/
theorem slot?_mono (h : Allots l s s') {slot : Slot} (hl' : s.context.slot? l' = some slot) :
    s'.context.slot? l' = some slot := by
  have hid : l'.id ≠ l.id := fun hid => by
    rw [Context.slot?, hid] at hl'
    exact absurd (h.unknown.symm.trans hl') nofun
  rw [h.slot?_other hid, hl']

end Allots

/-- Slots are as they were. -/
structure KeepsLocals (s s' : LowerState Empty) : Prop where
  slots : s'.context.slots = s.context.slots
  locals : s'.emission.emitter.locals = s.emission.emitter.locals

theorem KeepsLocals.slot? {s s' : LowerState Empty} (h : KeepsLocals s s') (l : CompilerLocal) :
    s'.context.slot? l = s.context.slot? l := by
  rw [Context.slot?, h.slots]
  rfl

/-- How an act changes the slots: the first store to a local gives it one, and nothing else does. -/
inductive Act.Alters (s s' : LowerState Empty) : Act → Prop
  | load {l : CompilerLocal} {line : Position} {slot : Slot} : s.context.slot? l = some slot →
      KeepsLocals s s' → Alters s s' (.load l line)
  | store {l : CompilerLocal} {slot : Slot} : s.context.slot? l = some slot → KeepsLocals s s' →
      Alters s s' (.store l)
  | allot {l : CompilerLocal} : Allots l s s' → Alters s s' (.store l)
  | context {line : Position} {slot : Slot} : s.context.contextLocal = some slot →
      KeepsLocals s s' → Alters s s' (.context line)
  | other {a : Act} : a.usesSlot = false → KeepsLocals s s' → Alters s s' a

/-- What an act does that succeeds. -/
structure Act.Done (a : Act) (s s' : LowerState Empty) : Prop where
  script : ∃ rs, Request.script rs s.emission = .ok () s'.emission ∧ emitted rs = a.code s'.context
  context : s'.context = { s.context with slots := s'.context.slots
                                          parentsVerified := s'.context.parentsVerified }
  alters : a.Alters s s'

/-- A compiler local has a slot already, or it is defined and remembered. -/
theorem LowerM.slotFor_cases {l : CompilerLocal} {s s' : LowerState Empty} {slot : Slot}
    (h : slotFor l s = .ok slot s') :
    (s.context.slot? l = some slot ∧ s' = s) ∨
    ∃ emission, s.context.slot? l = none ∧ defineLocal l.type s.emission = .ok slot emission ∧
      s' = ⟨emission, { s.context with slots := (l.id, slot) :: s.context.slots }⟩ := by
  unfold slotFor at h
  rw [get_bind] at h
  cases hl : s.context.slot? l with
  | some found =>
    rw [hl] at h
    obtain ⟨rfl, rfl⟩ := pure_inv h
    exact Or.inl ⟨rfl, rfl⟩
  | none =>
    rw [hl] at h
    obtain ⟨slot', s₁, hdefine, h⟩ := bind_inv h
    obtain ⟨emission, hlocal, rfl⟩ := emitting_inv hdefine
    rw [modify_bind] at h
    obtain ⟨rfl, rfl⟩ := pure_inv h
    exact Or.inr ⟨emission, rfl, hlocal, rfl⟩

theorem LowerM.emitting_emit_inv {op : Opcode} {x : Operand} {s s' : LowerState Empty}
    (h : emitting (emit op x) s = .ok () s') :
    KeepsLocals s s' ∧ s'.context = s.context ∧
      Request.script [.emit op x] s.emission = .ok () s'.emission := by
  obtain ⟨emission, hemit, rfl⟩ := emitting_inv h
  obtain ⟨p, -, -, hs⟩ := Emission.emit_inv hemit
  exact ⟨⟨rfl, by rw [hs]; rfl⟩, rfl, Request.script_single (r := .emit op x) hemit⟩

namespace Act

variable {s s' : LowerState Empty} {a : Act}

theorem done_single {op : Opcode} {x : Operand} (ha : a.instruction? = some (op, x))
    (h : a.perform s = .ok () s') : a.Done s s' := by
  rw [perform_single ha] at h
  obtain ⟨hkeeps, hcontext, hscript⟩ := emitting_emit_inv h
  refine ⟨⟨[.emit op x], hscript, (code_single ha _).symm⟩, ?_, .other (usesSlot_single ha) hkeeps⟩
  rw [hcontext]

/-- A store asks for `stloc`, and where it is the first to its local, for the slot before it. The
code of the act is read in the context afterwards, where the slot is known in both cases. -/
theorem done_store {l : CompilerLocal} (h : storeLocal l s = .ok () s') :
    (Act.store l).Done s s' := by
  obtain ⟨slot, s₁, hslot, hstore⟩ := bind_inv h
  obtain ⟨hkeeps, hcontext, hscript⟩ := emitting_emit_inv hstore
  rcases slotFor_cases hslot with ⟨hfound, rfl⟩ | ⟨emission, hnone, hdefine, rfl⟩
  · refine ⟨⟨_, hscript, ?_⟩, by rw [hcontext], .store hfound hkeeps⟩
    rw [Act.code, hcontext, hfound]
    rfl
  · obtain ⟨hroom, rfl, he⟩ := Emission.defineLocal_inv hdefine
    have hrequest : (Request.defineLocal l.type).perform s.emission = .ok () emission := by
      simp only [Request.perform, Bind.bind, EStateM.bind, hdefine]
      rfl
    have hfound : s'.context.slot? l =
        some ⟨s.emission.emitter.locals.size.toUInt16, l.type⟩ := by
      rw [hcontext]
      exact List.lookup_cons_self
    refine ⟨⟨_, Request.script_append (Request.script_single hrequest) hscript, ?_⟩, ?_, ?_⟩
    · rw [Act.code, hfound]
      rfl
    · rw [hcontext]
    · exact .allot ⟨hnone, hroom, by rw [hcontext], by rw [hkeeps.locals, he]⟩

/-- What an act does: it asks for its instructions, and a first store for a slot as well. -/
theorem perform_inv (h : a.perform s = .ok () s') : a.Done s s' := by
  cases a with
  | text | copy | drop | create | assign | box | convert => exact done_single rfl h
  | load l line =>
    rw [perform, LowerM.loadLocal, get_bind] at h
    cases hl : s.context.slot? l with
    | none =>
      rw [hl] at h
      cases h
    | some slot =>
      rw [hl] at h
      obtain ⟨hkeeps, hcontext, hscript⟩ := emitting_emit_inv h
      refine ⟨⟨_, hscript, ?_⟩, by rw [hcontext], .load hl hkeeps⟩
      rw [Act.code, hcontext, hl]
      rfl
  | store l => exact done_store h
  | context line =>
    rw [perform, loadContext, get_bind] at h
    cases hl : s.context.contextLocal with
    | none =>
      rw [hl] at h
      cases h
    | some slot =>
      rw [hl] at h
      obtain ⟨hkeeps, hcontext, hscript⟩ := emitting_emit_inv h
      refine ⟨⟨_, hscript, ?_⟩, by rw [hcontext], .context hl hkeeps⟩
      rw [Act.code, hcontext, hl]
      rfl
  | hook m =>
    obtain ⟨_, s₁, hdup, hcall⟩ := bind_inv h
    obtain ⟨hkeeps, hcontext, hscript⟩ := emitting_emit_inv hdup
    obtain ⟨hkeeps', hcontext', hscript'⟩ := emitting_emit_inv hcall
    refine ⟨⟨_, Request.script_append hscript hscript', rfl⟩, by rw [hcontext', hcontext],
      .other rfl ⟨hkeeps'.slots.trans hkeeps.slots, hkeeps'.locals.trans hkeeps.locals⟩⟩
  | verify name line =>
    rw [perform, LowerM.verifyParents, get_bind] at h
    dsimp only at h
    split at h
    · obtain ⟨-, rfl⟩ := pure_inv h
      exact ⟨⟨[], rfl, rfl⟩, rfl, .other rfl ⟨rfl, rfl⟩⟩
    · split at h
      · cases h
      · cases h
        exact ⟨⟨[], rfl, rfl⟩, rfl, .other rfl ⟨rfl, rfl⟩⟩

end Act

/-! ### Why an act fails -/

/-- Compiler locals have the slots that their first store defined. -/
def LowerState.Backed (s : LowerState Empty) : Prop :=
  ∀ l slot, s.context.slot? l = some slot →
    s.emission.emitter.locals[slot.index.toNat]? = some slot.type

/-- Why an act fails, where compiler locals have their slots. -/
inductive Act.Hindered (s : LowerState Empty) : Act → EmitError → Prop
  | load {l : CompilerLocal} {line : Position} : s.context.slot? l = none →
      Hindered s (.load l line) (.uninitializedLocal line)
  | store {l : CompilerLocal} : s.context.slot? l = none →
      maxLocals ≤ s.emission.emitter.locals.size →
      Hindered s (.store l) (.invalidDefinition (.tooManyLocals s.emission.emitter.method))
  | noContext {line : Position} : s.context.contextLocal = none →
      Hindered s (.context line) (.missingContextLocal line)
  | context {line : Position} {slot : Slot} {e : EmitError} :
      s.context.contextLocal = some slot → s.emission.emitter.slotOf slot = .error e →
      Hindered s (.context line) e
  | verify {name : String} {line : Position} :
      Hindered s (.verify name line) (.missingParentStack name line)

theorem LowerM.atomic_emitting {α : Type} {step : EmitM α} (h : Atomic step) :
    Atomic (emitting step : LowerM Empty α) := by
  intro s e s' hstep
  unfold LowerM.emitting at hstep
  cases hs : step s.emission with
  | ok a emission =>
    rw [hs] at hstep
    cases hstep
  | error err emission =>
    rw [hs] at hstep
    cases hstep
    rw [h _ _ _ hs]

theorem LowerM.total_emitting {α : Type} {step : EmitM α} (h : Total step) :
    Total (emitting step : LowerM Empty α) := by
  intro s e s' hstep
  unfold LowerM.emitting at hstep
  cases hs : step s.emission with
  | ok a emission =>
    rw [hs] at hstep
    cases hstep
  | error err emission => exact h _ _ _ hs

theorem LowerM.emitting_slot_error {op : Opcode} {slot : Slot} {s s' : LowerState Empty}
    {e : EmitError} (hop : op.operandType = .slot)
    (h : emitting (emit op (.slot slot)) s = .error e s') :
    s.emission.emitter.slotOf slot = .error e := by
  unfold LowerM.emitting at h
  rw [emit_slot hop] at h
  cases hslot : s.emission.emitter.slotOf slot with
  | ok a =>
    rw [hslot] at h
    cases h
  | error err =>
    rw [hslot] at h
    cases h
    rfl

/-- A slot is refused only where the emitter has no more room. -/
theorem LowerM.slotFor_error {l : CompilerLocal} {s s' : LowerState Empty} {e : EmitError}
    (h : slotFor l s = .error e s') :
    s.context.slot? l = none ∧ maxLocals ≤ s.emission.emitter.locals.size ∧ s' = s ∧
      e = .invalidDefinition (.tooManyLocals s.emission.emitter.method) := by
  rw [slotFor, get_bind] at h
  cases hl : s.context.slot? l with
  | some found =>
    rw [hl] at h
    cases h
  | none =>
    rw [hl] at h
    rcases bind_error h with hdefine | ⟨slot, s₁, -, hrest⟩
    · unfold LowerM.emitting Emission.defineLocal at hdefine
      dsimp only at hdefine
      split at hdefine <;> rename_i hstep <;> split at hstep <;> cases hstep
      · cases hdefine
      · rename_i hfull
        cases hdefine
        exact ⟨rfl, Nat.le_of_not_lt hfull, rfl, rfl⟩
    · cases hrest

/-- A store fails for want of a slot, or because the slot of the local is refused. One that was just
defined is not. -/
theorem LowerM.storeLocal_error {l : CompilerLocal} {s s' : LowerState Empty} {e : EmitError}
    (h : storeLocal l s = .error e s') :
    s' = s ∧ ((∃ slot, s.context.slot? l = some slot ∧ s.emission.emitter.slotOf slot = .error e) ∨
      s.context.slot? l = none ∧ maxLocals ≤ s.emission.emitter.locals.size ∧
        e = .invalidDefinition (.tooManyLocals s.emission.emitter.method)) := by
  rcases bind_error h with hslot | ⟨slot, s₁, hslot, hstore⟩
  · obtain ⟨hnone, hfull, rfl, rfl⟩ := slotFor_error hslot
    exact ⟨rfl, Or.inr ⟨hnone, hfull, rfl⟩⟩
  · have hrefused := emitting_slot_error rfl hstore
    obtain rfl := atomic_emitting (atomic_emit _ _) _ _ _ hstore
    rcases slotFor_cases hslot with ⟨hfound, rfl⟩ | ⟨emission, -, hdefine, rfl⟩
    · exact ⟨rfl, Or.inl ⟨slot, hfound, hrefused⟩⟩
    · obtain ⟨hroom, rfl, he⟩ := Emission.defineLocal_inv hdefine
      have hindex := toNat_toUInt16_of_lt hroom
      rw [Emitter.slotOf_of_mem (by simp [he, hindex])] at hrefused
      cases hrefused

namespace Act

variable {s s' : LowerState Empty} {e : EmitError}

theorem total_single {a : Act} {op : Opcode} {x : Operand} (h : a.instruction? = some (op, x)) :
    Total a.perform := by
  rw [perform_single h]
  exact total_emitting (total_emit (takesAny_single h))

theorem total_hook (m : MethodRef) : Total (Act.hook m).perform :=
  (total_emitting (total_emit rfl)).bind fun _ =>
    total_emitting (total_emit (takesAny_callOpcode m))

/-- An act that fails changes nothing. -/
theorem atomic_perform (a : Act) : Atomic a.perform := by
  cases a with
  | text | copy | drop | create | assign | box | convert => exact (total_single rfl).atomic
  | hook m => exact (total_hook m).atomic
  | store l => exact fun s e s' h => (storeLocal_error h).1
  | load l line =>
    refine total_get.atomic.bind_of_pure (fun s a s' h => by cases h; rfl) fun s => ?_
    cases s.context.slot? l with
    | none => exact atomic_throw _
    | some slot => exact atomic_emitting (atomic_emit _ _)
  | context line =>
    refine total_get.atomic.bind_of_pure (fun s a s' h => by cases h; rfl) fun s => ?_
    cases s.context.contextLocal with
    | none => exact atomic_throw _
    | some slot => exact atomic_emitting (atomic_emit _ _)
  | verify name line =>
    refine total_get.atomic.bind_of_pure (fun s a s' h => by cases h; rfl) fun s => ?_
    dsimp only
    split
    · exact atomic_pure _
    · split
      · exact atomic_throw _
      · exact (total_modify _).atomic

/-- Of the instructions only the load of the context local can be refused, where compiler locals
have their slots. -/
theorem perform_error {a : Act} (hbacked : s.Backed) (h : a.perform s = .error e s') :
    a.Hindered s e := by
  cases a with
  | text | copy | drop | create | assign | box | convert =>
    exact absurd h (total_single rfl s e s')
  | hook m => exact absurd h (total_hook m s e s')
  | load l line =>
    rw [perform, LowerM.loadLocal, get_bind] at h
    cases hl : s.context.slot? l with
    | none =>
      rw [hl] at h
      cases h
      exact .load hl
    | some slot =>
      rw [hl] at h
      have hrefused := emitting_slot_error rfl h
      rw [Emitter.slotOf_of_mem (hbacked l slot hl)] at hrefused
      cases hrefused
  | store l =>
    rcases (storeLocal_error h).2 with ⟨slot, hl, hrefused⟩ | ⟨hnone, hfull, rfl⟩
    · rw [Emitter.slotOf_of_mem (hbacked l slot hl)] at hrefused
      cases hrefused
    · exact .store hnone hfull
  | context line =>
    rw [perform, loadContext, get_bind] at h
    cases hl : s.context.contextLocal with
    | none =>
      rw [hl] at h
      cases h
      exact .noContext hl
    | some slot =>
      rw [hl] at h
      exact .context hl (emitting_slot_error rfl h)
  | verify name line =>
    rw [perform, LowerM.verifyParents, get_bind] at h
    dsimp only at h
    split at h
    · cases h
    · split at h
      · cases h
        exact .verify
      · cases h

end Act

/-- Why a step fails, where compiler locals have their slots. -/
inductive Step.Blocked (s : LowerState Empty) : Step → EmitError → Prop
  | act {a : Act} {e : EmitError} : a.Hindered s e → Blocked s (.act a) e
  | refuse (n : Node Empty) (b : Breach) :
      Blocked s (.refuse n b) (.stackContract n.name n.line b)

/-- What is silent leaves a reason to fail in place. -/
theorem Act.Hindered.andSilent {a : Act} {e : EmitError} {s s' : LowerState Empty}
    (h : a.Hindered s e) (hsilent : Silent s s') : a.Hindered s' e := by
  have hslots : s'.context.slots = s.context.slots := by rw [hsilent.context]
  have hlocal : s'.context.contextLocal = s.context.contextLocal := by rw [hsilent.context]
  have hlocals := hsilent.code.locals
  cases h with
  | load hl =>
    refine .load ?_
    rw [Context.slot?, hslots]
    exact hl
  | store hl hfull =>
    rw [← hsilent.code.owner.2]
    refine .store ?_ (by rw [hlocals]; exact hfull)
    rw [Context.slot?, hslots]
    exact hl
  | noContext hl => exact .noContext (by rw [hlocal, hl])
  | context hl hslot =>
    refine .context (by rw [hlocal, hl]) ?_
    unfold Emitter.slotOf at hslot ⊢
    rw [hlocals]
    exact hslot
  | verify => exact .verify

end MarkupLowering
