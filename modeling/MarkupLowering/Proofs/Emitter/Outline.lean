import MarkupLowering.Proofs.Emitter.Captures
import MarkupLowering.Proofs.Emitter.Code

/-!
# MarkupLowering.Proofs.Emitter.Outline

**What of an emitter does not depend on its module.** The outline of an emitter is the emitter
without its tokens, the digests of its documents and the row of its method.

Tokens are left out whole, table and number. The number depends on what was imported before, and the
table on which module it is: a method that one module defines is a member reference in another. An
outline still says which arguments are tokens, and what the others are.

Operations respect outlines: what an emitter answers, and the outline that it then has, are a
matter of its outline alone, whatever module it writes into (`Request.alike_answer`). So is the
outline of the finished body (`Emitter.outline_finishedBody`).
-/

namespace MarkupLowering

/-! ### Outlines -/

/-- An argument. Of a token it says only that it is one. -/
def Argument.outline : Argument → Argument
  | .token _ => .token default
  | a => a

def PendingArgument.outline : PendingArgument → PendingArgument
  | .ready a => .ready a.outline
  | .branch l => .branch l

def PendingInstruction.outline (i : PendingInstruction) : PendingInstruction :=
  { i with argument := i.argument.outline }

/-- A document, whatever its contents: the first file of its path decides about the digest, and
another module may have been given another one first. -/
def Document.outline (d : Document) : Document := { d with digest := [] }

def SequencePoint.outline (p : SequencePoint) : SequencePoint :=
  { p with document := p.document.outline }

def DebugInfo.outline (d : DebugInfo) : DebugInfo :=
  { d with points := d.points.map SequencePoint.outline }

def OpenCapture.outline (c : OpenCapture) : OpenCapture := { c with document := c.document.outline }

/-- An emitter, whatever module and row it writes into. Its labels, locals and the method that it
compiles stay as they are. -/
def Emitter.outline (e : Emitter) : Emitter :=
  { e with row := 0
           instructions := e.instructions.map PendingInstruction.outline
           debug := e.debug.outline
           openCaptures := e.openCaptures.map OpenCapture.outline }

def Instruction.outline (i : Instruction) : Instruction := { i with argument := i.argument.outline }

/-- A body without its tokens and the digests of its documents. -/
def Body.outline (b : Body) : Body :=
  { b with instructions := b.instructions.map Instruction.outline, debug := b.debug.outline }

theorem DebugInfo.outline_addPoint (d : DebugInfo) (p : SequencePoint) :
    (d.addPoint p).outline = d.outline.addPoint p.outline := by
  simp [outline, addPoint, SequencePoint.outline]

theorem DebugInfo.outline_sorted (d : DebugInfo) : d.sorted.outline = d.outline.sorted := by
  have hsort := List.map_mergeSort (f := SequencePoint.outline) (l := d.points)
    (r := fun p q => decide (p.instruction ≤ q.instruction))
    (s := fun p q => decide (p.instruction ≤ q.instruction)) (fun _ _ _ _ => rfl)
  simp only [outline, sorted, hsort]

/-! ### Operations of an emitter -/

namespace Emitter

variable (e : Emitter)

@[simp] theorem count_outline : e.outline.count = e.count := Array.size_map

theorem outline_append (i : PendingInstruction) :
    (e.append i).outline = e.outline.append i.outline := by
  simp [append, outline]

/-- Whether a capture yields a sequence point is a matter of instruction counts alone. -/
theorem outline_record (c : OpenCapture) : (e.record c).outline = e.outline.record c.outline := by
  rw [record_eq, record_eq, count_outline]
  by_cases h : c.start < e.count
  · have h' : c.outline.start < e.count := h
    rw [if_pos h, if_pos h']
    have hdebug := e.debug.outline_addPoint c.point
    simp only [outline, hdebug]
    rfl
  · have h' : ¬ c.outline.start < e.count := h
    rw [if_neg h, if_neg h']

theorem outline_endCapture (id : Nat) : (e.endCapture id).outline = e.outline.endCapture id := by
  have hfind : e.outline.openCaptures.find? (·.id == id) =
      (e.openCaptures.find? (·.id == id)).map OpenCapture.outline := List.find?_map
  have herase : e.outline.openCaptures.eraseP (·.id == id) =
      (e.openCaptures.eraseP (·.id == id)).map OpenCapture.outline := List.eraseP_map
  unfold endCapture
  rw [hfind]
  cases e.openCaptures.find? (·.id == id) with
  | none => rfl
  | some c =>
    rw [Option.map_some]
    dsimp only
    rw [outline_record, herase]
    rfl

theorem outline_endAllCaptures : e.endAllCaptures.outline = e.outline.endAllCaptures := by
  have hfold : ∀ (cs : List OpenCapture) (e : Emitter),
      (cs.foldr (fun c e => e.record c) e).outline =
        (cs.map OpenCapture.outline).foldr (fun c e => e.record c) e.outline := by
    intro cs e
    induction cs with
    | nil => rfl
    | cons c cs ih => rw [List.foldr_cons, outline_record, ih, List.map_cons, List.foldr_cons]
  exact hfold e.openCaptures { e with openCaptures := [] }

theorem outline_beginCapture (d : Document) (p : Position) :
    e.outline.beginCapture d.outline p =
      ((e.beginCapture d p).1, (e.beginCapture d p).2.outline) := by
  unfold beginCapture
  dsimp only
  rw [count_outline]
  by_cases h : e.lastStart = some e.count
  · have h' : e.outline.lastStart = some e.count := h
    rw [if_pos h, if_pos h']
  · have h' : ¬ e.outline.lastStart = some e.count := h
    rw [if_neg h, if_neg h']
    simp [outline, OpenCapture.outline]

/-! ### Finishing -/

/-- Offsets count the sizes of instructions, and those depend on the opcode only. -/
theorem offsetsFrom_outline (start : Nat) (is : List PendingInstruction) :
    offsetsFrom start (is.map PendingInstruction.outline) = offsetsFrom start is := by
  induction is generalizing start with
  | nil => rfl
  | cons i is ih =>
    rw [List.map_cons, offsetsFrom, offsetsFrom, ih]
    rfl

theorem codeSize_outline (is : List PendingInstruction) :
    codeSize (is.map PendingInstruction.outline) = codeSize is := by
  induction is with
  | nil => rfl
  | cons i is ih =>
    rw [List.map_cons, codeSize_cons, codeSize_cons, ih]
    rfl

/-- Branches are resolved by labels and offsets, which outlines keep. -/
theorem finishArgument_outline (labels : LabelTable) (offsets : Array Nat) (index offset : Nat)
    (i : PendingInstruction) :
    finishArgument labels offsets index offset i.outline =
      (finishArgument labels offsets index offset i).map Argument.outline := by
  obtain ⟨op, argument⟩ := i
  cases argument with
  | ready a => rfl
  | branch l =>
    change resolveBranch labels offsets index offset op l = Except.map _ (resolveBranch ..)
    unfold resolveBranch
    split
    · rfl
    · dsimp only
      split <;> rfl

theorem finishFrom_outline (labels : LabelTable) (offsets : Array Nat) (index offset : Nat)
    (done : Array Instruction) (is : List PendingInstruction) :
    finishFrom labels offsets index offset (done.map Instruction.outline)
        (is.map PendingInstruction.outline) =
      (finishFrom labels offsets index offset done is).map (Array.map Instruction.outline) := by
  induction is generalizing index offset done with
  | nil => rfl
  | cons i is ih =>
    rw [List.map_cons, finishFrom, finishFrom, finishArgument_outline]
    cases finishArgument labels offsets index offset i with
    | error err => rfl
    | ok a =>
      have hpush := ih (index + 1) (offset + i.opcode.encodedSize) (done.push ⟨offset, i.opcode, a⟩)
      rw [Array.map_push] at hpush
      exact hpush

end Emitter

/-- The outline of the finished body is a matter of the emitter's outline. -/
theorem Emitter.outline_finishedBody (e : Emitter) :
    e.outline.finishedBody = e.finishedBody.map Body.outline := by
  have hcode :
      e.outline.instructions.toList = e.instructions.toList.map PendingInstruction.outline :=
    Array.toList_map
  have hlabels : e.outline.labels = e.labels := rfl
  have hpass := finishFrom_outline e.labels.unbindStaged
    (offsetsFrom 0 e.instructions.toList).toArray 0 0 #[] e.instructions.toList
  rw [Array.map_empty] at hpass
  rw [finishedBody_eq, finishedBody_eq, hcode, offsetsFrom_outline, codeSize_outline, hlabels,
    hpass]
  cases finishFrom e.labels.unbindStaged (offsetsFrom 0 e.instructions.toList).toArray 0 0 #[]
    e.instructions.toList with
  | error err => rfl
  | ok instructions =>
    have hdebug : (endAllCaptures { e.outline with labels := e.labels.unbindStaged }).debug.sorted =
        (endAllCaptures { e with labels := e.labels.unbindStaged }).debug.sorted.outline := by
      rw [DebugInfo.outline_sorted]
      exact congrArg (fun e => e.debug.sorted)
        (outline_endAllCaptures { e with labels := e.labels.unbindStaged }).symm
    simp only [Except.map, hdebug]
    rfl

/-! ### Requests -/

/-- What of an emitter its outline keeps. -/
theorem Emitter.eq_of_outline {e e' : Emitter} (h : e.outline = e'.outline) :
    e.method = e'.method ∧ e.locals = e'.locals ∧ e.labels = e'.labels := by
  have hmethod := congrArg Emitter.method h
  have hlocals := congrArg Emitter.locals h
  have hlabels := congrArg Emitter.labels h
  exact ⟨hmethod, hlocals, hlabels⟩

/-- Two results that return related values, or the same error, and leave emitters of one outline. -/
def Result.Alike {α : Type} (R : α → α → Prop) :
    EStateM.Result EmitError Emission α → EStateM.Result EmitError Emission α → Prop
  | .ok a s, .ok b t => R a b ∧ s.emitter.outline = t.emitter.outline
  | .error err s, .error err' t => err = err' ∧ s.emitter.outline = t.emitter.outline
  | _, _ => False

/-- Two steps that end alike for emitters of one outline, whatever modules they write into. -/
def Alike {α : Type} (R : α → α → Prop) (step step' : EmitM α) : Prop :=
  ∀ s t : Emission, s.emitter.outline = t.emitter.outline → Result.Alike R (step s) (step' t)

namespace Alike

variable {α β : Type} {R : α → α → Prop} {Q : β → β → Prop} {step step' : EmitM α}

theorem pure {a b : α} (h : R a b) : Alike R (Pure.pure a) (Pure.pure b) := fun _ _ hst => ⟨h, hst⟩

theorem throw (err : EmitError) : Alike R (throw err) (throw err) := fun _ _ hst => ⟨rfl, hst⟩

/-- Steps in sequence end alike if the first ones do, and the next ones whatever related values they
are given. -/
theorem bind {next next' : α → EmitM β} (h : Alike R step step')
    (hnext : ∀ a b, R a b → Alike Q (next a) (next' b)) :
    Alike Q (step >>= next) (step' >>= next') := by
  intro s t hst
  have hfirst := h s t hst
  simp only [Bind.bind, EStateM.bind]
  cases hs : step s with
  | ok a s₁ =>
    cases ht : step' t with
    | ok b t₁ =>
      rw [hs, ht] at hfirst
      exact hnext a b hfirst.1 s₁ t₁ hfirst.2
    | error err t₁ =>
      rw [hs, ht] at hfirst
      exact hfirst.elim
  | error err s₁ =>
    cases ht : step' t with
    | ok b t₁ =>
      rw [hs, ht] at hfirst
      exact hfirst.elim
    | error err t₁ =>
      rw [hs, ht] at hfirst
      exact hfirst

/-- Steps that touch the emitter only. -/
theorem onEmitter {f f' : Emitter → α × Emitter}
    (h : ∀ e e', e.outline = e'.outline →
      R (f e).1 (f' e').1 ∧ (f e).2.outline = (f' e').2.outline) :
    Alike R (Emission.onEmitter f) (Emission.onEmitter f') :=
  fun s t hst => h s.emitter t.emitter hst

/-- Two modules may give one thing different tokens. Their outlines are the same. -/
theorem token (f : Module → Token × Module) :
    Alike (fun a b => a.outline = b.outline) (Emission.token f) (Emission.token f) :=
  fun _ _ hst => ⟨rfl, hst⟩

/-- What the emitter knows is part of its outline. -/
theorem known {f : Emitter → Except EmitError Argument} (hf : ∀ e : Emitter, f e = f e.outline) :
    Alike (fun a b => a.outline = b.outline) (Emission.known f) (Emission.known f) := by
  intro s t hst
  have hsame : f s.emitter = f t.emitter := by rw [hf s.emitter, hst, ← hf t.emitter]
  unfold Emission.known
  rw [hsame]
  cases f t.emitter with
  | ok a => exact ⟨rfl, hst⟩
  | error err => exact ⟨rfl, hst⟩

theorem branch (l : Label) :
    Alike (fun a b => a.outline = b.outline) (Emission.branch l) (Emission.branch l) := by
  intro s t hst
  obtain ⟨-, -, hlabels⟩ := Emitter.eq_of_outline hst
  unfold Emission.branch
  rw [hlabels]
  by_cases h : t.emitter.labels.knows l = true
  · rw [if_pos h, if_pos h]
    exact ⟨rfl, hst⟩
  · rw [if_neg h, if_neg h]
    exact ⟨rfl, hst⟩

/-- Two modules may reduce an operand to different tokens, and to the same in all else. -/
theorem reduction {is : List Import} {step : EmitM PendingArgument}
    (h : Emission.Reduction is step) : Alike (fun a b => a.outline = b.outline) step step := by
  cases h with
  | ready a => exact .pure rfl
  | token i => exact .token _
  | argument | slotAt | slotOf => exact .known fun _ => rfl
  | branch l => exact .branch l
  | refused _ err => exact .throw err

/-- The instructions that are appended may differ in their tokens, so the two emitters agree up to
outlines only, although what `emit` returns is the same. -/
theorem emit (op : Opcode) (x : Operand) :
    Alike Eq (Emission.emit op x) (Emission.emit op x) := by
  have hresolve : Alike (fun a b => a.outline = b.outline) (Emission.resolve op x)
      (Emission.resolve op x) := by
    unfold Emission.resolve
    split
    · exact .throw _
    · exact .reduction (Emission.reduction op x)
  refine hresolve.bind fun a b hab => .onEmitter fun e e' he => ⟨rfl, ?_⟩
  have hinstruction : PendingInstruction.outline ⟨op, a⟩ = PendingInstruction.outline ⟨op, b⟩ := by
    rw [PendingInstruction.outline, hab]
    rfl
  rw [Emitter.outline_append, Emitter.outline_append, he, hinstruction]

theorem defineLocal (type : TypeRef) :
    Alike Eq (Emission.defineLocal type) (Emission.defineLocal type) := by
  intro s t hst
  obtain ⟨hmethod, hlocals, -⟩ := Emitter.eq_of_outline hst
  unfold Emission.defineLocal
  dsimp only
  rw [hlocals]
  split
  · refine ⟨rfl, ?_⟩
    have hpush := congrArg
      (fun e : Emitter => { e with locals := t.emitter.locals.push type }) hst
    exact hpush
  · rw [hmethod]
    exact ⟨rfl, hst⟩

theorem defineLabel : Alike Eq Emission.defineLabel Emission.defineLabel := by
  refine .onEmitter fun e e' he => ?_
  obtain ⟨-, -, hlabels⟩ := Emitter.eq_of_outline he
  dsimp only
  rw [hlabels]
  have hdefine := congrArg (fun e : Emitter => { e with labels := e'.labels.define.2 }) he
  exact ⟨rfl, hdefine⟩

theorem markLabel (l : Label) : Alike Eq (Emission.markLabel l) (Emission.markLabel l) := by
  intro s t hst
  obtain ⟨-, -, hlabels⟩ := Emitter.eq_of_outline hst
  unfold Emission.markLabel
  rw [hlabels]
  by_cases h : t.emitter.labels.knows l = true
  · rw [if_pos h, if_pos h]
    have hstage := congrArg (fun e : Emitter => { e with labels := t.emitter.labels.stage l }) hst
    exact ⟨rfl, hstage⟩
  · rw [if_neg h, if_neg h]
    exact ⟨rfl, hst⟩

end Alike

/-- What an emitter answers, and the outline that it then has, are a matter of its outline. -/
theorem Request.alike_answer (r : Request) : Alike Eq r.answer r.answer := by
  cases r with
  | emit op x => exact (Alike.emit op x).bind fun _ _ _ => .pure rfl
  | defineLocal type => exact (Alike.defineLocal type).bind fun a b hab => .pure (by rw [hab])
  | defineLabel => exact Alike.defineLabel.bind fun a b hab => .pure (by rw [hab])
  | markLabel l => exact (Alike.markLabel l).bind fun _ _ _ => .pure rfl
  | beginCapture file position =>
    intro s t hst
    have hdocument : (s.module.document file).1.outline = (t.module.document file).1.outline := by
      have hs : (s.module.document file).1.path = file.path :=
        s.module.documents.path_findOrCreate file
      have ht : (t.module.document file).1.path = file.path :=
        t.module.documents.path_findOrCreate file
      rw [Document.outline, Document.outline, hs, ht]
    have hs := s.emitter.outline_beginCapture (s.module.document file).1 position
    have ht := t.emitter.outline_beginCapture (t.module.document file).1 position
    rw [hst, hdocument, ht] at hs
    obtain ⟨hid, houtline⟩ := Prod.mk.inj hs
    exact ⟨congrArg Reply.capture hid.symm, houtline.symm⟩
  | endCapture id =>
    intro s t hst
    refine ⟨rfl, ?_⟩
    change (s.emitter.endCapture id).outline = (t.emitter.endCapture id).outline
    rw [Emitter.outline_endCapture, Emitter.outline_endCapture, hst]

end MarkupLowering
