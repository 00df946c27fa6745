import Mathlib.Data.List.Forall2
import MarkupLowering.Proofs.Emitter.Exchanges
import MarkupLowering.Proofs.Import.Texts

/-!
# MarkupLowering.Proofs.Emitter.Texts

**Other texts, and otherwise the same code.** Two emitters that start in the same state and are
asked for the same, except that the one is asked for other texts, answer the same and stay alike.

* `Operand.mapText` and `Request.mapText` say what the other one is asked for.
* `Emission.Matches` relates the states that the two get to. Opcodes, slots, labels, captures and
  what is imported are the same, but for the texts and their tokens.
* `Request.matches_answer` is the step: whatever is asked for, the two are in step.
* `Emission.Retexted` says in addition that all that happened is what some requests ask for.
* `AsksNoText` is code that asks for no text; it is in step with itself.
-/

namespace MarkupLowering

open ImportTables

/-! ### Requests with other texts -/

section Mapped

variable (f : String → String)

/-- An operand whose text is mapped, if it is one. -/
def Operand.mapText : Operand → Operand
  | .string text => .string (f text)
  | x => x

/-- A request whose text is mapped, if it asks for one. -/
def Request.mapText : Request → Request
  | .emit op x => .emit op (x.mapText f)
  | r => r

end Mapped

/-- A request that does not ask for a text. -/
def Request.Textless : Request → Prop
  | .emit _ (.string _) => False
  | _ => True

theorem Operand.mapText_of_ne {x : Operand} (hx : ∀ text, x ≠ .string text) (f : String → String) :
    x.mapText f = x := by
  cases x with
  | string text => exact absurd rfl (hx text)
  | _ => rfl

theorem Request.mapText_of_textless {r : Request} (hr : r.Textless) (f : String → String) :
    r.mapText f = r := by
  cases r with
  | emit op x =>
    have hx : ∀ text, x ≠ .string text := fun text h => by
      rw [h] at hr
      exact hr
    rw [mapText, Operand.mapText_of_ne hx]
  | _ => rfl

/-! ### States that match -/

/-- An instruction, and what it is with its text mapped. -/
inductive PendingInstruction.Retexted (f : String → String) (t t' : ImportTables) :
    PendingInstruction → PendingInstruction → Prop
  | same (i : PendingInstruction) : i.opcode ≠ .ldstr → Retexted f t t' i i
  /-- Both tokens are those of the texts. -/
  | text {text : String} {token token' : Token} : t.find? (.string text) = some token →
      t'.find? (.string (f text)) = some token' →
      Retexted f t t' ⟨.ldstr, .ready (.token token)⟩ ⟨.ldstr, .ready (.token token')⟩

theorem PendingInstruction.Retexted.mono {f : String → String} {t t' t₁ t₁' : ImportTables}
    {i i' : PendingInstruction} (h : Retexted f t t' i i') (hkeeps : KeepsTexts t t₁)
    (hkeeps' : KeepsTexts t' t₁') : Retexted f t₁ t₁' i i' := by
  cases h with
  | same i hi => exact .same i hi
  | text ht ht' => exact .text (hkeeps _ _ ht) (hkeeps' _ _ ht')

namespace Emission

/-- Two states that were both reached from `s`, the second one with the texts mapped. -/
structure Matches (f : String → String) (s t t' : Emission) : Prop where
  module : t'.module = { t.module with imports := t'.module.imports }
  entities : SameEntities t.module.imports t'.module.imports
  emitter : t'.emitter = { t.emitter with instructions := t'.emitter.instructions }
  code : ∃ added added',
    t.emitter.instructions.toList = s.emitter.instructions.toList ++ added ∧
    t'.emitter.instructions.toList = s.emitter.instructions.toList ++ added' ∧
    List.Forall₂ (PendingInstruction.Retexted f t.module.imports t'.module.imports) added added'

namespace Matches

variable {f : String → String} {s t t' : Emission}

theorem refl (s : Emission) : Matches f s s s where
  module := rfl
  entities := .refl _
  emitter := rfl
  code := ⟨[], [], (List.append_nil _).symm, (List.append_nil _).symm, .nil⟩

theorem size (h : Matches f s t t') :
    t'.emitter.instructions.size = t.emitter.instructions.size := by
  obtain ⟨added, added', hcode, hcode', hall⟩ := h.code
  rw [← Array.length_toList, ← Array.length_toList, hcode, hcode', List.length_append,
    List.length_append, hall.length_eq]

/-- What the second state can differ in. -/
theorem inv (h : Matches f s t t') : ∃ imports instructions,
    instructions.size = t.emitter.instructions.size ∧
    t' = ⟨{ t.module with imports }, { t.emitter with instructions }⟩ := by
  refine ⟨t'.module.imports, t'.emitter.instructions, h.size, ?_⟩
  rw [← h.module, ← h.emitter]

/-- Both import the same, or each its own text. -/
theorem withImports (h : Matches f s t t') {i i' : ImportTables} (hsame : SameEntities i i')
    (hkeeps : KeepsTexts t.module.imports i) (hkeeps' : KeepsTexts t'.module.imports i') :
    Matches f s { t with module := { t.module with imports := i } }
      { t' with module := { t'.module with imports := i' } } := by
  obtain ⟨added, added', hcode, hcode', hall⟩ := h.code
  refine ⟨?_, hsame, h.emitter, added, added', hcode, hcode', ?_⟩
  · dsimp only
    rw [h.module]
  · exact hall.imp fun _ _ hi => hi.mono hkeeps hkeeps'

/-- Both import the same. -/
theorem importing (h : Matches f s t t') {α : Type} {step : ImportM α} (hstep : Textless step) :
    Matches f s
      { t with module := { t.module with imports := (step t.module.imports).2 } }
      { t' with module := { t'.module with imports := (step t'.module.imports).2 } } :=
  h.withImports (hstep.tables h.entities)
    (fun text _ hfind => (hstep.texts _ text).trans hfind)
    (fun text _ hfind => (hstep.texts _ text).trans hfind)

/-- Both modules get the same documents. -/
theorem withDocuments (h : Matches f s t t') (documents : DocumentCache) :
    Matches f s { t with module := { t.module with documents } }
      { t' with module := { t'.module with documents } } :=
  ⟨by dsimp only; rw [h.module], h.entities, h.emitter, h.code⟩

/-- Both emitters change in a way that does not depend on the code, and that leaves it alone. -/
theorem withEmitter (h : Matches f s t t') {g : Emitter → Emitter}
    (hcode : ∀ e, (g e).instructions = e.instructions)
    (hg : ∀ (e : Emitter) (instructions : Array PendingInstruction),
      instructions.size = e.instructions.size →
        g { e with instructions } = { g e with instructions }) :
    Matches f s { t with emitter := g t.emitter } { t' with emitter := g t'.emitter } := by
  have hemitter : g t'.emitter = { g t.emitter with instructions := t'.emitter.instructions } := by
    rw [h.emitter]
    exact hg _ _ h.size
  refine ⟨h.module, h.entities, ?_, ?_⟩
  · dsimp only
    rw [hcode, hemitter]
  · dsimp only
    rw [hcode, hcode]
    exact h.code

theorem append (h : Matches f s t t') {i i' : PendingInstruction}
    (hi : PendingInstruction.Retexted f t.module.imports t'.module.imports i i') :
    Matches f s { t with emitter := t.emitter.append i }
      { t' with emitter := t'.emitter.append i' } := by
  obtain ⟨added, added', hcode, hcode', hall⟩ := h.code
  refine ⟨h.module, h.entities, ?_, added ++ [i], added' ++ [i'], ?_, ?_, ?_⟩
  · obtain ⟨imports, instructions, hsize, rfl⟩ := h.inv
    dsimp only [Emitter.append]
    rw [hsize]
  · dsimp only [Emitter.append]
    rw [Array.toList_push, hcode, List.append_assoc]
  · dsimp only [Emitter.append]
    rw [Array.toList_push, hcode', List.append_assoc]
  · exact List.rel_append hall (.cons hi .nil)

end Matches

/-! ### Operations of two emitters -/

variable {f : String → String} {s : Emission}

theorem matches_onEmitter {α : Type} {g : Emitter → α × Emitter}
    (hcode : ∀ e, (g e).2.instructions = e.instructions)
    (hg : ∀ (e : Emitter) (instructions : Array PendingInstruction),
      instructions.size = e.instructions.size →
        g { e with instructions } = ((g e).1, { (g e).2 with instructions })) :
    InStep (Matches f s) (onEmitter g) (onEmitter g) := by
  intro t t' h
  have hnext := h.withEmitter hcode fun e instructions hsize => congrArg Prod.snd (hg e _ hsize)
  have hvalue : (g t'.emitter).1 = (g t.emitter).1 := by
    rw [h.emitter, hg _ _ h.size]
  unfold onEmitter
  dsimp only
  rw [hvalue]
  exact .ok _ hnext

theorem token_importing (step : Nat → ImportM Token) (t : Emission) :
    token (·.importing step) t = .ok (.ready (.token (step t.module.id t.module.imports).1))
      { t with module :=
          { t.module with imports := (step t.module.id t.module.imports).2 } } := rfl

/-- Types and members are imported alike. -/
theorem matches_import {i : Import} (hi : ∀ text, i ≠ .string text) :
    InStep (Matches f s) (token (·.importing i.perform)) (token (·.importing i.perform)) := by
  intro t t' h
  obtain ⟨imports, instructions, -, rfl⟩ := h.inv
  have htextless := textless_perform t.module.id hi
  have hnext := h.importing htextless
  have hvalue : (i.perform t.module.id imports).1 = (i.perform t.module.id t.module.imports).1 :=
    htextless.value h.entities
  rw [token_importing, token_importing, ← hvalue]
  exact .ok _ hnext

theorem matches_known {g : Emitter → Except EmitError Argument}
    (hg : ∀ (e : Emitter) (instructions : Array PendingInstruction),
      g { e with instructions } = g e) :
    InStep (Matches f s) (known g) (known g) := by
  intro t t' h
  have hsame : g t'.emitter = g t.emitter := by
    rw [h.emitter]
    exact hg _ _
  unfold known
  rw [hsame]
  split
  · exact .ok _ h
  · exact .error _ h

theorem matches_branch (l : Label) : InStep (Matches f s) (branch l) (branch l) := by
  intro t t' h
  have hlabels : t'.emitter.labels = t.emitter.labels := by rw [h.emitter]
  unfold branch
  rw [hlabels]
  split
  · exact .ok _ h
  · exact .error _ h

/-- Any operand but a text is reduced to the same. -/
theorem matches_reduction {is : List Import} {step : EmitM PendingArgument}
    (h : Reduction is step) (htextless : ∀ text, .string text ∉ is) :
    InStep (Matches f s) step step := by
  cases h with
  | ready a => exact .pure _
  | token i =>
    refine matches_import fun text hi => htextless text ?_
    rw [hi]
    exact List.mem_singleton_self _
  | argument | slotAt | slotOf => exact matches_known fun _ _ => rfl
  | branch l => exact matches_branch l
  | refused _ err => exact .throw err

theorem matches_resolve (op : Opcode) {x : Operand} (hx : ∀ text, x ≠ .string text) :
    InStep (Matches f s) (resolve op x) (resolve op x) := by
  unfold resolve
  split
  · exact .throw _
  · refine matches_reduction (reduction op x) fun text htext => ?_
    cases x with
    | string text' => exact hx text' rfl
    | _ => simp [Operand.imports] at htext

theorem operandType_string {op : Opcode} (h : op.operandType = .string) : op = .ldstr := by
  cases op <;> first | rfl | cases h

/-- Texts are operands of one opcode, which has no others. -/
theorem emit_mismatch {op : Opcode} {x : Operand} (h : ¬ (op = .ldstr ↔ ∃ text, x = .string text)) :
    emit op x = throw (.unsupportedOperand op x.kind) := by
  by_cases hop : op = .ldstr
  · subst hop
    cases x with
    | string text => exact absurd (iff_of_true rfl ⟨text, rfl⟩) h
    | _ => rfl
  · cases x with
    | string text =>
      have hoverflow : overflow? op (.string text) = none := rfl
      have htype : op.operandType ≠ .string := fun ht => hop (operandType_string ht)
      unfold emit resolve
      rw [hoverflow]
      unfold reduce
      generalize op.operandType = t at htype
      cases t <;> first | rfl | exact absurd rfl htype
    | _ => exact absurd (iff_of_false hop nofun) h

theorem emit_text (text : String) (t : Emission) :
    emit .ldstr (.string text) t = .ok () {
      module := { t.module with imports := (internString text t.module.imports).2 }
      emitter := t.emitter.append
        ⟨.ldstr, .ready (.token (internString text t.module.imports).1)⟩ } := rfl

/-- Texts matter to `ldstr` alone. There both runs intern one text each; anything else resolves to
the same argument, or is refused by its kind, which a text does not change. -/
theorem matches_emit (op : Opcode) (x : Operand) :
    InStep (Matches f s) (emit op x) (emit op (x.mapText f)) := by
  intro t t' h
  by_cases hfits : op = .ldstr ↔ ∃ text, x = .string text
  · by_cases hop : op = .ldstr
    · obtain ⟨text, rfl⟩ := hfits.mp hop
      subst hop
      have himport := h.withImports
        ((sameEntities_internString _ text).symm.trans
          (h.entities.trans (sameEntities_internString _ (f text))))
        (keepsTexts_internString _ text) (keepsTexts_internString _ (f text))
      rw [Operand.mapText, emit_text, emit_text]
      exact .ok () (himport.append
        (.text (find?_internString _ text) (find?_internString _ (f text))))
    · have hx : ∀ text, x ≠ .string text := fun text h => hop (hfits.mpr ⟨text, h⟩)
      rw [Operand.mapText_of_ne hx]
      refine (matches_resolve op hx).bind (fun p t t' h => ?_) t t' h
      exact .ok () (h.append (.same _ hop))
  · have hmapped : ¬ (op = .ldstr ↔ ∃ text, x.mapText f = .string text) := by
      cases x with
      | string text =>
        intro h
        exact hfits (iff_of_true (h.mpr ⟨f text, rfl⟩) ⟨text, rfl⟩)
      | _ => exact hfits
    have hkind : (x.mapText f).kind = x.kind := by cases x <;> rfl
    rw [emit_mismatch hfits, emit_mismatch hmapped, hkind]
    exact .error _ h

theorem matches_defineLocal (type : TypeRef) :
    InStep (Matches f s) (defineLocal type) (defineLocal type) := by
  intro t t' h
  obtain ⟨imports, instructions, -, rfl⟩ := h.inv
  have himport := h.importing (textless_importType t.module.id type)
  have hnext := himport.withEmitter
    (g := fun e => { e with locals := t.emitter.locals.push type }) (fun _ => rfl) fun _ _ _ => rfl
  unfold defineLocal
  dsimp only
  split
  · exact .ok _ hnext
  · exact .error _ h

theorem matches_markLabel (l : Label) : InStep (Matches f s) (markLabel l) (markLabel l) := by
  intro t t' h
  obtain ⟨imports, instructions, -, rfl⟩ := h.inv
  have hnext := h.withEmitter
    (g := fun e => { e with labels := t.emitter.labels.stage l }) (fun _ => rfl) fun _ _ _ => rfl
  unfold markLabel
  dsimp only
  split
  · exact .ok _ hnext
  · exact .error _ h

end Emission

/-! ### Captures -/

namespace Emitter

variable (e : Emitter) {instructions : Array PendingInstruction}
  (hsize : instructions.size = e.instructions.size)

include hsize

/-- Of the code, a capture sees the number of instructions only. -/
theorem beginCapture_withCode (d : Document) (p : Position) :
    beginCapture { e with instructions } d p =
      ((e.beginCapture d p).1, { (e.beginCapture d p).2 with instructions }) := by
  have hcount : count { e with instructions } = e.count := hsize
  unfold beginCapture
  dsimp only
  rw [hcount]
  split <;> rfl

theorem record_withCode (c : OpenCapture) :
    record { e with instructions } c = { e.record c with instructions } := by
  have hcount : count { e with instructions } = e.count := hsize
  unfold record
  rw [hcount]
  split <;> rfl

theorem endCapture_withCode (id : Nat) :
    endCapture { e with instructions } id = { e.endCapture id with instructions } := by
  unfold endCapture
  dsimp only
  split
  · rfl
  · exact record_withCode { e with openCaptures := e.openCaptures.eraseP (·.id == id) } hsize _

end Emitter

namespace Emission

variable {f : String → String} {s t t' : Emission}

theorem Matches.beginCapture (h : Matches f s t t') (file : SourceFile) (position : Position) :
    (t'.beginCapture file position).1 = (t.beginCapture file position).1 ∧
      Matches f s (t.beginCapture file position).2 (t'.beginCapture file position).2 := by
  have hnext := h.withEmitter
    (g := fun e => (e.beginCapture (t.module.document file).1 position).2)
    (fun e => (e.sameCode_beginCapture _ position).instructions)
    fun e _ hsize => congrArg Prod.snd (e.beginCapture_withCode hsize _ position)
  obtain ⟨imports, instructions, hsize, rfl⟩ := h.inv
  have hid := congrArg Prod.fst
    (t.emitter.beginCapture_withCode hsize (t.module.document file).1 position)
  exact ⟨hid, hnext.withDocuments (t.module.document file).2.documents⟩

theorem Matches.endCapture (h : Matches f s t t') (id : Option Nat) :
    Matches f s (t.endCapture id) (t'.endCapture id) := by
  cases id with
  | none => exact h
  | some id =>
    exact h.withEmitter (g := fun e => e.endCapture id)
      (fun e => (e.sameCode_endCapture id).instructions) fun e _ hsize =>
        e.endCapture_withCode hsize id

end Emission

/-! ### Histories of two emitters -/

namespace Request

open Emission

variable {f : String → String} {s : Emission}

/-- Whatever is asked for, the two are in step. -/
theorem matches_answer (r : Request) : InStep (Matches f s) r.answer (r.mapText f).answer := by
  cases r with
  | emit op x => exact (matches_emit op x).bind fun _ => .pure _
  | defineLocal type => exact (matches_defineLocal type).bind fun _ => .pure _
  | defineLabel =>
    exact (matches_onEmitter (fun _ => rfl) fun _ _ _ => rfl).bind fun _ => .pure _
  | markLabel l => exact (matches_markLabel l).bind fun _ => .pure _
  | beginCapture file position =>
    intro t t' h
    obtain ⟨hid, hnext⟩ := h.beginCapture file position
    have hanswer : ((Request.beginCapture file position).mapText f).answer t' =
        .ok (.capture (t'.beginCapture file position).1) (t'.beginCapture file position).2 := rfl
    rw [hanswer, hid]
    exact .ok _ hnext
  | endCapture id => exact fun t t' h => .ok _ (h.endCapture (some id))

end Request

namespace Emission

/-- Two states that match, where all that happened is what some requests ask for, from the one
emitter as they are and from the other with the texts mapped. -/
structure Retexted (f : String → String) (s t t' : Emission) : Prop extends Matches f s t t' where
  asked : ∃ rs, Request.script rs s = .ok () t ∧
    Request.script (rs.map (Request.mapText f)) s = .ok () t'

variable {f : String → String} {s : Emission}

theorem Retexted.refl (s : Emission) : Retexted f s s s := ⟨.refl s, [], rfl, rfl⟩

/-- What was asked for grows by the request in both runs, or in neither if it is refused. -/
theorem retexted_answer (r : Request) : InStep (Retexted f s) r.answer (r.mapText f).answer := by
  intro t t' h
  have hanswer := r.matches_answer t t' h.toMatches
  cases ht : r.answer t with
  | ok a t₁ =>
    cases ht' : (r.mapText f).answer t' with
    | error e t₁' =>
      rw [ht, ht'] at hanswer
      cases hanswer
    | ok a' t₁' =>
      rw [ht, ht'] at hanswer
      cases hanswer with
      | ok _ hmatches =>
        obtain ⟨rs, hrs, hrs'⟩ := h.asked
        refine .ok a ⟨hmatches, rs ++ [r], ?_, ?_⟩
        · exact Request.script_append hrs (Request.script_single (Request.perform_of_answer ht))
        · rw [List.map_append]
          exact Request.script_append hrs' (Request.script_single (Request.perform_of_answer ht'))
  | error e t₁ =>
    cases ht' : (r.mapText f).answer t' with
    | ok a' t₁' =>
      rw [ht, ht'] at hanswer
      cases hanswer
    | error e' t₁' =>
      -- refused requests leave no trace
      obtain rfl := r.atomic_answer _ _ _ ht
      obtain rfl := (r.mapText f).atomic_answer _ _ _ ht'
      rw [ht, ht'] at hanswer
      cases hanswer
      exact .error e h

theorem retexted_emit (op : Opcode) (x : Operand) :
    InStep (Retexted f s) (emit op x) (emit op (x.mapText f)) :=
  (retexted_answer (.emit op x)).of_andPure fun _ _ _ => rfl

theorem retexted_defineLocal (type : TypeRef) :
    InStep (Retexted f s) (defineLocal type) (defineLocal type) :=
  (retexted_answer (.defineLocal type)).of_andPure fun _ _ h => Reply.slot.inj h

theorem Retexted.beginCapture {t t' : Emission} (h : Retexted f s t t') (file : SourceFile)
    (position : Position) :
    (t'.beginCapture file position).1 = (t.beginCapture file position).1 ∧
      Retexted f s (t.beginCapture file position).2 (t'.beginCapture file position).2 := by
  obtain ⟨hid, hnext⟩ := (retexted_answer (.beginCapture file position) t t' h).ok_inv
  exact ⟨(Reply.capture.inj hid).symm, hnext⟩

theorem Retexted.endCapture {t t' : Emission} (h : Retexted f s t t') (id : Option Nat) :
    Retexted f s (t.endCapture id) (t'.endCapture id) := by
  cases id with
  | none => exact h
  | some id => exact (retexted_answer (.endCapture id) t t' h).ok_inv.2

end Emission

/-! ### Code without texts -/

/-- Does what is asked, and returns how it ended. -/
def Request.attempt (r : Request) : EmitM (Except EmitError Reply) := fun s =>
  match r.answer s with
  | .ok a s => .ok (.ok a) s
  | .error e s => .ok (.error e) s

/-- Code that goes by what its emitter answers, and asks for no text. -/
inductive AsksNoText {α : Type} : EmitM α → Prop
  | pure (a : α) : AsksNoText (Pure.pure a)
  | throw (e : EmitError) : AsksNoText (throw e)
  | ask {r : Request} {next : Except EmitError Reply → EmitM α} : r.Textless →
      (∀ reply, AsksNoText (next reply)) → AsksNoText (r.attempt >>= next)

theorem AsksNoText.retexted {α : Type} {code : EmitM α} (h : AsksNoText code)
    {f : String → String} {s : Emission} : InStep (Emission.Retexted f s) code code := by
  induction h with
  | pure a => exact .pure a
  | throw e => exact .throw e
  | @ask r next hr _ ih =>
    refine InStep.bind (fun t t' h => ?_) ih
    have hanswer := Emission.retexted_answer r t t' h
    rw [Request.mapText_of_textless hr] at hanswer
    unfold Request.attempt
    generalize r.answer t = result at hanswer
    generalize r.answer t' = result' at hanswer
    cases hanswer with
    | ok a h => exact .ok _ h
    | error e h => exact .ok _ h

end MarkupLowering
