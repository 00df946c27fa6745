import MarkupLowering.Proofs.Emitter.Exchanges
import MarkupLowering.Proofs.Module.Documents

/-!
# MarkupLowering.Proofs.Emitter.Captures

**Debug captures**, told from the history of an emitter alone.

A capture begins before an instruction (`BeginAt`, `countAt`) and leaves a point if an instruction
came before its first end (`Yields`). Captures may nest, overlap, end in any order, more than once
or not at all, and an end may come for a capture that was never begun.

`Emission.Advances` says once what an exchange does to the captures. The invariant `Begins` says
which requests begin a capture, and under which number.
-/

namespace MarkupLowering

/-! ### Captures in a history -/

/-- An instruction was asked for, and appended. -/
def Exchange.IsEmit (x : Exchange) : Prop := ∃ op y a, x = ⟨.emit op y, .ok a⟩

/-- The instructions before the exchange at `i`. -/
def countAt (log : List Exchange) (i : Nat) : Nat := instructionsIn (log.take i)

/-- The exchange at `i` appended an instruction. -/
def EmitAt (log : List Exchange) (i : Nat) : Prop := ∃ x, log[i]? = some x ∧ x.IsEmit

/-- The exchange at `i` is a request to begin a capture, and what was returned for it. -/
def BeginAt (log : List Exchange) (i : Nat) (file : SourceFile) (position : Position)
    (id : Option Nat) : Prop :=
  log[i]? = some ⟨.beginCapture file position, .ok (.capture id)⟩

/-- The exchange at `i` is a request to begin a capture. -/
def BeginsAt (log : List Exchange) (i : Nat) : Prop :=
  ∃ file position id, BeginAt log i file position id

/-- The exchange at `i` began the capture with number `id`. -/
def Captured (log : List Exchange) (i id : Nat) : Prop :=
  ∃ file position, BeginAt log i file position (some id)

/-- The exchange at `i` is a request to end the capture with number `id`. -/
def EndAt (log : List Exchange) (i id : Nat) : Prop :=
  ∃ x, log[i]? = some x ∧ x.request = .endCapture id

/-- No request to end the capture comes after the exchange at `i` and before the one at `j`. -/
def Unended (log : List Exchange) (id i j : Nat) : Prop := ∀ k, i < k → k < j → ¬ EndAt log k id

/-- A request to end the capture came after the exchange at `i`. -/
def Ended (log : List Exchange) (i id : Nat) : Prop := ∃ k, i < k ∧ EndAt log k id

/-- An instruction was appended after the capture was begun at `i` and before its first end. -/
def Yields (log : List Exchange) (i id : Nat) : Prop :=
  ∃ j, i < j ∧ EmitAt log j ∧ Unended log id i j

variable {log : List Exchange} {x : Exchange} {i j id : Nat}

/-! ### One more exchange -/

theorem getElem?_append_last {α : Type} {l : List α} {a b : α} {i : Nat} :
    (l ++ [a])[i]? = some b ↔ l[i]? = some b ∨ (i = l.length ∧ a = b) := by
  rw [List.getElem?_append]
  split
  · rename_i hi
    exact ⟨Or.inl, fun h => h.resolve_right fun h => absurd hi (by omega)⟩
  · rename_i hi
    rw [List.getElem?_singleton, List.getElem?_eq_none (l := l) (by omega)]
    by_cases hlast : i = l.length
    · simp [hlast]
    · have hsub : i - l.length ≠ 0 := by omega
      simp [hlast, hsub]

/-- An exchange with a property stood in the log before, or is the new one. -/
theorem at_append {P : Exchange → Prop} :
    (∃ y, (log ++ [x])[i]? = some y ∧ P y) ↔
      (∃ y, log[i]? = some y ∧ P y) ∨ (i = log.length ∧ P x) := by
  simp only [getElem?_append_last, or_and_right, exists_or]
  refine or_congr Iff.rfl ⟨?_, ?_⟩
  · rintro ⟨y, ⟨hi, rfl⟩, hy⟩
    exact ⟨hi, hy⟩
  · rintro ⟨hi, hx⟩
    exact ⟨x, ⟨hi, rfl⟩, hx⟩

theorem emitAt_append : EmitAt (log ++ [x]) i ↔ EmitAt log i ∨ (i = log.length ∧ x.IsEmit) :=
  at_append

theorem endAt_append :
    EndAt (log ++ [x]) i id ↔ EndAt log i id ∨ (i = log.length ∧ x.request = .endCapture id) :=
  at_append

theorem beginAt_append {file : SourceFile} {position : Position} {c : Option Nat} :
    BeginAt (log ++ [x]) i file position c ↔
      BeginAt log i file position c ∨
        (i = log.length ∧ x = ⟨.beginCapture file position, .ok (.capture c)⟩) :=
  getElem?_append_last

theorem captured_append :
    Captured (log ++ [x]) i id ↔ Captured log i id ∨
      (i = log.length ∧
        ∃ file position, x = ⟨.beginCapture file position, .ok (.capture (some id))⟩) := by
  simp only [Captured, beginAt_append, exists_or, exists_and_left]

/-- Only a request to begin a capture begins one. -/
theorem captured_append_of_ne (hx : ∀ file position, x.request ≠ .beginCapture file position) :
    Captured (log ++ [x]) i id ↔ Captured log i id := by
  rw [captured_append]
  refine ⟨fun h => h.resolve_right ?_, Or.inl⟩
  rintro ⟨-, file, position, rfl⟩
  exact hx file position rfl

theorem BeginAt.lt {file : SourceFile} {position : Position} {c : Option Nat}
    (h : BeginAt log i file position c) : i < log.length :=
  (List.getElem?_eq_some_iff.mp h).1

theorem BeginsAt.lt (h : BeginsAt log i) : i < log.length := by
  obtain ⟨_, _, _, h⟩ := h
  exact h.lt

theorem Captured.lt (h : Captured log i id) : i < log.length := by
  obtain ⟨_, _, hb⟩ := h
  exact hb.lt

theorem EmitAt.lt (h : EmitAt log i) : i < log.length := by
  obtain ⟨_, h, _⟩ := h
  exact (List.getElem?_eq_some_iff.mp h).1

theorem unended_append (hj : j ≤ log.length) :
    Unended (log ++ [x]) id i j ↔ Unended log id i j := by
  refine forall_congr' fun k => forall_congr' fun _ => forall_congr' fun hk => ?_
  rw [endAt_append]
  exact not_congr ⟨fun h => h.resolve_right fun h => by omega, Or.inl⟩

theorem EndAt.lt (h : EndAt log i id) : i < log.length := by
  obtain ⟨_, h, _⟩ := h
  exact (List.getElem?_eq_some_iff.mp h).1

theorem unended_of_not_ended (h : ¬ Ended log i id) : Unended log id i j :=
  fun k hik _ hend => h ⟨k, hik, hend⟩

theorem ended_append (hi : i < log.length) :
    Ended (log ++ [x]) i id ↔ Ended log i id ∨ x.request = .endCapture id := by
  constructor
  · rintro ⟨k, hik, hend⟩
    rcases endAt_append.mp hend with hend | ⟨-, hx⟩
    · exact Or.inl ⟨k, hik, hend⟩
    · exact Or.inr hx
  · rintro (⟨k, hik, hend⟩ | hx)
    · exact ⟨k, hik, endAt_append.mpr (Or.inl hend)⟩
    · exact ⟨log.length, hi, endAt_append.mpr (Or.inr ⟨rfl, hx⟩)⟩

/-- Only a request to end a capture ends it. -/
theorem ended_append_of_ne (hi : i < log.length) (hx : x.request ≠ .endCapture id) :
    Ended (log ++ [x]) i id ↔ Ended log i id := by
  rw [ended_append hi]
  exact ⟨fun h => h.resolve_right hx, Or.inl⟩

/-- A capture that was just begun was not ended. -/
theorem not_ended_length : ¬ Ended (log ++ [x]) log.length id := by
  rintro ⟨k, hk, hend⟩
  have hlt := hend.lt
  rw [List.length_append, List.length_singleton] at hlt
  omega

theorem Exchange.not_isEmit_of_request (hx : ∀ op y, x.request ≠ .emit op y) : ¬ x.IsEmit := by
  rintro ⟨op, y, a, rfl⟩
  exact hx op y rfl

theorem yields_append :
    Yields (log ++ [x]) i id ↔
      Yields log i id ∨ (i < log.length ∧ x.IsEmit ∧ ¬ Ended log i id) := by
  constructor
  · rintro ⟨j, hij, hemit, hun⟩
    rcases emitAt_append.mp hemit with hemit | ⟨rfl, hx⟩
    · exact Or.inl ⟨j, hij, hemit, (unended_append (Nat.le_of_lt hemit.lt)).mp hun⟩
    · refine Or.inr ⟨hij, hx, fun ⟨k, hik, hend⟩ => ?_⟩
      exact (unended_append (Nat.le_refl _)).mp hun k hik hend.lt hend
  · rintro (⟨j, hij, hemit, hun⟩ | ⟨hi, hx, hun⟩)
    · exact ⟨j, hij, emitAt_append.mpr (Or.inl hemit),
        (unended_append (Nat.le_of_lt hemit.lt)).mpr hun⟩
    · exact ⟨log.length, hi, emitAt_append.mpr (Or.inr ⟨rfl, hx⟩),
        (unended_append (Nat.le_refl _)).mpr (unended_of_not_ended hun)⟩

/-- Only an instruction lets a capture leave a point that it would not leave otherwise. -/
theorem yields_append_of_not_emit (hx : ¬ x.IsEmit) :
    Yields (log ++ [x]) i id ↔ Yields log i id := by
  rw [yields_append]
  exact ⟨fun h => h.resolve_right fun h => hx h.2.1, Or.inl⟩

/-! ### Counting instructions -/

theorem instructionsIn_append (log log' : List Exchange) :
    instructionsIn (log ++ log') = instructionsIn log + instructionsIn log' := by
  rw [instructionsIn, grantedIn, List.filterMap_append, emitted_append, List.length_append]
  rfl

theorem instructionsIn_emit {op : Opcode} {y : Operand} {a : Reply} :
    instructionsIn [⟨.emit op y, .ok a⟩] = 1 := rfl

/-- Only an appended instruction counts. -/
theorem instructionsIn_of_not_emit (hx : ¬ x.IsEmit) : instructionsIn [x] = 0 := by
  obtain ⟨r, reply⟩ := x
  cases reply with
  | error err => rfl
  | ok a =>
    cases r with
    | emit op y => exact absurd ⟨op, y, a, rfl⟩ hx
    | _ => rfl

theorem countAt_length (log : List Exchange) : countAt log log.length = instructionsIn log := by
  rw [countAt, List.take_length]

theorem countAt_append (hi : i ≤ log.length) : countAt (log ++ [x]) i = countAt log i := by
  rw [countAt, List.take_append_of_le_length hi, countAt]

theorem countAt_append_length : countAt (log ++ [x]) log.length = instructionsIn log := by
  rw [countAt_append (Nat.le_refl _), countAt_length]

theorem countAt_le (log : List Exchange) (i : Nat) : countAt log i ≤ instructionsIn log := by
  have hsplit := instructionsIn_append (log.take i) (log.drop i)
  rw [List.take_append_drop] at hsplit
  rw [countAt, hsplit]
  exact Nat.le_add_right _ _

/-- A history counts instructions exactly if one was appended. -/
theorem instructionsIn_pos_iff : 0 < instructionsIn log ↔ ∃ x ∈ log, x.IsEmit := by
  induction log with
  | nil => exact ⟨fun h => absurd h (Nat.lt_irrefl 0), fun ⟨_, h, _⟩ => absurd h List.not_mem_nil⟩
  | cons x log ih =>
    have hcons : instructionsIn (x :: log) = instructionsIn [x] + instructionsIn log :=
      instructionsIn_append [x] log
    simp only [hcons, List.mem_cons, exists_eq_or_imp]
    by_cases hx : x.IsEmit
    · obtain ⟨op, y, a, rfl⟩ := hx
      rw [instructionsIn_emit]
      exact ⟨fun _ => Or.inl ⟨op, y, a, rfl⟩, fun _ => by omega⟩
    · rw [instructionsIn_of_not_emit hx, Nat.zero_add, ih]
      exact ⟨Or.inr, fun h => h.resolve_left hx⟩

/-- There are more instructions than at `i` exactly if one was appended from there on. -/
theorem countAt_lt_iff : countAt log i < instructionsIn log ↔ ∃ x ∈ log.drop i, x.IsEmit := by
  have hsplit := instructionsIn_append (log.take i) (log.drop i)
  rw [List.take_append_drop] at hsplit
  rw [← instructionsIn_pos_iff, countAt, hsplit]
  omega

/-- A capture that leaves a point begins before the end of the code. -/
theorem Yields.countAt_lt (h : Yields log i id) : countAt log i < instructionsIn log := by
  obtain ⟨j, hij, ⟨x, hx, hemit⟩, -⟩ := h
  refine countAt_lt_iff.mpr ⟨x, List.mem_iff_getElem?.mpr ⟨j - i, ?_⟩, hemit⟩
  rw [List.getElem?_drop, Nat.add_sub_cancel' (Nat.le_of_lt hij), hx]

/-- A capture that still runs leaves a point exactly if there are more instructions than before
it. -/
theorem yields_iff_of_not_ended (hc : Captured log i id) (hun : ¬ Ended log i id) :
    Yields log i id ↔ countAt log i < instructionsIn log := by
  refine ⟨Yields.countAt_lt, fun hlt => ?_⟩
  obtain ⟨x, hx, hemit⟩ := countAt_lt_iff.mp hlt
  obtain ⟨k, hk⟩ := List.mem_iff_getElem?.mp hx
  rw [List.getElem?_drop] at hk
  -- the exchange at `i` itself is no instruction
  have hne : k ≠ 0 := by
    rintro rfl
    obtain ⟨file, position, hbegin⟩ := hc
    obtain ⟨op, y, a, rfl⟩ := hemit
    rw [Nat.add_zero] at hk
    cases hbegin.symm.trans hk
  exact ⟨i + k, by omega, ⟨x, hk, hemit⟩, unended_of_not_ended hun⟩

/-! ### What an exchange does to the captures -/

/-- Two emitters with the same captures and the same debug information. -/
structure Emitter.SameDebug (e e' : Emitter) : Prop where
  debug : e'.debug = e.debug
  openCaptures : e'.openCaptures = e.openCaptures
  lastStart : e'.lastStart = e.lastStart
  nextCapture : e'.nextCapture = e.nextCapture

theorem Emitter.SameDebug.refl (e : Emitter) : e.SameDebug e := ⟨rfl, rfl, rfl, rfl⟩

/-- Everything that an exchange can do to captures and documents. -/
inductive Emission.Advances (s : Emission) : Exchange → Emission → Prop
  /-- It concerns no capture, or it was refused. -/
  | other {x : Exchange} {s' : Emission} :
      (∀ file position, x.request ≠ .beginCapture file position) →
      (∀ id, x.request ≠ .endCapture id) →
      s'.emitter.count = s.emitter.count + instructionsIn [x] →
      s.emitter.SameDebug s'.emitter → s.module.KeepsDocuments s'.module → s.Advances x s'
  | began (file : SourceFile) (position : Position) :
      s.Advances ⟨.beginCapture file position, .ok (.capture (s.beginCapture file position).1)⟩
        (s.beginCapture file position).2
  | ended (id : Nat) : s.Advances ⟨.endCapture id, .ok .done⟩ (s.endCapture (some id))

namespace Request

variable {r : Request} {a : Reply} {err : EmitError} {s s' : Emission}

/-- A request about no capture leaves captures and debug information alone. -/
theorem sameDebug (hb : ∀ file position, r ≠ .beginCapture file position)
    (he : ∀ id, r ≠ .endCapture id) (h : r.perform s = .ok () s') :
    s.emitter.SameDebug s'.emitter := by
  cases r with
  | emit op y =>
    obtain ⟨p, -, -, hs⟩ := Emission.emit_inv h
    rw [hs]
    exact ⟨rfl, rfl, rfl, rfl⟩
  | defineLocal type =>
    rw [(defineLocal_inv h).2]
    exact ⟨rfl, rfl, rfl, rfl⟩
  | defineLabel =>
    rw [defineLabel_inv h]
    exact ⟨rfl, rfl, rfl, rfl⟩
  | markLabel l =>
    rw [(Emission.markLabel_inv h).2]
    exact ⟨rfl, rfl, rfl, rfl⟩
  | beginCapture file position => exact absurd rfl (hb file position)
  | endCapture id => exact absurd rfl (he id)

theorem count_perform (h : r.perform s = .ok () s') :
    s'.emitter.count = s.emitter.count + instructionsIn [⟨r, .ok a⟩] := by
  rcases perform_code h with ⟨op, y, p, rfl, -, -, hs⟩ | ⟨hnone, hsame⟩
  · rw [hs, Emitter.count, Emitter.append, Array.size_push, instructionsIn_emit]
    rfl
  · have hzero : instructionsIn [⟨r, .ok a⟩] = 0 := by
      simp [instructionsIn, grantedIn, Exchange.granted?, emitted, hnone]
    rw [hzero, Nat.add_zero, Emitter.count, hsame]
    rfl

theorem advances_of_answer (h : r.answer s = .ok a s') : s.Advances ⟨r, .ok a⟩ s' := by
  have hperform := perform_of_answer h
  have hdocuments := r.keepsDocuments s
  rw [hperform] at hdocuments
  cases r with
  | beginCapture file position =>
    cases h
    exact .began file position
  | endCapture id =>
    cases h
    exact .ended id
  | emit | defineLocal | defineLabel | markLabel =>
    exact .other (by simp) (by simp) (count_perform hperform)
      (sameDebug (by simp) (by simp) hperform)
      hdocuments

theorem advances_of_refusal (h : r.answer s = .error err s') : s.Advances ⟨r, .error err⟩ s' := by
  obtain rfl := r.atomic_answer s err s' h
  cases r with
  | beginCapture file position => cases h
  | endCapture id => cases h
  | emit | defineLocal | defineLabel | markLabel =>
    exact .other (by simp) (by simp) rfl (.refl _) (.refl _)

end Request

/-- What holds at the start, and is kept by exchanges and by changes elsewhere that keep the
documents, holds after every course. -/
theorem Course.induct {s₀ : Emission} {P : List Exchange → Emission → Prop} (start : P [] s₀)
    (step : ∀ {log s x s'}, P log s → Emission.Advances s x s' → P (log ++ [x]) s')
    (elsewhere : ∀ {log s m}, P log s → s.module.KeepsDocuments m → P log { s with module := m })
    {log : List Exchange} {s : Emission} (h : Course s₀ log s) : P log s := by
  induction h with
  | start => exact start
  | granted _ hr ih => exact step ih (Request.advances_of_answer hr)
  | refused _ hr ih => exact step ih (Request.advances_of_refusal hr)
  | elsewhere _ hm ih => exact elsewhere ih hm.keepsDocuments

/-- Captures have not been asked for yet. -/
structure Emitter.Untouched (e : Emitter) : Prop where
  instructions : e.instructions = #[]
  debug : e.debug = {}
  openCaptures : e.openCaptures = []
  lastStart : e.lastStart = none

/-- A new emitter is told by the text of its method and by the method's row. -/
theorem Module.emitter_eq {m : Module} {owner : BodyOwner} {e : Emitter}
    (h : m.emitter owner = .ok e) :
    ∃ method, m.methods[e.row]? = some method ∧ method.body = none ∧
      e = { row := e.row, method := owner.render, hasThis := !method.isStatic
            paramCount := method.params.length } := by
  unfold Module.emitter at h
  split at h
  · cases h
  · split at h
    · cases h
    · rename_i row method hmethod
      split at h
      · cases h
      · rename_i hbody
        cases h
        exact ⟨method, hmethod, by simpa using hbody, rfl⟩

theorem Module.untouched_emitter {m : Module} {owner : BodyOwner} {e : Emitter}
    (h : m.emitter owner = .ok e) : e.Untouched := by
  obtain ⟨method, -, -, he⟩ := Module.emitter_eq h
  rw [he]
  exact ⟨rfl, rfl, rfl, rfl⟩

/-! ### Ending a capture -/

/-- The point that a capture leaves. -/
def OpenCapture.point (c : OpenCapture) : SequencePoint :=
  .ofPosition c.start c.document c.position

theorem Emitter.record_eq (e : Emitter) (c : OpenCapture) :
    e.record c =
      { e with debug := if c.start < e.count then e.debug.addPoint c.point else e.debug } := by
  unfold record
  by_cases h : e.count ≤ c.start
  · rw [if_pos h, if_neg (Nat.not_lt.mpr h)]
  · rw [if_neg h, if_pos (Nat.lt_of_not_le h)]
    rfl

theorem Emitter.endCapture_keeps (e : Emitter) (id : Nat) :
    (e.endCapture id).count = e.count ∧ (e.endCapture id).lastStart = e.lastStart ∧
      (e.endCapture id).nextCapture = e.nextCapture := by
  unfold endCapture
  split
  · exact ⟨rfl, rfl, rfl⟩
  · rw [record_eq]
    exact ⟨rfl, rfl, rfl⟩

theorem Emitter.openCaptures_endCapture (e : Emitter) (id : Nat) :
    (e.endCapture id).openCaptures = e.openCaptures.eraseP (·.id == id) := by
  unfold endCapture
  split
  · rename_i hnone
    rw [List.eraseP_of_forall_not (by simpa using hnone)]
  · rw [record_eq]

/-! ### Which requests begin a capture -/

/-- Beginning a capture either falls together with the latest one or opens a new one. -/
theorem Emitter.beginCapture_cases (e : Emitter) (d : Document) (p : Position) :
    (e.lastStart = some e.count ∧ e.beginCapture d p = (none, e)) ∨
      (e.lastStart ≠ some e.count ∧
        e.beginCapture d p = (some e.nextCapture,
          { e with openCaptures := e.openCaptures ++ [⟨e.nextCapture, d, p, e.count⟩]
                   lastStart := some e.count, nextCapture := e.nextCapture + 1 })) := by
  unfold beginCapture
  by_cases h : e.lastStart = some e.count
  · exact Or.inl ⟨h, if_pos h⟩
  · exact Or.inr ⟨h, if_neg h⟩

/-- The same, with the module. -/
theorem Emission.beginCapture_cases (s : Emission) (file : SourceFile) (p : Position) :
    (s.emitter.lastStart = some s.emitter.count ∧ (s.beginCapture file p).1 = none ∧
        (s.beginCapture file p).2.emitter = s.emitter) ∨
      (s.emitter.lastStart ≠ some s.emitter.count ∧
        (s.beginCapture file p).1 = some s.emitter.nextCapture ∧
        (s.beginCapture file p).2.emitter =
          { s.emitter with
            openCaptures := s.emitter.openCaptures ++
              [⟨s.emitter.nextCapture, (s.module.document file).1, p, s.emitter.count⟩]
            lastStart := some s.emitter.count, nextCapture := s.emitter.nextCapture + 1 }) := by
  have hid : (s.beginCapture file p).1 =
      (s.emitter.beginCapture (s.module.document file).1 p).1 := rfl
  have hemitter : (s.beginCapture file p).2.emitter =
      (s.emitter.beginCapture (s.module.document file).1 p).2 := rfl
  rcases s.emitter.beginCapture_cases (s.module.document file).1 p with ⟨hlast, heq⟩ | ⟨hlast, heq⟩
  · exact Or.inl ⟨hlast, by rw [hid, heq], by rw [hemitter, heq]⟩
  · exact Or.inr ⟨hlast, by rw [hid, heq], by rw [hemitter, heq]⟩

/-- A request begins a capture exactly if none was made before at the same instruction, and
captures are numbered in the order in which they begin. -/
structure Begins (log : List Exchange) (e : Emitter) : Prop where
  count : e.count = instructionsIn log
  answered : ∀ i x file position, log[i]? = some x → x.request = .beginCapture file position →
    ∃ c, BeginAt log i file position c
  captures : ∀ i file position c, BeginAt log i file position c →
    (c.isSome = true ↔ ∀ j, j < i → BeginsAt log j → countAt log j ≠ countAt log i)
  latest : e.lastStart = some (instructionsIn log) ↔
    ∃ j, BeginsAt log j ∧ countAt log j = instructionsIn log
  bound : ∀ n, e.lastStart = some n → n ≤ instructionsIn log
  numbered : ∀ i id, Captured log i id → id < e.nextCapture
  unique : ∀ i j id, Captured log i id → Captured log j id → i = j

namespace Begins

variable {e e' : Emitter}

theorem of_untouched (h : e.Untouched) : Begins [] e where
  count := by rw [Emitter.count, h.instructions]; rfl
  answered i x file position hx := by cases hx
  captures i file position c hb := absurd hb.lt (Nat.not_lt_zero i)
  latest := by
    rw [h.lastStart]
    exact ⟨nofun, fun ⟨j, hj, _⟩ => absurd hj.lt (Nat.not_lt_zero j)⟩
  bound n hn := by rw [h.lastStart] at hn; cases hn
  numbered i id hc := absurd hc.lt (Nat.not_lt_zero i)
  unique i j id hi := absurd hi.lt (Nat.not_lt_zero i)

/-- No two captures begin before the same instruction. -/
theorem index_eq (h : Begins log e) {i j id id' : Nat} (hi : Captured log i id)
    (hj : Captured log j id') (heq : countAt log i = countAt log j) : i = j := by
  obtain ⟨_, _, hbi⟩ := hi
  obtain ⟨_, _, hbj⟩ := hj
  rcases Nat.lt_trichotomy i j with hlt | rfl | hgt
  · exact absurd heq ((h.captures j _ _ _ hbj).mp rfl i hlt ⟨_, _, _, hbi⟩)
  · rfl
  · exact absurd heq.symm ((h.captures i _ _ _ hbi).mp rfl j hgt ⟨_, _, _, hbj⟩)

/-- An exchange that begins nothing. -/
theorem other (h : Begins log e) (hx : ∀ file position, x.request ≠ .beginCapture file position)
    (hcount : e'.count = e.count + instructionsIn [x]) (hlast : e'.lastStart = e.lastStart)
    (hnext : e'.nextCapture = e.nextCapture) : Begins (log ++ [x]) e' := by
  have hbegin : ∀ {i file position c}, BeginAt (log ++ [x]) i file position c ↔
      BeginAt log i file position c := by
    intro i file position c
    rw [beginAt_append]
    refine ⟨fun hb => hb.resolve_right fun hb => hx file position ?_, Or.inl⟩
    rw [hb.2]
  have hbegins : ∀ {i}, BeginsAt (log ++ [x]) i ↔ BeginsAt log i := by
    intro i
    simp only [BeginsAt, hbegin]
  have hle : instructionsIn log ≤ instructionsIn (log ++ [x]) := by
    rw [instructionsIn_append]
    exact Nat.le_add_right _ _
  refine ⟨by rw [hcount, h.count, instructionsIn_append], ?_, ?_, ?_, ?_, ?_, ?_⟩
  · intro i y file position hy hreq
    rcases getElem?_append_last.mp hy with hy | ⟨-, rfl⟩
    · obtain ⟨c, hb⟩ := h.answered i y file position hy hreq
      exact ⟨c, hbegin.mpr hb⟩
    · exact absurd hreq (hx file position)
  · intro i file position c hb
    have hb := hbegin.mp hb
    rw [h.captures i file position c hb]
    refine forall_congr' fun j => forall_congr' fun hj => ?_
    rw [hbegins, countAt_append (Nat.le_of_lt hb.lt),
      countAt_append (Nat.le_of_lt (Nat.lt_trans hj hb.lt))]
  · -- a new instruction is one before which nothing has begun yet
    rw [hlast]
    by_cases hemit : instructionsIn [x] = 0
    · have hsame : instructionsIn (log ++ [x]) = instructionsIn log := by
        rw [instructionsIn_append, hemit, Nat.add_zero]
      rw [hsame, h.latest]
      refine exists_congr fun j => ?_
      rw [hbegins]
      exact and_congr_right fun hj => by rw [countAt_append (Nat.le_of_lt hj.lt)]
    · have hlt : instructionsIn log < instructionsIn (log ++ [x]) := by
        rw [instructionsIn_append]
        omega
      constructor
      · intro hsome
        exact absurd (h.bound _ hsome) (by omega)
      · rintro ⟨j, hj, hcountj⟩
        have hj := hbegins.mp hj
        rw [countAt_append (Nat.le_of_lt hj.lt)] at hcountj
        have := countAt_le log j
        omega
  · intro n hn
    rw [hlast] at hn
    exact Nat.le_trans (h.bound n hn) hle
  · intro i id hc
    rw [hnext]
    exact h.numbered i id ((captured_append_of_ne hx).mp hc)
  · intro i j id hi hj
    exact h.unique i j id ((captured_append_of_ne hx).mp hi) ((captured_append_of_ne hx).mp hj)

/-- A request to begin a capture. -/
theorem began (h : Begins log e) {file : SourceFile} {position : Position} {d : Document}
    (hx : x = ⟨.beginCapture file position, .ok (.capture (e.beginCapture d position).1)⟩) :
    Begins (log ++ [x]) (e.beginCapture d position).2 := by
  have hsame : instructionsIn (log ++ [x]) = instructionsIn log := by
    rw [instructionsIn_append, hx]
    rfl
  have hnew : BeginsAt (log ++ [x]) log.length :=
    ⟨file, position, _, beginAt_append.mpr (Or.inr ⟨rfl, hx⟩)⟩
  have hbegins : ∀ {j}, j < log.length → (BeginsAt (log ++ [x]) j ↔ BeginsAt log j) := by
    intro j hj
    refine exists_congr fun f => exists_congr fun p => exists_congr fun c => ?_
    rw [beginAt_append]
    exact ⟨fun hb => hb.resolve_right fun hb => by omega, Or.inl⟩
  -- whether a capture begins is read off the latest start
  have hfresh : (e.beginCapture d position).1.isSome = true ↔
      ∀ j, j < log.length → BeginsAt log j → countAt log j ≠ instructionsIn log := by
    have hlatest := h.latest
    rw [← h.count] at hlatest
    rw [← h.count]
    rcases e.beginCapture_cases d position with ⟨hlast, heq⟩ | ⟨hlast, heq⟩ <;> rw [heq]
    · obtain ⟨j, hj, hcount⟩ := hlatest.mp hlast
      exact ⟨nofun, fun hall => absurd hcount (hall j hj.lt hj)⟩
    · exact ⟨fun _ j _ hj hcount => hlast (hlatest.mpr ⟨j, hj, hcount⟩), fun _ => rfl⟩
  have hcount : (e.beginCapture d position).2.count = instructionsIn log := by
    rw [← h.count, Emitter.count, (e.sameCode_beginCapture d position).instructions]
    rfl
  have hlast : (e.beginCapture d position).2.lastStart = some (instructionsIn log) := by
    rcases e.beginCapture_cases d position with ⟨hlast, heq⟩ | ⟨-, heq⟩ <;> rw [heq, ← h.count]
    exact hlast
  have hnext : e.nextCapture ≤ (e.beginCapture d position).2.nextCapture := by
    rcases e.beginCapture_cases d position with ⟨-, heq⟩ | ⟨-, heq⟩
    · exact Nat.le_of_eq (by rw [heq])
    · rw [heq]
      exact Nat.le_succ _
  have hnumber : ∀ {f p id}, x = ⟨.beginCapture f p, .ok (.capture (some id))⟩ →
      id = e.nextCapture ∧ id < (e.beginCapture d position).2.nextCapture := by
    intro f p id hid
    have hsome : (e.beginCapture d position).1 = some id := by
      rw [hx] at hid
      simpa using (congrArg Exchange.reply hid)
    rcases e.beginCapture_cases d position with ⟨-, heq⟩ | ⟨-, heq⟩ <;> rw [heq] at hsome ⊢
    · cases hsome
    · cases hsome
      exact ⟨rfl, Nat.lt_succ_self _⟩
  refine ⟨by rw [hcount, hsame], ?_, ?_, ?_, ?_, ?_, ?_⟩
  · intro i y f p hy hreq
    rcases getElem?_append_last.mp hy with hy | ⟨rfl, rfl⟩
    · obtain ⟨c, hb⟩ := h.answered i y f p hy hreq
      exact ⟨c, beginAt_append.mpr (Or.inl hb)⟩
    · rw [hx] at hreq
      cases hreq
      exact ⟨_, beginAt_append.mpr (Or.inr ⟨rfl, hx⟩)⟩
  · intro i f p c hb
    rcases beginAt_append.mp hb with hb | ⟨rfl, hxb⟩
    · rw [h.captures i f p c hb]
      refine forall_congr' fun j => forall_congr' fun hj => ?_
      rw [hbegins (Nat.lt_trans hj hb.lt), countAt_append (Nat.le_of_lt hb.lt),
        countAt_append (Nat.le_of_lt (Nat.lt_trans hj hb.lt))]
    · obtain rfl : (e.beginCapture d position).1 = c := by
        rw [hx] at hxb
        simpa using (congrArg Exchange.reply hxb)
      rw [hfresh]
      refine forall_congr' fun j => forall_congr' fun hj => ?_
      rw [hbegins hj, countAt_append_length, countAt_append (Nat.le_of_lt hj)]
  · rw [hsame]
    exact ⟨fun _ => ⟨log.length, hnew, countAt_append_length⟩, fun _ => hlast⟩
  · intro n hn
    rw [hlast] at hn
    cases hn
    exact Nat.le_of_eq hsame.symm
  · rintro i id ⟨f, p, hb⟩
    rcases beginAt_append.mp hb with hb | ⟨-, hxb⟩
    · exact Nat.lt_of_lt_of_le (h.numbered i id ⟨f, p, hb⟩) hnext
    · exact (hnumber hxb).2
  · -- the new capture has a number that none had before
    have hlater : ∀ {i f p f' p' id}, BeginAt log i f p (some id) →
        x ≠ ⟨.beginCapture f' p', .ok (.capture (some id))⟩ := by
      intro i f p f' p' id hb hxb
      have hlt := h.numbered i id ⟨f, p, hb⟩
      rw [(hnumber hxb).1] at hlt
      exact Nat.lt_irrefl _ hlt
    rintro i j id ⟨f, p, hi⟩ ⟨f', p', hj⟩
    rcases beginAt_append.mp hi with hi | ⟨rfl, hxi⟩ <;>
      rcases beginAt_append.mp hj with hj | ⟨rfl, hxj⟩
    · exact h.unique i j id ⟨f, p, hi⟩ ⟨f', p', hj⟩
    · exact absurd hxj (hlater hi)
    · exact absurd hxi (hlater hj)
    · rfl

theorem step {s s' : Emission} (h : Begins log s.emitter) (hs : s.Advances x s') :
    Begins (log ++ [x]) s'.emitter := by
  cases hs with
  | other hb _ hcount hsame _ => exact h.other hb hcount hsame.lastStart hsame.nextCapture
  | began file position => exact h.began rfl
  | ended id =>
    have hsame := s.emitter.endCapture_keeps id
    exact h.other (by simp) hsame.1 hsame.2.1 hsame.2.2

end Begins

end MarkupLowering
