import MarkupLowering.Proofs.Emitter.Labels

/-!
# MarkupLowering.Proofs.Emitter.Code

The **instructions of a body** against the history of its emitter, while it is written and when it
is finished.

* `Written` is the invariant of a body in the making: its instructions are the granted ones, in
  order, and each operand stands for the one that was asked for (`Encodes`). Of the emitter only
  the number of slots matters for that, which never goes down.
* `finishFrom_ok` and `finishFrom_error` say what the pass over the branches does: either every
  instruction is finished at its offset, or the error is that of the first one that cannot be.
-/

namespace MarkupLowering

/-! ### Operands that were asked for -/

/-- The number that an operand encodes, if it encodes one. -/
def PendingArgument.number? : PendingArgument → Option Int
  | .ready (.int value) => some value.toInt
  | .ready (.slot index) => some index.toNat
  | _ => none

/-- An instruction stands for an opcode and an operand that were asked for, in a body with a
number of slots. -/
structure Encodes (slots : Nat) (p : Opcode × Operand) (i : PendingInstruction) : Prop where
  opcode : i.opcode = p.1
  /-- Branches, and only they, keep their label. -/
  label : ∀ l, i.argument = .branch l ↔ p.2 = .label l
  isBranch : (∃ l, p.2 = .label l) ↔ p.1.operandType.isBranch = true
  /-- Numbers and slots are the very ones that were asked for. -/
  number : ∀ n, i.argument.number? = some n → p.2.shortValue? = some n
  slot : ∀ index, i.argument = .ready (.slot index) → index.toNat < slots
  range : Emission.overflow? p.1 p.2 = none

theorem Encodes.mono {slots slots' : Nat} {p : Opcode × Operand} {i : PendingInstruction}
    (h : Encodes slots p i) (hle : slots ≤ slots') : Encodes slots' p i :=
  { h with slot := fun index hi => Nat.lt_of_lt_of_le (h.slot index hi) hle }

namespace Emitter

theorem argument_inv {e : Emitter} {index : Int32} {a : Argument} (h : e.argument index = .ok a) :
    a = .this ∨ ∃ n, a = .param n := by
  unfold argument at h
  split at h
  · split at h
    · injection h with h
      subst h
      split
      · split
        · exact Or.inl rfl
        · exact Or.inr ⟨_, rfl⟩
      · exact Or.inr ⟨_, rfl⟩
    · cases h
  · cases h

theorem slotAt_inv {e : Emitter} {index : Int32} {a : Argument} (h : e.slotAt index = .ok a) :
    ∃ n : Nat, index.toInt = n ∧ n < e.locals.size ∧ a = .slot n.toUInt16 := by
  unfold slotAt at h
  split at h
  · rename_i n hn
    split at h
    · rename_i hlt
      cases h
      exact ⟨n, hn, hlt, rfl⟩
    · cases h
  · cases h

theorem slotOf_inv {e : Emitter} {s : Slot} {a : Argument} (h : e.slotOf s = .ok a) :
    a = .slot s.index ∧ s.index.toNat < e.locals.size := by
  unfold slotOf at h
  split at h
  · rename_i type htype
    split at h
    · injection h with h
      exact ⟨h.symm, (Array.getElem?_eq_some_iff.mp htype).1⟩
    · cases h
  · cases h

end Emitter

namespace OperandType

theorem isBranch_of_isArgument {t : OperandType} (h : t.isArgument = true) :
    t.isBranch = false := by
  cases t <;> first | rfl | cases h

theorem isBranch_of_isSlot {t : OperandType} (h : t.isSlot = true) : t.isBranch = false := by
  cases t <;> first | rfl | cases h

end OperandType

open Emission in
/-- An operand that was reduced stands for the one that was asked for. -/
theorem encodes_of_reduces {m : Module} {e : Emitter} {op : Opcode} {x : Operand}
    {p : PendingArgument} (hsize : e.locals.size ≤ maxLocals) (hx : overflow? op x = none)
    (h : Reduces m e op.operandType x p) : Encodes e.locals.size (op, x) ⟨op, p⟩ := by
  generalize ht : op.operandType = t at h
  cases h with
  | argument hta ha =>
    have hb := OperandType.isBranch_of_isArgument hta
    obtain rfl | ⟨n, rfl⟩ := Emitter.argument_inv ha
    all_goals exact ⟨rfl, by simp, by simp [ht, hb], by simp [PendingArgument.number?], by simp, hx⟩
  | slotAt hts ha =>
    have hb := OperandType.isBranch_of_isSlot hts
    obtain ⟨n, hn, hlt, rfl⟩ := Emitter.slotAt_inv ha
    -- slots are numbered below the limit, so no number is cut off
    have hsame : n.toUInt16.toNat = n := by
      rw [Nat.toUInt16, UInt16.toNat_ofNat']
      exact Nat.mod_eq_of_lt (Nat.lt_of_lt_of_le hlt hsize)
    refine ⟨rfl, by simp, by simp [ht, hb], ?_, ?_, hx⟩
    · simp [PendingArgument.number?, Operand.shortValue?, hn, hsame]
    · intro index hi
      have hindex : n.toUInt16 = index := by simpa using hi
      rw [← hindex, hsame]
      exact hlt
  | @slotOf _ s _ hts ha =>
    have hb := OperandType.isBranch_of_isSlot hts
    obtain ⟨rfl, hlt⟩ := Emitter.slotOf_inv ha
    refine ⟨rfl, by simp, by simp [ht, hb], ?_, ?_, hx⟩
    · simp [PendingArgument.number?, Operand.shortValue?]
    · intro index hi
      have hindex : s.index = index := by simpa using hi
      rw [← hindex]
      exact hlt
  | branch htb hl =>
    exact ⟨rfl, by simp, by simp [ht, htb], by simp [PendingArgument.number?], by simp, hx⟩
  | _ =>
    exact ⟨rfl, by simp, by simp [ht, OperandType.isBranch],
      by simp [PendingArgument.number?, Operand.shortValue?], by simp, hx⟩

/-! ### Bodies in the making -/

/-- The instructions are the granted ones, in order. -/
structure Written (log : List Request) (e : Emitter) : Prop where
  size : e.instructions.size = (emitted log).length
  encodes : ∀ (k : Nat) (i : PendingInstruction), e.instructions[k]? = some i →
    ∃ p, (emitted log)[k]? = some p ∧ Encodes e.locals.size p i
  slots : e.locals.size ≤ Emission.maxLocals

namespace Written

variable {log : List Request} {r : Request} {e e' : Emitter}

theorem of_fresh (h : e.Fresh) : Written [] e where
  size := by rw [h.instructions]; rfl
  encodes k i hi := by rw [h.instructions] at hi; simp at hi
  slots := by rw [h.locals]; exact Nat.zero_le _

/-- A request that is no instruction may only add slots. -/
theorem other (h : Written log e) (hr : r.instruction? = none)
    (hsame : e'.instructions = e.instructions) (hle : e.locals.size ≤ e'.locals.size)
    (hmax : e'.locals.size ≤ Emission.maxLocals) : Written (log ++ [r]) e' := by
  have hlog : emitted (log ++ [r]) = emitted log := by simp [emitted, hr]
  refine ⟨by rw [hsame, hlog, h.size], fun k i hi => ?_, hmax⟩
  rw [hsame] at hi
  obtain ⟨p, hp, henc⟩ := h.encodes k i hi
  exact ⟨p, by rw [hlog, hp], henc.mono hle⟩

theorem emit (h : Written log e) {op : Opcode} {x : Operand} {p : PendingArgument}
    (henc : Encodes e.locals.size (op, x) ⟨op, p⟩) :
    Written (log ++ [.emit op x]) (e.append ⟨op, p⟩) := by
  have hlog : emitted (log ++ [.emit op x]) = emitted log ++ [(op, x)] := by
    rw [emitted_append, emitted_emit]
  refine ⟨by simp [Emitter.append, hlog, h.size], fun k i hi => ?_, h.slots⟩
  simp only [Emitter.append, Array.getElem?_push] at hi
  split at hi
  · rename_i hk
    injection hi with hi
    subst hk hi
    exact ⟨(op, x), by simp [hlog, h.size], henc⟩
  · obtain ⟨p', hp', henc'⟩ := h.encodes k i hi
    refine ⟨p', ?_, henc'⟩
    rw [hlog, List.getElem?_append_left (List.getElem?_eq_some_iff.mp hp').1, hp']

/-- Every granted request keeps the instructions as the history says. -/
theorem step {m : Module} {s : Emission} (h : Written log e)
    (hr : r.perform ⟨m, e⟩ = .ok () s) : Written (log ++ [r]) s.emitter := by
  rcases Request.perform_code hr with ⟨op, x, p, rfl, hx, hred, hs⟩ | ⟨hnone, hsame⟩
  · rw [hs]
    exact h.emit (encodes_of_reduces h.slots hx hred)
  · have hadds := Request.addsSlots hr
    exact h.other hnone hsame hadds.le (hadds.limit h.slots)

theorem of_run {M : Module → Prop} {e₀ : Emitter} (h₀ : e₀.Fresh) (h : Run M e₀ log e) :
    Written log e :=
  Run.induct (of_fresh h₀) (fun hw _ hr => hw.step hr) h

end Written

/-! ### Instructions that were appended -/

/-- The instructions that one emitter has and another had not yet, in order. -/
structure Emitter.Appends (e : Emitter) (code : List (Opcode × Operand)) (e' : Emitter) : Prop where
  size : e'.instructions.size = e.instructions.size + code.length
  kept : ∀ (k : Nat) (i : PendingInstruction), e.instructions[k]? = some i →
    e'.instructions[k]? = some i
  encodes : ∀ (k : Nat) (p : Opcode × Operand), code[k]? = some p →
    ∃ i, e'.instructions[e.instructions.size + k]? = some i ∧ Encodes e'.locals.size p i

namespace Emitter.Appends

variable {e e₁ e₂ : Emitter} {code code' : List (Opcode × Operand)}

theorem none (h : e₁.instructions = e.instructions) : e.Appends [] e₁ where
  size := by rw [h]; rfl
  kept k i hi := by rw [h, hi]
  encodes k p hp := by cases hp

theorem one {op : Opcode} {x : Operand} {p : PendingArgument}
    (henc : Encodes e.locals.size (op, x) ⟨op, p⟩) : e.Appends [(op, x)] (e.append ⟨op, p⟩) where
  size := by simp [Emitter.append]
  kept k i hi := by
    have hlt := (Array.getElem?_eq_some_iff.mp hi).1
    rw [Emitter.append, Array.getElem?_push, if_neg (Nat.ne_of_lt hlt), hi]
  encodes k q hq := by
    obtain ⟨rfl, rfl⟩ : k = 0 ∧ (op, x) = q := by
      rw [List.getElem?_singleton] at hq
      split at hq
      · rename_i hk
        exact ⟨hk, Option.some.inj hq⟩
      · cases hq
    exact ⟨⟨op, p⟩, by simp [Emitter.append], henc⟩

theorem trans (h : e.Appends code e₁) (h' : e₁.Appends code' e₂)
    (hle : e₁.locals.size ≤ e₂.locals.size) : e.Appends (code ++ code') e₂ where
  size := by rw [h'.size, h.size, List.length_append, Nat.add_assoc]
  kept k i hi := h'.kept k i (h.kept k i hi)
  encodes k p hp := by
    rw [List.getElem?_append] at hp
    split at hp
    · obtain ⟨i, hi, henc⟩ := h.encodes k p hp
      exact ⟨i, h'.kept _ i hi, henc.mono hle⟩
    · rename_i hk
      obtain ⟨i, hi, henc⟩ := h'.encodes _ p hp
      refine ⟨i, ?_, henc⟩
      rw [← hi, h.size]
      congr 1
      omega

end Emitter.Appends

/-- A script appends the instructions that it asks for. -/
theorem Request.appends_of_script {rs : List Request} {s s' : Emission}
    (hlimit : s.emitter.locals.size ≤ Emission.maxLocals) (h : script rs s = .ok () s') :
    s.emitter.Appends (emitted rs) s'.emitter ∧ s.emitter.locals.size ≤ s'.emitter.locals.size := by
  induction rs generalizing s with
  | nil =>
    obtain ⟨-, rfl⟩ := pure_inv h
    exact ⟨.none rfl, Nat.le_refl _⟩
  | cons r rs ih =>
    obtain ⟨_, s₁, hr, hrs⟩ := bind_inv h
    have hadds := Request.addsSlots hr
    obtain ⟨htail, hle⟩ := ih (hadds.limit hlimit) hrs
    have hsplit : emitted (r :: rs) = emitted [r] ++ emitted rs := emitted_append [r] rs
    refine ⟨?_, Nat.le_trans hadds.le hle⟩
    rw [hsplit]
    rcases Request.perform_code hr with ⟨op, x, p, rfl, hx, hred, hs⟩ | ⟨hnone, hsame⟩
    · have henc := encodes_of_reduces hlimit hx hred
      have hone : s.emitter.Appends [(op, x)] s₁.emitter := by
        rw [hs]
        exact .one henc
      exact hone.trans htail hle
    · have hempty : emitted [r] = [] := by simp [emitted, hnone]
      rw [hempty]
      exact (Emitter.Appends.none hsame).trans htail hle

/-! ### The finishing pass -/

namespace Emitter

theorem getElem?_offsetsFrom (start : Nat) (is : List PendingInstruction) (k : Nat)
    (hk : k < is.length) : (offsetsFrom start is)[k]? = some (start + codeSize (is.take k)) := by
  induction is generalizing start k with
  | nil => exact absurd hk (Nat.not_lt_zero k)
  | cons i is ih =>
    cases k with
    | zero => simp [offsetsFrom]
    | succ k =>
      rw [offsetsFrom, List.getElem?_cons_succ, ih _ _ (by simpa using hk), List.take_succ_cons,
        codeSize_cons, Nat.add_assoc]

/-- The finished operand of the instruction at position `j` of a list whose first instruction has
number `index` and stands at `offset`. -/
def argumentAt (labels : LabelTable) (offsets : Array Nat) (index offset : Nat)
    (is : List PendingInstruction) (j : Nat) (i : PendingInstruction) :
    Except EmitError Argument :=
  finishArgument labels offsets (index + j) (offset + codeSize (is.take j)) i

variable {labels : LabelTable} {offsets : Array Nat}

theorem argumentAt_zero {index offset : Nat} {is : List PendingInstruction}
    (i : PendingInstruction) :
    argumentAt labels offsets index offset is 0 i =
      finishArgument labels offsets index offset i := by
  rw [argumentAt, List.take_zero]
  rfl

theorem argumentAt_succ {index offset : Nat} {head : PendingInstruction}
    {is : List PendingInstruction} (j : Nat) (i : PendingInstruction) :
    argumentAt labels offsets index offset (head :: is) (j + 1) i =
      argumentAt labels offsets (index + 1) (offset + head.opcode.encodedSize) is j i := by
  rw [argumentAt, argumentAt, List.take_succ_cons, codeSize_cons, Nat.add_assoc offset,
    Nat.add_assoc index, Nat.add_comm 1 j]

/-- When the pass succeeds, every instruction was finished at its offset. -/
theorem finishFrom_ok {index offset : Nat} {done out : Array Instruction}
    {is : List PendingInstruction}
    (h : finishFrom labels offsets index offset done is = .ok out) :
    out.size = done.size + is.length ∧
    (∀ k, k < done.size → out[k]? = done[k]?) ∧
    ∀ (j : Nat) (i : PendingInstruction), is[j]? = some i →
      ∃ a, argumentAt labels offsets index offset is j i = .ok a ∧
        out[done.size + j]? = some ⟨offset + codeSize (is.take j), i.opcode, a⟩ := by
  induction is generalizing index offset done with
  | nil =>
    injection h with h
    subst h
    exact ⟨rfl, fun _ _ => rfl, fun j i hi => by simp at hi⟩
  | cons head is ih =>
    rw [finishFrom] at h
    cases ha : finishArgument labels offsets index offset head with
    | error err =>
      rw [ha] at h
      cases h
    | ok a =>
      rw [ha] at h
      -- the rest is finished with the head already in its place, which it keeps
      obtain ⟨hsize, hkeep, hrest⟩ := ih h
      rw [Array.size_push] at hsize hkeep hrest
      refine ⟨by rw [hsize, List.length_cons]; omega, fun k hk => ?_, fun j i hi => ?_⟩
      · rw [hkeep k (by omega), Array.getElem?_push, if_neg (by omega)]
      · cases j with
        | zero =>
          obtain rfl : head = i := by simpa using hi
          refine ⟨a, by rw [argumentAt_zero, ha], ?_⟩
          rw [Nat.add_zero, hkeep _ (by omega)]
          simp
        | succ j =>
          obtain ⟨a', ha', hout⟩ := hrest j i (by simpa using hi)
          refine ⟨a', by rw [argumentAt_succ, ha'], ?_⟩
          rw [← Nat.add_assoc, Nat.add_right_comm, hout, List.take_succ_cons, codeSize_cons,
            Nat.add_assoc]

/-- When the pass fails, the error is that of the first instruction that cannot be finished. -/
theorem finishFrom_error {index offset : Nat} {done : Array Instruction}
    {is : List PendingInstruction} {err : EmitError}
    (h : finishFrom labels offsets index offset done is = .error err) :
    ∃ j i, is[j]? = some i ∧ argumentAt labels offsets index offset is j i = .error err ∧
      ∀ j' i', j' < j → is[j']? = some i' →
        ∃ a, argumentAt labels offsets index offset is j' i' = .ok a := by
  induction is generalizing index offset done with
  | nil => cases h
  | cons head is ih =>
    rw [finishFrom] at h
    cases ha : finishArgument labels offsets index offset head with
    | error err' =>
      rw [ha] at h
      cases h
      refine ⟨0, head, rfl, by rw [argumentAt_zero, ha], fun j' _ hj' => ?_⟩
      exact absurd hj' (Nat.not_lt_zero j')
    | ok a =>
      rw [ha] at h
      obtain ⟨j, i, hi, herr, hbefore⟩ := ih h
      refine ⟨j + 1, i, by simpa using hi, by rw [argumentAt_succ, herr], fun j' i' hj' hi' => ?_⟩
      cases j' with
      | zero =>
        obtain rfl : head = i' := by simpa using hi'
        exact ⟨a, by rw [argumentAt_zero, ha]⟩
      | succ j' =>
        rw [argumentAt_succ]
        exact hbefore j' i' (by omega) (by simpa using hi')

/-- Finishing ends the captures, takes the bindings of staged labels away, and passes over the
instructions. -/
theorem finishedBody_eq (e : Emitter) :
    e.finishedBody =
      match finishFrom e.labels.unbindStaged (offsetsFrom 0 e.instructions.toList).toArray 0 0 #[]
        e.instructions.toList with
      | .error err => .error err
      | .ok instructions =>
        .ok { instructions, locals := e.locals, codeSize := codeSize e.instructions.toList
              debug :=
                (endAllCaptures { e with labels := e.labels.unbindStaged }).debug.sorted } := by
  have hsame := sameCode_endAllCaptures { e with labels := e.labels.unbindStaged }
  have hpending : (endAllCaptures { e with labels := e.labels.unbindStaged }).instructions =
      e.instructions := hsame.instructions
  have hlabels : (endAllCaptures { e with labels := e.labels.unbindStaged }).labels =
      e.labels.unbindStaged := hsame.labels
  have hlocals : (endAllCaptures { e with labels := e.labels.unbindStaged }).locals =
      e.locals := hsame.locals
  unfold finishedBody
  cases hpass : finishFrom e.labels.unbindStaged (offsetsFrom 0 e.instructions.toList).toArray 0 0
    #[] e.instructions.toList with
  | error err => simp only [hpending, hlabels, hpass]
  | ok instructions => simp only [hpending, hlabels, hlocals, hpass]

end Emitter

end MarkupLowering
