import MarkupLowering.Proofs.Emitter.Captures

/-!
# MarkupLowering.Proofs.Emitter.Arguments

**Argument slots.** The first slot of an instance method is its object, and the parameters follow
in order; a static method starts with its parameters. A slot is asked for by its number and
written as the number of the parameter, in 16 bits.

* `emit_argument` says once what an emitter does when it is asked for an argument slot.
* `argument_slots_exact_iff` is the main statement. The slots that are accepted are those that the
  method has, but a parameter is told by its number only up to the 65536th: the number of a later
  one is cut off, and the instruction reads another parameter (`argument_slots_not_always_exact`).
-/

namespace MarkupLowering

open Emission

/-! ### Slots of a method -/

namespace MethodRow

/-- The slots before the first parameter: the object of an instance method has one. -/
def firstParam (r : MethodRow) : Nat := if r.isStatic then 0 else 1

/-- The number of argument slots. -/
def argumentSlots (r : MethodRow) : Nat := r.params.length + r.firstParam

/-- What an argument slot is. -/
inductive SlotIs (r : MethodRow) : Int → Argument → Prop
  | this : r.isStatic = false → r.SlotIs 0 .this
  | param {p : UInt16} : p.toNat < r.params.length → r.SlotIs (p.toNat + r.firstParam) (.param p)

theorem firstParam_le (r : MethodRow) : r.firstParam ≤ 1 := by
  unfold firstParam
  split <;> omega

/-- No argument is two slots. -/
theorem SlotIs.unique {r : MethodRow} {i j : Int} {a : Argument} (hi : r.SlotIs i a)
    (hj : r.SlotIs j a) : i = j := by
  cases hi with
  | this => cases hj; rfl
  | param => cases hj; rfl

end MethodRow

/-! ### What the emitter knows of its method -/

/-- The emitter writes the body of a method with these parameters. -/
structure Emitter.WritesFor (e : Emitter) (r : MethodRow) : Prop where
  hasThis : e.hasThis = !r.isStatic
  paramCount : e.paramCount = r.params.length

theorem Emitter.SameCode.writesFor {e e' : Emitter} {r : MethodRow} (h : e.SameCode e')
    (he : e.WritesFor r) : e'.WritesFor r := by
  unfold SameCode at h
  rw [h]
  exact ⟨he.hasThis, he.paramCount⟩

theorem Request.writesFor {r : Request} {s s' : Emission} {row : MethodRow}
    (h : r.perform s = .ok () s') (hs : s.emitter.WritesFor row) : s'.emitter.WritesFor row := by
  cases r with
  | emit op x =>
    obtain ⟨p, -, -, he⟩ := emit_inv h
    rw [he]
    exact ⟨hs.hasThis, hs.paramCount⟩
  | defineLocal type =>
    rw [(defineLocal_inv h).2]
    exact ⟨hs.hasThis, hs.paramCount⟩
  | defineLabel =>
    rw [defineLabel_inv h]
    exact ⟨hs.hasThis, hs.paramCount⟩
  | markLabel l =>
    rw [(markLabel_inv h).2]
    exact ⟨hs.hasThis, hs.paramCount⟩
  | beginCapture file position => exact (beginCapture_inv h).writesFor hs
  | endCapture id => exact (endCapture_inv h).writesFor hs

/-- Throughout its history an emitter knows the parameters of the method that it was opened for. -/
theorem Run.writesFor {m : Module} {owner : BodyOwner} {e₀ e : Emitter} {row : MethodRow}
    {M : Module → Prop} {log : List Request} (hopen : m.emitter owner = .ok e₀)
    (hrow : m.methods[e₀.row]? = some row) (h : Run M e₀ log e) : e.WritesFor row := by
  refine Run.induct (P := fun _ e => e.WritesFor row) ?_ (fun he _ hr => Request.writesFor hr he) h
  obtain ⟨method, hmethod, -, he⟩ := Module.emitter_eq hopen
  obtain rfl : method = row := Option.some.inj (hmethod.symm.trans hrow)
  rw [he]
  exact ⟨rfl, rfl⟩

namespace Emitter.WritesFor

variable {e : Emitter} {r : MethodRow} {index : Int32} {a : Argument}

theorem argumentCount (h : e.WritesFor r) : e.argumentCount = r.argumentSlots := by
  rw [Emitter.argumentCount, MethodRow.argumentSlots, MethodRow.firstParam, h.hasThis,
    h.paramCount]
  cases r.isStatic <;> rfl

/-- The slots that there are. -/
theorem argument_isOk (h : e.WritesFor r) :
    (∃ a, e.argument index = .ok a) ↔ 0 ≤ index.toInt ∧ index.toInt < r.argumentSlots := by
  rw [← h.argumentCount]
  unfold Emitter.argument
  cases index.toInt with
  | ofNat slot =>
    by_cases hslot : slot < e.argumentCount
    · simp [hslot]
    · simp [hslot]
  | negSucc n =>
    have hneg : ¬ (0 : Int) ≤ Int.negSucc n := by omega
    simp [hneg]

/-- An argument is the object, or the parameter as far as its number has room. -/
theorem argument_inv (h : e.WritesFor r) (ha : e.argument index = .ok a) :
    (r.isStatic = false ∧ index.toInt = 0 ∧ a = .this) ∨
      ∃ p : Nat, p < r.params.length ∧ index.toInt = p + r.firstParam ∧ a = .param p.toUInt16 := by
  have hrange := h.argument_isOk.mp ⟨a, ha⟩
  unfold MethodRow.argumentSlots MethodRow.firstParam at hrange
  unfold MethodRow.firstParam
  unfold Emitter.argument at ha
  rw [h.hasThis] at ha
  cases hindex : index.toInt with
  | negSucc n =>
    rw [hindex] at hrange
    omega
  | ofNat slot =>
    rw [hindex] at ha hrange
    dsimp only at ha
    split at ha
    · cases hstatic : r.isStatic with
      | true =>
        rw [hstatic] at ha hrange
        cases ha
        exact Or.inr ⟨slot, by simpa using hrange.2, rfl, rfl⟩
      | false =>
        rw [hstatic] at ha hrange
        cases slot with
        | zero =>
          cases ha
          exact Or.inl ⟨rfl, rfl, rfl⟩
        | succ p =>
          cases ha
          exact Or.inr ⟨p, by simp at hrange; omega, rfl, rfl⟩
    · cases ha

/-- The argument is the slot that was asked for as long as its number is not cut off. -/
theorem slotIs_iff (h : e.WritesFor r) (ha : e.argument index = .ok a) :
    r.SlotIs index.toInt a ↔ index.toInt < 65536 + r.firstParam := by
  rcases h.argument_inv ha with ⟨hstatic, hindex, rfl⟩ | ⟨p, hp, hindex, rfl⟩
  · rw [hindex]
    exact iff_of_true (.this hstatic) (by omega)
  · have hnumber : p.toUInt16.toNat = p % 65536 := by
      rw [Nat.toUInt16, UInt16.toNat_ofNat']
    rw [hindex]
    constructor
    · intro hslot
      generalize hi : (p : Int) + r.firstParam = i at hslot
      cases hslot with
      | param _ => omega
    · intro hlt
      have hsame : p.toUInt16.toNat = p := by omega
      have hslot := MethodRow.SlotIs.param (r := r) (p := p.toUInt16) (by rw [hsame]; exact hp)
      rwa [hsame] at hslot

end Emitter.WritesFor

/-! ### Asking for a slot -/

/-- An emitter that is asked for an argument slot looks at the range of the opcode first and at the
slots of the method second. -/
theorem Emission.emit_argument {op : Opcode} (hop : op.operandType.isArgument = true)
    (index : Int32) (s : Emission) :
    emit op (.int index) s =
      if op.operandType.fitsShort index.toInt then
        match s.emitter.argument index with
        | .ok a => .ok () ⟨s.module, s.emitter.append ⟨op, .ready a⟩⟩
        | .error err => .error err s
      else .error (.shortFormOutOfRange op index.toInt) s := by
  simp only [emit, resolve, overflow?, Operand.shortValue?, Bind.bind, EStateM.bind]
  have hreduce : reduce op (.int index) = known (·.argument index) := by
    unfold reduce
    generalize op.operandType = t at hop
    cases t with
    | shortArgument | argument => rfl
    | _ => cases hop
  by_cases hfits : op.operandType.fitsShort index.toInt = true
  · simp only [hfits, Option.filter_some, Bool.not_true, Bool.false_eq_true, if_false, if_true,
      hreduce, known]
    cases s.emitter.argument index <;> rfl
  · simp only [hfits, Option.filter_some, Bool.not_false, if_true, Bool.false_eq_true, if_false]
    rfl

theorem OperandType.fitsShort_argument {t : OperandType} (ht : t.isArgument = true) (value : Int) :
    t.fitsShort value = true ↔ (t = .shortArgument → value ≤ 255) := by
  cases t with
  | shortArgument | argument => simp [fitsShort]
  | _ => cases ht

/-- Asked for an argument slot, the emitter appends an instruction with this operand. -/
def Emitter.Writes (e : Emitter) (op : Opcode) (index : Int32) (a : Argument) : Prop :=
  ∀ m, emit op (.int index) ⟨m, e⟩ = .ok () ⟨m, e.append ⟨op, .ready a⟩⟩

section Slots

variable {e : Emitter} {r : MethodRow} {op : Opcode} {index : Int32} {a : Argument}

/-- What is appended when a slot is accepted. -/
theorem Emission.emit_argument_ok_iff (hop : op.operandType.isArgument = true) {m : Module}
    {s' : Emission} :
    emit op (.int index) ⟨m, e⟩ = .ok () s' ↔
      op.operandType.fitsShort index.toInt = true ∧
        ∃ a, e.argument index = .ok a ∧ s' = ⟨m, e.append ⟨op, .ready a⟩⟩ := by
  rw [emit_argument hop]
  by_cases hfits : op.operandType.fitsShort index.toInt = true
  · simp only [hfits, if_true, true_and]
    cases e.argument index <;> simp [eq_comm]
  · simp [hfits]

theorem Emitter.writes_iff (hop : op.operandType.isArgument = true) :
    e.Writes op index a ↔
      op.operandType.fitsShort index.toInt = true ∧ e.argument index = .ok a := by
  constructor
  · intro h
    obtain ⟨hfits, a', ha', hs⟩ := (emit_argument_ok_iff hop).mp (h default)
    -- the last instruction tells the operand
    have hlast := congrArg (fun s : Emission => s.emitter.instructions.back?) hs
    simp only [Emitter.append, Array.back?_push, Option.some.injEq, PendingInstruction.mk.injEq,
      PendingArgument.ready.injEq, true_and] at hlast
    rw [hlast]
    exact ⟨hfits, ha'⟩
  · rintro ⟨hfits, ha⟩ m
    exact (emit_argument_ok_iff hop).mpr ⟨hfits, a, ha, rfl⟩

theorem Emitter.writes_of_emit (hop : op.operandType.isArgument = true) {m : Module}
    {s' : Emission} (h : emit op (.int index) ⟨m, e⟩ = .ok () s') :
    ∃ a, e.Writes op index a ∧ s' = ⟨m, e.append ⟨op, .ready a⟩⟩ := by
  obtain ⟨hfits, a, ha, hs⟩ := (emit_argument_ok_iff hop).mp h
  exact ⟨a, (Emitter.writes_iff hop).mpr ⟨hfits, ha⟩, hs⟩

/-- A slot is accepted exactly if the method has it and the opcode has room for its number. -/
theorem Emitter.WritesFor.accepts_iff (h : e.WritesFor r) (hop : op.operandType.isArgument = true)
    (m : Module) :
    (∃ s', emit op (.int index) ⟨m, e⟩ = .ok () s') ↔
      0 ≤ index.toInt ∧ index.toInt < r.argumentSlots ∧
        (op.operandType = .shortArgument → index.toInt ≤ 255) := by
  rw [← and_assoc, ← h.argument_isOk, ← OperandType.fitsShort_argument hop]
  simp only [emit_argument_ok_iff hop]
  constructor
  · rintro ⟨_, hfits, a, ha, -⟩
    exact ⟨⟨a, ha⟩, hfits⟩
  · rintro ⟨⟨a, ha⟩, hfits⟩
    exact ⟨_, hfits, a, ha, rfl⟩

/-- Short forms have no room for numbers that are cut off, and neither has a method with few
parameters. -/
theorem Emitter.WritesFor.slotIs_of_writes (h : e.WritesFor r)
    (hop : op.operandType.isArgument = true)
    (hroom : op.operandType = .shortArgument ∨ r.params.length ≤ 65536)
    (ha : e.Writes op index a) : r.SlotIs index.toInt a := by
  obtain ⟨hfits, ha⟩ := (Emitter.writes_iff hop).mp ha
  refine (h.slotIs_iff ha).mpr ?_
  rcases hroom with hshort | hfew
  · have hsmall := (OperandType.fitsShort_argument hop _).mp hfits hshort
    omega
  · have hslots := (h.argument_isOk.mp ⟨a, ha⟩).2
    unfold MethodRow.argumentSlots at hslots
    omega

/-- The first parameter, and the one whose number is the first that has no room. -/
theorem Emitter.WritesFor.writes_first (h : e.WritesFor r) (hop : op.operandType.isArgument = true)
    (hlong : op.operandType ≠ .shortArgument) (hmany : 65536 < r.params.length) {index : Int32}
    (hindex : index.toInt = r.firstParam ∨ index.toInt = 65536 + r.firstParam) :
    e.Writes op index (.param 0) := by
  have hfits := (OperandType.fitsShort_argument hop index.toInt).mpr fun hshort =>
    absurd hshort hlong
  have hrange : 0 ≤ index.toInt ∧ index.toInt < r.argumentSlots := by
    unfold MethodRow.argumentSlots
    omega
  obtain ⟨a, ha⟩ := h.argument_isOk.mpr hrange
  have hparam : a = .param 0 := by
    rcases h.argument_inv ha with ⟨hstatic, hzero, -⟩ | ⟨p, -, hp, rfl⟩
    · have hfirst : r.firstParam = 1 := by rw [MethodRow.firstParam, hstatic]; rfl
      omega
    · obtain rfl | rfl : p = 0 ∨ p = 65536 := by omega
      · rfl
      · rfl
  rw [hparam] at ha
  exact (Emitter.writes_iff hop).mpr ⟨hfits, ha⟩

end Slots

/-- The numbers of the two slots that `writes_first` is about. -/
theorem MethodRow.exists_index (r : MethodRow) :
    ∃ i j : Int32, i.toInt = r.firstParam ∧ j.toInt = 65536 + r.firstParam := by
  rcases Nat.le_one_iff_eq_zero_or_eq_one.mp r.firstParam_le with h | h
  · exact ⟨0, 65536, by rw [h]; rfl, by rw [h]; rfl⟩
  · exact ⟨1, 65537, by rw [h]; rfl, by rw [h]; rfl⟩

/-! ### The main statement -/

/-- Argument slots. Whatever an emitter was asked for before, an opcode for argument slots accepts
exactly the numbers of the slots that the method has, short forms up to 255, and appends an
instruction. Its operand is the slot that was asked for, unless that is a parameter after the
65536th. So all operands are the slots that were asked for, and no two slots have the same operand,
exactly for short forms and for methods with no more than 65536 parameters. -/
theorem argument_slots_exact_iff {m : Module} {owner : BodyOwner} {e₀ e : Emitter}
    {row : MethodRow} {M : Module → Prop} {log : List Request} {op : Opcode}
    (hopen : m.emitter owner = .ok e₀) (hrow : m.methods[e₀.row]? = some row)
    (hrun : Run M e₀ log e) (hop : op.operandType.isArgument = true) :
    (∀ (index : Int32) (m' : Module), (∃ s', emit op (.int index) ⟨m', e⟩ = .ok () s') ↔
      0 ≤ index.toInt ∧ index.toInt < row.argumentSlots ∧
        (op.operandType = .shortArgument → index.toInt ≤ 255)) ∧
    (∀ (index : Int32) (m' : Module) (s' : Emission), emit op (.int index) ⟨m', e⟩ = .ok () s' →
      ∃ a, e.Writes op index a ∧ s' = ⟨m', e.append ⟨op, .ready a⟩⟩ ∧
        (row.SlotIs index.toInt a ↔ index.toInt < 65536 + row.firstParam)) ∧
    ((∀ index a, e.Writes op index a → row.SlotIs index.toInt a) ↔
      op.operandType = .shortArgument ∨ row.params.length ≤ 65536) ∧
    ((∀ index index' a, e.Writes op index a → e.Writes op index' a → index = index') ↔
      op.operandType = .shortArgument ∨ row.params.length ≤ 65536) := by
  have hfor := hrun.writesFor hopen hrow
  obtain ⟨i, j, hi, hj⟩ := row.exists_index
  -- without room the first parameter is written for two slots
  have htwice : ¬ (op.operandType = .shortArgument ∨ row.params.length ≤ 65536) →
      e.Writes op i (.param 0) ∧ e.Writes op j (.param 0) := by
    intro hroom
    obtain ⟨hlong, hmany⟩ := not_or.mp hroom
    rw [Nat.not_le] at hmany
    exact ⟨hfor.writes_first hop hlong hmany (Or.inl hi),
      hfor.writes_first hop hlong hmany (Or.inr hj)⟩
  refine ⟨fun index m' => hfor.accepts_iff hop m', fun index m' s' hs' => ?_, ?_, ?_⟩
  · obtain ⟨a, ha, rfl⟩ := Emitter.writes_of_emit hop hs'
    exact ⟨a, ha, rfl, hfor.slotIs_iff ((Emitter.writes_iff hop).mp ha).2⟩
  · refine ⟨fun hexact => ?_, fun hroom index a ha => hfor.slotIs_of_writes hop hroom ha⟩
    refine Decidable.byContradiction fun hroom => ?_
    obtain ⟨hfirst, hlast⟩ := htwice hroom
    have hsame := (hexact i _ hfirst).unique (hexact j _ hlast)
    omega
  · refine ⟨fun hinj => ?_, fun hroom index index' a ha ha' => ?_⟩
    · refine Decidable.byContradiction fun hroom => ?_
      obtain ⟨hfirst, hlast⟩ := htwice hroom
      have hsame := congrArg Int32.toInt (hinj i j _ hfirst hlast)
      omega
    · have hslot := hfor.slotIs_of_writes hop hroom ha
      have hslot' := hfor.slotIs_of_writes hop hroom ha'
      exact Int32.toInt_inj.mp (hslot.unique hslot')

/-- A method with so many parameters that the number of the last has no room. -/
def wideRow : MethodRow :=
  { (default : MethodRow) with params := List.replicate 65537 default }

theorem length_wideRow : wideRow.params.length = 65537 := List.length_replicate

/-- A module with this method. -/
def wideModule : Module := { (default : Module) with methods := #[wideRow] }

/-- The emitter of the method. -/
def wideEmitter : Emitter := { onlyEmitter with paramCount := wideRow.params.length }

theorem emitter_wideModule : wideModule.emitter onlyMethod = .ok wideEmitter := rfl

theorem methods_wideModule : wideModule.methods[wideEmitter.row]? = some wideRow := rfl

/-- Short forms are exact all the same. -/
theorem argument_slots_exact_short :
    wideModule.emitter onlyMethod = .ok wideEmitter ∧
      wideModule.methods[wideEmitter.row]? = some wideRow ∧
      (∀ index a, wideEmitter.Writes .stargS index a → wideRow.SlotIs index.toInt a) ∧
      ∀ m, (∃ s', emit .stargS (.int 255) ⟨m, wideEmitter⟩ = .ok () s') ∧
        ¬ ∃ s', emit .stargS (.int 256) ⟨m, wideEmitter⟩ = .ok () s' := by
  have hrun : Run (fun _ => True) wideEmitter [] wideEmitter := .start
  have hop : Opcode.stargS.operandType.isArgument = true := rfl
  obtain ⟨haccepts, -, hexact, -⟩ :=
    argument_slots_exact_iff emitter_wideModule methods_wideModule hrun hop
  have hfirst : wideRow.firstParam = 1 := rfl
  have hslots : wideRow.argumentSlots = 65538 := by
    rw [MethodRow.argumentSlots, length_wideRow, hfirst]
  refine ⟨emitter_wideModule, methods_wideModule, hexact.mpr (Or.inl rfl), fun m => ⟨?_, ?_⟩⟩
  · rw [haccepts, hslots]
    decide
  · rw [haccepts]
    rintro ⟨-, -, hshort⟩
    exact absurd (hshort rfl) (by decide)

/-- The last slot of the method is accepted, and what is written is the first parameter, which is
slot 1. -/
theorem argument_slots_not_always_exact :
    wideModule.emitter onlyMethod = .ok wideEmitter ∧
      wideModule.methods[wideEmitter.row]? = some wideRow ∧
      wideEmitter.Writes .ldarg 65537 (.param 0) ∧ wideEmitter.Writes .ldarg 1 (.param 0) ∧
      wideRow.SlotIs 1 (.param 0) ∧ ¬ wideRow.SlotIs 65537 (.param 0) := by
  have hrun : Run (fun _ => True) wideEmitter [] wideEmitter := .start
  have hfor := hrun.writesFor emitter_wideModule methods_wideModule
  have hmany : 65536 < wideRow.params.length := by
    rw [length_wideRow]
    decide
  have hfirst : wideRow.SlotIs 1 (.param 0) :=
    .param (p := 0) (Nat.lt_trans (by decide) hmany)
  refine ⟨emitter_wideModule, methods_wideModule, ?_, ?_, hfirst, fun hlast => ?_⟩
  · exact hfor.writes_first rfl (by decide) hmany (Or.inr rfl)
  · exact hfor.writes_first rfl (by decide) hmany (Or.inl rfl)
  · exact absurd (hfirst.unique hlast) (by decide)

end MarkupLowering
