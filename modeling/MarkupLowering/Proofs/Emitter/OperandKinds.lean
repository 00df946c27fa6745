import MarkupLowering.Proofs.Emitter.Requests

/-!
# MarkupLowering.Proofs.Emitter.OperandKinds

**Refused operands.** An opcode takes operands of certain kinds, and an operand of another kind
should be refused for its kind. But the emitter looks at the range of the opcode's short form
first, and numbers and local slots have a number whether the opcode takes them or not.

* `OperandType.Takes` says which kinds an opcode takes, and `OperandType.Misjudges` for which
  operands of other kinds the range decides.
* `Refuses` lists the reasons for which an operand is refused, and `emit_error_iff` says that there
  are no others.
* `wrong_kind_reported_iff` is the main statement. Wrong kinds are reported as such except for the
  misjudged operands, which the short forms of numbers, arguments and branches have
  (`wrong_kind_not_always_reported`).
-/

namespace MarkupLowering

open Emission

/-! ### Kinds of operands -/

namespace OperandType

/-- The kinds of operand that an opcode takes. Slots can be given by their number, and only local
slots also by their handle. -/
def kinds : OperandType → List String
  | .none => ["none"]
  | .shortInt | .int => ["int32"]
  | .long => ["int64"]
  | .float => ["float32"]
  | .double => ["float64"]
  | .string => ["string"]
  | .field => ["field"]
  | .method => ["method", "constructor"]
  | .type => ["type"]
  | .shortArgument | .argument => ["int32"]
  | .shortSlot | .slot => ["int32", "local"]
  | .shortBranch | .branch => ["label"]

/-- Whether an opcode takes operands of this kind. -/
def Takes (t : OperandType) (x : Operand) : Prop := x.kind ∈ t.kinds

instance (t : OperandType) (x : Operand) : Decidable (t.Takes x) :=
  inferInstanceAs (Decidable (_ ∈ _))

/-- The operand is of a kind that the opcode does not take, and has a number that the opcode has no
room for. -/
inductive Misjudges : OperandType → Operand → Prop
  | number {s : Slot} : 127 < s.index.toNat → Misjudges .shortInt (.slot s)
  | argument {s : Slot} : 255 < s.index.toNat → Misjudges .shortArgument (.slot s)
  | branchSlot {s : Slot} : 127 < s.index.toNat → Misjudges .shortBranch (.slot s)
  | branchNumber {value : Int32} : value.toInt < -128 ∨ 127 < value.toInt →
      Misjudges .shortBranch (.int value)

/-- An operand has a number that the opcode has no room for. -/
def Overflows (t : OperandType) (x : Operand) (value : Int) : Prop :=
  x.shortValue? = some value ∧ t.fitsShort value = false

theorem Misjudges.not_takes {t : OperandType} {x : Operand} (h : t.Misjudges x) : ¬ t.Takes x := by
  cases h with
  | number | argument | branchSlot | branchNumber => simp [Takes, kinds, Operand.kind]

theorem Misjudges.overflows {t : OperandType} {x : Operand} (h : t.Misjudges x) :
    ∃ value, t.Overflows x value := by
  cases h with
  | number h => exact ⟨_, rfl, by simp [fitsShort]; omega⟩
  | argument h => exact ⟨_, rfl, by simp [fitsShort]; omega⟩
  | branchSlot h => exact ⟨_, rfl, by simp [fitsShort]; omega⟩
  | branchNumber h => exact ⟨_, rfl, by simp [fitsShort]; omega⟩

/-- Only these operands are judged by their range although their kind is not taken. -/
theorem Overflows.takes_or_misjudges {t : OperandType} {x : Operand} {value : Int}
    (h : t.Overflows x value) : t.Takes x ∨ t.Misjudges x := by
  obtain ⟨hvalue, hfits⟩ := h
  unfold Operand.shortValue? at hvalue
  split at hvalue
  case h_1 v =>
    obtain rfl := Option.some.inj hvalue
    cases t with
    | shortInt | shortSlot | shortArgument => exact Or.inl (by simp [Takes, kinds, Operand.kind])
    | shortBranch => exact Or.inr (.branchNumber (by simp [fitsShort] at hfits; omega))
    | _ => cases hfits
  case h_2 s =>
    obtain rfl := Option.some.inj hvalue
    cases t with
    | shortSlot => exact Or.inl (by simp [Takes, kinds, Operand.kind])
    | shortInt => exact Or.inr (.number (by simp [fitsShort] at hfits; omega))
    | shortArgument => exact Or.inr (.argument (by simp [fitsShort] at hfits; omega))
    | shortBranch => exact Or.inr (.branchSlot (by simp [fitsShort] at hfits; omega))
    | _ => cases hfits
  case h_3 => cases hvalue

end OperandType

/-! ### Reasons for refusal -/

/-- What an operand of the right kind and range names is not there. -/
inductive Emitter.Lacks (e : Emitter) : OperandType → Operand → EmitError → Prop
  | argument {t : OperandType} {index : Int32} : t.isArgument = true →
      ¬ (0 ≤ index.toInt ∧ index.toInt < e.argumentCount) →
      Lacks e t (.int index) (.argumentOutOfRange index.toInt e.argumentCount e.method)
  | slotAt {t : OperandType} {index : Int32} : t.isSlot = true →
      ¬ (0 ≤ index.toInt ∧ index.toInt < e.locals.size) →
      Lacks e t (.int index) (.localOutOfRange index.toInt e.locals.size)
  | slotOf {t : OperandType} {s : Slot} : t.isSlot = true →
      e.locals[s.index.toNat]?.any (· == s.type) = false →
      Lacks e t (.slot s) (.localOutOfRange s.index.toNat e.locals.size)
  | label {t : OperandType} {l : Label} : t.isBranch = true → e.labels.knows l = false →
      Lacks e t (.label l) (.unknownLabel l)

/-- Why an emitter refuses an operand. -/
inductive Emitter.Refuses (e : Emitter) (op : Opcode) (x : Operand) : EmitError → Prop
  /-- For its kind. -/
  | kind : ¬ op.operandType.Takes x → ¬ op.operandType.Misjudges x →
      Refuses e op x (.unsupportedOperand op x.kind)
  /-- For its range, although it is of a wrong kind. -/
  | misjudged {value : Int} : op.operandType.Misjudges x → x.shortValue? = some value →
      Refuses e op x (.shortFormOutOfRange op value)
  /-- For its range. -/
  | range {value : Int} : op.operandType.Takes x → op.operandType.Overflows x value →
      Refuses e op x (.shortFormOutOfRange op value)
  /-- For what it names. -/
  | lacks {err : EmitError} : op.operandType.Takes x →
      (∀ value, ¬ op.operandType.Overflows x value) → e.Lacks op.operandType x err →
      Refuses e op x err

/-- The error is about what an operand names. -/
inductive EmitError.NamesNothing : EmitError → Prop
  | argument (index : Int) (count : Nat) (method : String) :
      NamesNothing (.argumentOutOfRange index count method)
  | slot (index : Int) (count : Nat) : NamesNothing (.localOutOfRange index count)
  | label (l : Label) : NamesNothing (.unknownLabel l)

theorem Emitter.Lacks.namesNothing {e : Emitter} {t : OperandType} {x : Operand} {err : EmitError}
    (h : e.Lacks t x err) : err.NamesNothing := by
  cases h with
  | argument | slotAt | slotOf | label => constructor

namespace Emitter.Refuses

variable {e : Emitter} {op : Opcode} {x : Operand} {err : EmitError} {value : Int}

theorem takes_of_namesNothing (h : e.Refuses op x err) (herr : err.NamesNothing) :
    op.operandType.Takes x := by
  cases h with
  | kind | misjudged => cases herr
  | range htakes => exact htakes
  | lacks htakes => exact htakes

theorem takes_or_misjudges (h : e.Refuses op x (.shortFormOutOfRange op value)) :
    op.operandType.Takes x ∨ op.operandType.Misjudges x := by
  cases h with
  | misjudged hmis => exact Or.inr hmis
  | range htakes => exact Or.inl htakes
  | lacks htakes => exact Or.inl htakes

end Emitter.Refuses

namespace Emitter

variable {e : Emitter} {op : Opcode} {x : Operand} {err : EmitError} {value : Int}

theorem refuses_kind_iff :
    e.Refuses op x (.unsupportedOperand op x.kind) ↔
      ¬ op.operandType.Takes x ∧ ¬ op.operandType.Misjudges x := by
  constructor
  · intro h
    cases h with
    | kind htakes hmis => exact ⟨htakes, hmis⟩
    | lacks _ _ hlacks => cases hlacks.namesNothing
  · rintro ⟨htakes, hmis⟩
    exact .kind htakes hmis

/-- The range comes first. -/
theorem refuses_of_overflows (h : op.operandType.Overflows x value) :
    e.Refuses op x err ↔ err = .shortFormOutOfRange op value := by
  constructor
  · intro hrefuses
    cases hrefuses with
    | kind htakes hmis => exact absurd h.takes_or_misjudges (not_or.mpr ⟨htakes, hmis⟩)
    | misjudged _ hvalue => rw [Option.some.inj (hvalue.symm.trans h.1)]
    | range _ hover => rw [Option.some.inj (hover.1.symm.trans h.1)]
    | lacks _ hfits => exact absurd h (hfits value)
  · rintro rfl
    rcases h.takes_or_misjudges with htakes | hmis
    · exact .range htakes h
    · exact .misjudged hmis h.1

theorem refuses_of_takes (htakes : op.operandType.Takes x)
    (hfits : ∀ value, ¬ op.operandType.Overflows x value) :
    e.Refuses op x err ↔ e.Lacks op.operandType x err := by
  constructor
  · intro h
    cases h with
    | kind hnot => exact absurd htakes hnot
    | misjudged hmis => exact absurd htakes hmis.not_takes
    | range _ hover => exact absurd hover (hfits _)
    | lacks _ _ hlacks => exact hlacks
  · exact .lacks htakes hfits

theorem refuses_of_not_takes (htakes : ¬ op.operandType.Takes x)
    (hfits : ∀ value, ¬ op.operandType.Overflows x value) :
    e.Refuses op x err ↔ err = .unsupportedOperand op x.kind := by
  have hmis : ¬ op.operandType.Misjudges x := by
    intro hmis
    obtain ⟨value, hover⟩ := hmis.overflows
    exact hfits value hover
  constructor
  · intro h
    cases h with
    | kind => rfl
    | misjudged h => exact absurd h hmis
    | range h | lacks h => exact absurd h htakes
  · rintro rfl
    exact .kind htakes hmis

end Emitter

/-! ### Refused operands -/

namespace Emission

theorem throw_iff {α : Type} {s s' : Emission} {e err : EmitError} :
    (throw e : EmitM α) s = .error err s' ↔ s' = s ∧ err = e := by
  constructor
  · rintro ⟨⟩
    exact ⟨rfl, rfl⟩
  · rintro ⟨rfl, rfl⟩
    rfl

theorem overflow?_eq_some_iff {op : Opcode} {x : Operand} {value : Int} :
    overflow? op x = some value ↔ op.operandType.Overflows x value := by
  simp [overflow?, OperandType.Overflows, Option.filter_eq_some_iff]

theorem overflow?_eq_none_iff {op : Opcode} {x : Operand} :
    overflow? op x = none ↔ ∀ value, ¬ op.operandType.Overflows x value := by
  simp only [Option.eq_none_iff_forall_ne_some, ne_eq, overflow?_eq_some_iff]

theorem reduce_of_not_takes {op : Opcode} {x : Operand} (h : ¬ op.operandType.Takes x) :
    reduce op x = throw (.unsupportedOperand op x.kind) := by
  fun_cases reduce op x with
  | case20 => rfl
  | _ => simp_all [OperandType.Takes, OperandType.kinds, Operand.kind]

theorem known_error_iff {f : Emitter → Except EmitError Argument} {s s' : Emission}
    {err : EmitError} : known f s = .error err s' ↔ s' = s ∧ f s.emitter = .error err := by
  unfold known
  cases f s.emitter <;> simp [and_comm, eq_comm]

theorem branch_error_iff {l : Label} {s s' : Emission} {err : EmitError} :
    branch l s = .error err s' ↔
      s' = s ∧ s.emitter.labels.knows l = false ∧ .unknownLabel l = err := by
  unfold branch
  cases s.emitter.labels.knows l <;> simp [and_comm, eq_comm]

end Emission

namespace Emitter

variable {e : Emitter} {t : OperandType} {index : Int32} {err : EmitError}

theorem lacks_argument_iff (ht : t.isArgument = true) :
    e.Lacks t (.int index) err ↔ ¬ (0 ≤ index.toInt ∧ index.toInt < e.argumentCount) ∧
      .argumentOutOfRange index.toInt e.argumentCount e.method = err := by
  constructor
  · intro h
    cases h with
    | argument _ hrange => exact ⟨hrange, rfl⟩
    | slotAt hslot => cases t <;> contradiction
  · rintro ⟨hrange, rfl⟩
    exact .argument ht hrange

theorem lacks_slotAt_iff (ht : t.isSlot = true) :
    e.Lacks t (.int index) err ↔ ¬ (0 ≤ index.toInt ∧ index.toInt < e.locals.size) ∧
      .localOutOfRange index.toInt e.locals.size = err := by
  constructor
  · intro h
    cases h with
    | argument hargument => cases t <;> contradiction
    | slotAt _ hrange => exact ⟨hrange, rfl⟩
  · rintro ⟨hrange, rfl⟩
    exact .slotAt ht hrange

theorem argument_error_iff (ht : t.isArgument = true) :
    e.argument index = .error err ↔ e.Lacks t (.int index) err := by
  rw [lacks_argument_iff ht]
  unfold argument
  cases index.toInt with
  | ofNat slot => by_cases hslot : slot < e.argumentCount <;> simp [hslot]
  | negSucc n =>
    have hneg : ¬ (0 : Int) ≤ Int.negSucc n := by omega
    simp [hneg]

theorem slotAt_error_iff (ht : t.isSlot = true) :
    e.slotAt index = .error err ↔ e.Lacks t (.int index) err := by
  rw [lacks_slotAt_iff ht]
  unfold slotAt
  cases index.toInt with
  | ofNat slot => by_cases hslot : slot < e.locals.size <;> simp [hslot]
  | negSucc n =>
    have hneg : ¬ (0 : Int) ≤ Int.negSucc n := by omega
    simp [hneg]

theorem slotOf_error_iff {s : Slot} (ht : t.isSlot = true) :
    e.slotOf s = .error err ↔ e.Lacks t (.slot s) err := by
  have hlacks : e.Lacks t (.slot s) err ↔
      e.locals[s.index.toNat]?.any (· == s.type) = false ∧
        .localOutOfRange s.index.toNat e.locals.size = err := by
    constructor
    · rintro ⟨⟩
      exact ⟨‹_›, rfl⟩
    · rintro ⟨hnone, rfl⟩
      exact .slotOf ht hnone
  rw [hlacks]
  unfold slotOf
  cases e.locals[s.index.toNat]? with
  | none => simp
  | some type => cases htype : type == s.type <;> simp [htype]

theorem lacks_label_iff {l : Label} (ht : t.isBranch = true) :
    e.Lacks t (.label l) err ↔ e.labels.knows l = false ∧ .unknownLabel l = err := by
  constructor
  · rintro ⟨⟩
    exact ⟨‹_›, rfl⟩
  · rintro ⟨hknows, rfl⟩
    exact .label ht hknows

end Emitter

namespace Emission

/-- An operand of a kind that the opcode takes is refused for what it names. -/
theorem reduce_error_iff {op : Opcode} {x : Operand} (hx : op.operandType.Takes x)
    {s s' : Emission} {err : EmitError} :
    reduce op x s = .error err s' ↔ s' = s ∧ s.emitter.Lacks op.operandType x err := by
  fun_cases reduce op x with
  | case12 index ht | case13 index ht =>
    rw [known_error_iff, Emitter.argument_error_iff (t := op.operandType) (by rw [ht]; rfl)]
  | case14 index ht | case15 index ht =>
    rw [known_error_iff, Emitter.slotAt_error_iff (t := op.operandType) (by rw [ht]; rfl)]
  | case16 slot ht | case17 slot ht =>
    rw [known_error_iff, Emitter.slotOf_error_iff (t := op.operandType) (by rw [ht]; rfl)]
  | case18 l ht | case19 l ht =>
    rw [branch_error_iff, Emitter.lacks_label_iff (t := op.operandType) (by rw [ht]; rfl)]
  | case20 =>
    -- every pair of an operand type and a kind that it takes has a case of its own
    generalize op.operandType = t at *
    cases t <;> cases x <;> simp_all [OperandType.Takes, OperandType.kinds, Operand.kind]
  | _ =>
    -- nothing is looked up
    refine iff_of_false nofun ?_
    rintro ⟨-, hlacks⟩
    cases hlacks <;> simp_all [OperandType.isArgument, OperandType.isSlot]

/-- Why an operand is refused, and that nothing changes then. -/
theorem emit_error_iff {op : Opcode} {x : Operand} {s s' : Emission} {err : EmitError} :
    emit op x s = .error err s' ↔ s' = s ∧ s.emitter.Refuses op x err := by
  have hemit : emit op x s = .error err s' ↔ resolve op x s = .error err s' := by
    simp only [emit, Bind.bind, EStateM.bind]
    cases resolve op x s with
    | ok p s₁ => simp [onEmitter]
    | error e s₁ => simp
  rw [hemit]
  unfold resolve
  cases hx : overflow? op x with
  | some value =>
    rw [Emitter.refuses_of_overflows (overflow?_eq_some_iff.mp hx)]
    exact throw_iff
  | none =>
    have hfits := overflow?_eq_none_iff.mp hx
    by_cases htakes : op.operandType.Takes x
    · rw [Emitter.refuses_of_takes htakes hfits]
      exact reduce_error_iff htakes
    · rw [Emitter.refuses_of_not_takes htakes hfits, reduce_of_not_takes htakes]
      exact throw_iff

end Emission

/-! ### The main statement -/

theorem OperandType.exists_misjudges_iff {t : OperandType} :
    (∃ x, t.Misjudges x) ↔ t ∈ [.shortInt, .shortArgument, .shortBranch] := by
  constructor
  · rintro ⟨x, hx⟩
    cases hx <;> simp
  · intro ht
    simp only [List.mem_cons, List.not_mem_nil, or_false] at ht
    rcases ht with rfl | rfl | rfl
    · exact ⟨.slot ⟨128, default⟩, .number (by decide)⟩
    · exact ⟨.slot ⟨256, default⟩, .argument (by decide)⟩
    · exact ⟨.slot ⟨128, default⟩, .branchSlot (by decide)⟩

/-- Refused operands. The first part gives all reasons for which an emitter refuses an operand, in
whatever state it is. An operand of a kind that the opcode does not take is always refused, and it
is reported for its kind, with opcode and kind, exactly if it is not misjudged. Errors about what
an operand names are about operands of the right kind, and those about the range are about these
and misjudged operands. So wrong kinds are always reported as such exactly for the opcodes that are
no short forms of numbers, arguments or branches. -/
theorem wrong_kind_reported_iff (op : Opcode) :
    (∀ x s err s', emit op x s = .error err s' ↔ s' = s ∧ s.emitter.Refuses op x err) ∧
    (∀ x s, emit op x s = .error (.unsupportedOperand op x.kind) s ↔
      ¬ op.operandType.Takes x ∧ ¬ op.operandType.Misjudges x) ∧
    (∀ x s err s', emit op x s = .error err s' →
      (err.NamesNothing → op.operandType.Takes x) ∧
      ∀ value, err = .shortFormOutOfRange op value →
        op.operandType.Takes x ∨ op.operandType.Misjudges x) ∧
    ((∀ x s, ¬ op.operandType.Takes x →
        emit op x s = .error (.unsupportedOperand op x.kind) s) ↔
      op.operandType ∉ [.shortInt, .shortArgument, .shortBranch]) := by
  have hreported : ∀ x s, emit op x s = .error (.unsupportedOperand op x.kind) s ↔
      ¬ op.operandType.Takes x ∧ ¬ op.operandType.Misjudges x := by
    intro x s
    rw [emit_error_iff, Emitter.refuses_kind_iff]
    simp
  refine ⟨fun x s err s' => emit_error_iff, hreported, ?_, ?_⟩
  · intro x s err s' h
    have hrefuses := (emit_error_iff.mp h).2
    exact ⟨hrefuses.takes_of_namesNothing, fun value herr => (herr ▸ hrefuses).takes_or_misjudges⟩
  · rw [← OperandType.exists_misjudges_iff]
    constructor
    · rintro hall ⟨x, hx⟩
      exact ((hreported x default).mp (hall x default hx.not_takes)).2 hx
    · intro hnone x s hx
      exact (hreported x s).mpr ⟨hx, fun hmis => hnone ⟨x, hmis⟩⟩

/-- A branch takes neither numbers nor slots, and no number takes a local slot. They are refused
for their range. -/
theorem wrong_kind_not_always_reported :
    oneMethod.emitter onlyMethod = .ok onlyEmitter ∧
      ¬ Opcode.brS.operandType.Takes (.int 1000) ∧
      emit .brS (.int 1000) ⟨oneMethod, onlyEmitter⟩ =
        .error (.shortFormOutOfRange .brS 1000) ⟨oneMethod, onlyEmitter⟩ ∧
      ¬ Opcode.ldcI4S.operandType.Takes (.slot ⟨299, default⟩) ∧
      emit .ldcI4S (.slot ⟨299, default⟩) ⟨oneMethod, onlyEmitter⟩ =
        .error (.shortFormOutOfRange .ldcI4S 299) ⟨oneMethod, onlyEmitter⟩ :=
  ⟨rfl, by decide, rfl, by decide, rfl⟩

end MarkupLowering
