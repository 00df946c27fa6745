import MarkupLowering.Proofs.Emitter.Code
import MarkupLowering.Proofs.Module.History

/-!
# MarkupLowering.Proofs.Emitter.Outcome

**How finishing a body ends**, for every history of its emitter.

A branch is at fault when its label does not resolve, or when it has one byte for a distance that
needs more (`Fault`). Both are told from the history: by where labels resolve to, and by the sizes
of the opcodes that were granted. The main statement is `finish_outcome`.
-/

namespace MarkupLowering

/-- The bytes that instructions with these opcodes take. -/
def Opcode.totalSize : List Opcode → Nat
  | [] => 0
  | op :: ops => op.encodedSize + totalSize ops

/-- The bytes before the instruction with number `k`. -/
def offsetIn (log : List Request) (k : Nat) : Nat :=
  Opcode.totalSize (((emitted log).take k).map Prod.fst)

/-- Why the instruction with number `i` cannot be finished. -/
inductive Fault (log : List Request) (i : Nat) : EmitError → Prop
  /-- The label does not resolve. -/
  | unresolved {op : Opcode} {l : Label} : (emitted log)[i]? = some (op, .label l) →
      (∀ t, ¬ ResolvesTo log l t) → Fault log i (.unresolvedLabel l i)
  /-- The distance from the end of a short branch to its target does not fit one byte. -/
  | outOfRange {op : Opcode} {l : Label} {t : Nat} {d : Int} :
      (emitted log)[i]? = some (op, .label l) → ResolvesTo log l t →
      op.operandType = .shortBranch → d = (offsetIn log t : Int) - offsetIn log (i + 1) →
      ¬ (-128 ≤ d ∧ d ≤ 127) → Fault log i (.shortFormOutOfRange op d)

/-- The body that a row of the method table has. -/
def Module.bodyAt (m : Module) (row : Nat) : Option Body := m.methods[row]?.bind MethodRow.body

theorem Module.bodyAt_setBody {m : Module} {row : Nat} (hrow : row < m.methods.size) (b : Body) :
    (m.setBody row b).bodyAt row = some b := by
  rw [Module.bodyAt, Module.setBody]
  dsimp only
  rw [Array.getElem?_modify, if_pos rfl, Array.getElem?_eq_getElem hrow]
  rfl

theorem Emitter.finish_inv {e : Emitter} {m m' : Module} (h : e.finish m = .ok () m') :
    ∃ body, e.finishedBody = .ok body ∧ m' = m.setBody e.row body := by
  unfold finish at h
  split at h
  · cases h
  · rename_i body hbody
    split at h
    · cases h
    · cases h
      exact ⟨body, hbody, rfl⟩

/-! ### Offsets -/

theorem Opcode.totalSize_append (ops ops' : List Opcode) :
    totalSize (ops ++ ops') = totalSize ops + totalSize ops' := by
  induction ops with
  | nil => rw [List.nil_append, totalSize, Nat.zero_add]
  | cons op ops ih => rw [List.cons_append, totalSize, totalSize, ih, Nat.add_assoc]

theorem Emitter.codeSize_eq_totalSize (is : List PendingInstruction) :
    codeSize is = Opcode.totalSize (is.map (·.opcode)) := by
  induction is with
  | nil => rfl
  | cons i is ih => rw [codeSize_cons, ih, List.map_cons, Opcode.totalSize]

theorem offsetIn_le_succ (log : List Request) (k : Nat) :
    offsetIn log k ≤ offsetIn log (k + 1) := by
  rw [offsetIn, offsetIn, List.take_add_one, List.map_append, Opcode.totalSize_append]
  exact Nat.le_add_right _ _

theorem offsetIn_succ {log : List Request} {k : Nat} {p : Opcode × Operand}
    (h : (emitted log)[k]? = some p) :
    offsetIn log (k + 1) = offsetIn log k + p.1.encodedSize := by
  rw [offsetIn, List.take_add_one, h, List.map_append, Opcode.totalSize_append]
  rfl

/-- Instructions of whatever form that have the granted opcodes one by one have them in order. -/
theorem map_opcode_eq {α : Type} {log : List Request} {instructions : Array α}
    (opcode : α → Opcode) (hsize : instructions.size = (emitted log).length)
    (h : ∀ (k : Nat) (i : α), instructions[k]? = some i →
      ∃ x, (emitted log)[k]? = some (opcode i, x)) :
    instructions.toList.map opcode = (emitted log).map Prod.fst := by
  apply List.ext_getElem?
  intro k
  rw [List.getElem?_map, List.getElem?_map, Array.getElem?_toList]
  cases hi : instructions[k]? with
  | some i =>
    obtain ⟨x, hx⟩ := h k i hi
    rw [hx]
    rfl
  | none =>
    rw [Array.getElem?_eq_none_iff, hsize] at hi
    rw [List.getElem?_eq_none hi]
    rfl

namespace Written

open Emitter

variable {log : List Request} {e : Emitter}

theorem opcodes (h : Written log e) :
    e.instructions.toList.map (·.opcode) = (emitted log).map Prod.fst := by
  refine map_opcode_eq _ h.size fun k i hi => ?_
  obtain ⟨⟨op, x⟩, hp, henc⟩ := h.encodes k i hi
  exact ⟨x, by rw [henc.opcode, hp]⟩

theorem codeSize_take (h : Written log e) (k : Nat) :
    codeSize (e.instructions.toList.take k) = offsetIn log k := by
  rw [codeSize_eq_totalSize, List.map_take, h.opcodes, offsetIn, List.map_take]

theorem getElem? (h : Written log e) {k : Nat} {p : Opcode × Operand}
    (hp : (emitted log)[k]? = some p) :
    ∃ i, e.instructions[k]? = some i ∧ Encodes e.locals.size p i := by
  have hlt := (List.getElem?_eq_some_iff.mp hp).1
  rw [← h.size] at hlt
  obtain ⟨p', hp', henc⟩ := h.encodes k _ (Array.getElem?_eq_getElem hlt)
  obtain rfl : p = p' := Option.some.inj (hp.symm.trans hp')
  exact ⟨_, Array.getElem?_eq_getElem hlt, henc⟩

end Written

/-! ### Finishing one instruction -/

/-- Only short branches have distances that do not fit. -/
theorem OperandType.not_fitsShort_branch {t : OperandType} {d : Int} (hb : t.isBranch = true)
    (h : ¬ t.fitsShort d = true) : t = .shortBranch ∧ ¬ (-128 ≤ d ∧ d ≤ 127) := by
  cases t with
  | shortBranch => exact ⟨rfl, by simpa [fitsShort] using h⟩
  | branch => exact absurd rfl h
  | _ => cases hb

namespace Emitter

/-- The finished operand of an instruction of the whole body. -/
def finishedAt (e : Emitter) (k : Nat) (i : PendingInstruction) : Except EmitError Argument :=
  argumentAt e.labels.unbindStaged (offsetsFrom 0 e.instructions.toList).toArray 0 0
    e.instructions.toList k i

variable {log : List Request} {e : Emitter} {k : Nat} {i : PendingInstruction}

theorem finishedAt_ready {a : Argument} (h : i.argument = .ready a) : e.finishedAt k i = .ok a := by
  rw [finishedAt, argumentAt, finishArgument, h]

theorem finishedAt_unresolved (ht : Tracks log e) {l : Label} (h : i.argument = .branch l)
    (hl : ∀ t, ¬ ResolvesTo log l t) : e.finishedAt k i = .error (.unresolvedLabel l k) := by
  have hnone : e.labels.unbindStaged.resolve l = none := by
    cases hr : e.labels.unbindStaged.resolve l with
    | none => rfl
    | some t => exact absurd ((ht.resolve_unbindStaged l t).mp hr) (hl t)
  rw [finishedAt, argumentAt, finishArgument, h]
  dsimp only
  rw [resolveBranch, hnone, Nat.zero_add]

/-- A branch whose label resolves is finished, or its short form does not reach. The distance is
counted from the end of the branch. -/
theorem finishedAt_resolved (hw : Written log e) (ht : Tracks log e) {l : Label} {t : Nat}
    {x : Operand} (hp : (emitted log)[k]? = some (i.opcode, x)) (h : i.argument = .branch l)
    (hl : ResolvesTo log l t) :
    e.finishedAt k i =
      if i.opcode.operandType.fitsShort ((offsetIn log t : Int) - offsetIn log (k + 1)) then
        .ok (.target t)
      else .error (.shortFormOutOfRange i.opcode
        ((offsetIn log t : Int) - offsetIn log (k + 1))) := by
  have htarget : (offsetsFrom 0 e.instructions.toList).toArray.getD t 0 = offsetIn log t := by
    have hlt : t < e.instructions.toList.length := by
      rw [Array.length_toList, hw.size]
      exact hl.lt
    rw [Array.getD_eq_getD_getElem?, List.getElem?_toArray, getElem?_offsetsFrom 0 _ t hlt,
      Option.getD_some, Nat.zero_add, hw.codeSize_take]
  have hdistance : displacement i.opcode (0 + codeSize (e.instructions.toList.take k))
      (offsetIn log t) = (offsetIn log t : Int) - offsetIn log (k + 1) := by
    rw [displacement, hw.codeSize_take, offsetIn_succ hp]
    dsimp only
    omega
  rw [finishedAt, argumentAt, finishArgument, h]
  dsimp only
  rw [resolveBranch, (ht.resolve_unbindStaged l t).mpr hl]
  dsimp only
  rw [htarget, hdistance]

/-- The instruction cannot be finished exactly when it is at fault. -/
theorem finishedAt_error_iff (hw : Written log e) (ht : Tracks log e) {p : Opcode × Operand}
    (hp : (emitted log)[k]? = some p) (henc : Encodes e.locals.size p i) {err : EmitError} :
    e.finishedAt k i = .error err ↔ Fault log k err := by
  obtain ⟨op, x⟩ := p
  obtain rfl : i.opcode = op := henc.opcode
  cases ha : i.argument with
  | ready a =>
    rw [finishedAt_ready ha]
    refine ⟨fun h => (nomatch h), fun h => ?_⟩
    -- a fault is at a label, and an operand that is ready is none
    have hlabel : ∀ l, x ≠ .label l := by
      intro l hx
      have hb := (henc.label l).mpr hx
      rw [ha] at hb
      cases hb
    cases h with
    | unresolved hp' _ =>
      rw [hp] at hp'
      cases hp'
      exact absurd rfl (hlabel _)
    | outOfRange hp' _ _ _ _ =>
      rw [hp] at hp'
      cases hp'
      exact absurd rfl (hlabel _)
  | branch l =>
    obtain rfl : x = .label l := (henc.label l).mp ha
    by_cases hl : ∃ t, ResolvesTo log l t
    · obtain ⟨t, hl⟩ := hl
      rw [finishedAt_resolved hw ht hp ha hl]
      constructor
      · intro h
        split at h
        · cases h
        · rename_i hfit
          cases h
          have hb : i.opcode.operandType.isBranch = true := henc.isBranch.mp ⟨l, rfl⟩
          obtain ⟨hshort, hrange⟩ := OperandType.not_fitsShort_branch hb hfit
          exact .outOfRange hp hl hshort rfl hrange
      · intro h
        cases h with
        | unresolved hp' hno =>
          rw [hp] at hp'
          cases hp'
          exact absurd hl (hno t)
        | outOfRange hp' hl' hshort hd hrange =>
          rw [hp] at hp'
          cases hp'
          obtain rfl := ht.unique hl hl'
          subst hd
          rw [if_neg]
          rw [hshort]
          simpa [OperandType.fitsShort] using hrange
    · have hno : ∀ t, ¬ ResolvesTo log l t := fun t hr => hl ⟨t, hr⟩
      rw [finishedAt_unresolved ht ha hno]
      constructor
      · intro h
        cases h
        exact .unresolved hp hno
      · intro h
        cases h with
        | unresolved hp' _ =>
          rw [hp] at hp'
          cases hp'
          rfl
        | outOfRange hp' hl' _ _ _ =>
          rw [hp] at hp'
          cases hp'
          exact absurd hl' (hno _)

/-- A finished body holds every instruction at its offset, with its finished operand. -/
theorem finishedBody_inv (hw : Written log e) {body : Body} (h : e.finishedBody = .ok body) :
    body.locals = e.locals ∧ body.codeSize = offsetIn log (emitted log).length ∧
    body.size = (emitted log).length ∧
    ∀ k i, e.instructions[k]? = some i →
      ∃ a, e.finishedAt k i = .ok a ∧
        body.instructions[k]? = some ⟨offsetIn log k, i.opcode, a⟩ := by
  rw [finishedBody_eq] at h
  split at h
  · cases h
  · rename_i out hout
    cases h
    obtain ⟨hsize, -, hall⟩ := finishFrom_ok hout
    refine ⟨rfl, ?_, ?_, fun k i hi => ?_⟩
    · rw [← hw.codeSize_take, ← hw.size, ← Array.length_toList, List.take_length]
    · rw [← hw.size, Body.size]
      simpa using hsize
    · obtain ⟨a, ha, hk⟩ := hall k i (by rw [Array.getElem?_toList, hi])
      refine ⟨a, ha, ?_⟩
      simpa [hw.codeSize_take] using hk

/-- The first fault decides how a body fails. -/
theorem finishedBody_error (hw : Written log e) (ht : Tracks log e) {err : EmitError}
    (hfault : Fault log k err) (hfirst : ∀ j err', j < k → ¬ Fault log j err') :
    e.finishedBody = .error err := by
  -- the faulty instruction itself
  obtain ⟨p, hp⟩ : ∃ p, (emitted log)[k]? = some p := by
    cases hfault with
    | unresolved hp _ => exact ⟨_, hp⟩
    | outOfRange hp _ _ _ _ => exact ⟨_, hp⟩
  obtain ⟨i, hi, henc⟩ := hw.getElem? hp
  have hbad := (finishedAt_error_iff hw ht hp henc).mpr hfault
  cases hbody : e.finishedBody with
  | ok body =>
    obtain ⟨-, -, -, hall⟩ := finishedBody_inv hw hbody
    obtain ⟨a, ha, -⟩ := hall k i hi
    cases hbad.symm.trans ha
  | error err' =>
    rw [finishedBody_eq] at hbody
    split at hbody
    · rename_i err'' hpass
      cases hbody
      obtain ⟨j, i', hi', herr, hbefore⟩ := finishFrom_error hpass
      rw [Array.getElem?_toList] at hi'
      -- the pass does not stop before the first fault, and does not get past it
      rcases Nat.lt_trichotomy j k with hlt | rfl | hgt
      · obtain ⟨p', hp', henc'⟩ := hw.encodes j i' hi'
        exact absurd ((finishedAt_error_iff hw ht hp' henc').mp herr) (hfirst j err' hlt)
      · obtain rfl := Option.some.inj (hi.symm.trans hi')
        cases herr.symm.trans hbad
        rfl
      · obtain ⟨a, ha⟩ := hbefore k i hgt (by rw [Array.getElem?_toList, hi])
        cases hbad.symm.trans ha
    · cases hbody

/-- A body without faults can be finished. -/
theorem finishedBody_ok (hw : Written log e) (ht : Tracks log e)
    (hno : ∀ k err, ¬ Fault log k err) : ∃ body, e.finishedBody = .ok body := by
  rw [finishedBody_eq]
  split
  · rename_i err hpass
    obtain ⟨j, i, hi, herr, -⟩ := finishFrom_error hpass
    rw [Array.getElem?_toList] at hi
    obtain ⟨p, hp, henc⟩ := hw.encodes j i hi
    exact absurd ((finishedAt_error_iff hw ht hp henc).mp herr) (hno j err)
  · exact ⟨_, rfl⟩

/-- An instruction of a finished body, and the one that it was finished from. -/
theorem finishedBody_getElem? (hw : Written log e) {body : Body} (h : e.finishedBody = .ok body)
    {instr : Instruction} (hk : body.instructions[k]? = some instr) :
    ∃ x i, (emitted log)[k]? = some (instr.opcode, x) ∧ e.instructions[k]? = some i ∧
      Encodes e.locals.size (instr.opcode, x) i ∧ instr.offset = offsetIn log k ∧
      e.finishedAt k i = .ok instr.argument := by
  obtain ⟨-, -, hsize, hall⟩ := finishedBody_inv hw h
  have hlt : k < e.instructions.size := by
    rw [hw.size, ← hsize]
    exact (Array.getElem?_eq_some_iff.mp hk).1
  have hi := Array.getElem?_eq_getElem hlt
  obtain ⟨⟨op, x⟩, hp, henc⟩ := hw.encodes k _ hi
  obtain ⟨a, ha, hk'⟩ := hall k _ hi
  obtain rfl := Option.some.inj (hk.symm.trans hk')
  obtain rfl : e.instructions[k].opcode = op := henc.opcode
  exact ⟨x, _, hp, hi, henc, rfl, ha⟩

/-- A finished body has the opcodes that were granted, in order. -/
theorem finishedBody_opcodes (hw : Written log e) {body : Body} (h : e.finishedBody = .ok body) :
    body.instructions.toList.map (·.opcode) = (emitted log).map Prod.fst := by
  obtain ⟨-, -, hsize, -⟩ := finishedBody_inv hw h
  refine map_opcode_eq _ hsize fun k i hi => ?_
  obtain ⟨x, -, hp, -⟩ := finishedBody_getElem? hw h hi
  exact ⟨x, hp⟩

/-- A finished operand was ready, or it is the target of a branch in its range. -/
theorem finishedAt_ok (hw : Written log e) (ht : Tracks log e) {x : Operand} {a : Argument}
    (hp : (emitted log)[k]? = some (i.opcode, x)) (h : e.finishedAt k i = .ok a) :
    i.argument = .ready a ∨
      ∃ l t, i.argument = .branch l ∧ ResolvesTo log l t ∧ a = .target t ∧
        i.opcode.operandType.fitsShort
          ((offsetIn log t : Int) - offsetIn log (k + 1)) = true := by
  cases ha : i.argument with
  | ready a' =>
    rw [finishedAt_ready ha] at h
    cases h
    exact Or.inl rfl
  | branch l =>
    by_cases hl : ∃ t, ResolvesTo log l t
    · obtain ⟨t, hl⟩ := hl
      rw [finishedAt_resolved hw ht hp ha hl] at h
      split at h
      · rename_i hfit
        cases h
        exact Or.inr ⟨l, t, rfl, hl, rfl, hfit⟩
      · cases h
    · rw [finishedAt_unresolved ht ha fun t hr => hl ⟨t, hr⟩] at h
      cases h

/-- The branches of a finished body go where their labels resolve to. -/
theorem finishedBody_target (hw : Written log e) (ht : Tracks log e) {body : Body}
    (h : e.finishedBody = .ok body) {instr : Instruction}
    (hk : body.instructions[k]? = some instr) (hb : instr.opcode.operandType.isBranch = true) :
    ∃ l t, (emitted log)[k]? = some (instr.opcode, .label l) ∧ ResolvesTo log l t ∧
      instr.argument = .target t ∧
      instr.opcode.operandType.fitsShort
        ((offsetIn log t : Int) - offsetIn log (k + 1)) = true := by
  obtain ⟨x, i, hp, -, henc, -, ha⟩ := finishedBody_getElem? hw h hk
  obtain ⟨l, rfl⟩ : ∃ l, x = .label l := henc.isBranch.mpr hb
  have hlabel := (henc.label l).mpr rfl
  have hop : i.opcode = instr.opcode := henc.opcode
  rw [← hop] at hp ⊢
  rcases finishedAt_ok hw ht hp ha with hready | ⟨l', t, hl', hr, htarget, hfit⟩
  · rw [hlabel] at hready
    cases hready
  · rw [hlabel] at hl'
    cases hl'
    exact ⟨l, t, hp, hr, htarget, hfit⟩

end Emitter

/-! ### The outcome -/

/-- How finishing ends, whatever was asked of the emitter and whatever became of the module in
between. The lowest branch at fault decides the error. Without one, the body is refused exactly if
the method has got a body meanwhile; else it is installed, and its branches go where their labels
resolve to. -/
theorem finish_outcome {M : Module → Prop} {m m' : Module} {owner : BodyOwner} {e₀ e : Emitter}
    {log : List Request} (hnew : m.emitter owner = .ok e₀) (hrun : Run M e₀ log e)
    (hlater : m.Leads m') :
    (∀ i err, Fault log i err → (∀ j err', j < i → ¬ Fault log j err') →
      e.finish m' = .error err m') ∧
    ((∀ i err, ¬ Fault log i err) →
      ((m'.bodyAt e₀.row).isSome →
        e.finish m' = .error (.bodyAlreadyFinalized owner.render) m') ∧
      (m'.bodyAt e₀.row = none →
        ∃ m'' body, e.finish m' = .ok () m'' ∧ m''.bodyAt e₀.row = some body ∧
          body.instructions.toList.map (·.opcode) = (emitted log).map Prod.fst ∧
          ∀ (i : Nat) (instr : Instruction), body.instructions[i]? = some instr →
            instr.opcode.operandType.isBranch = true →
            ∃ l t, (emitted log)[i]? = some (instr.opcode, .label l) ∧ ResolvesTo log l t ∧
              instr.argument = .target t)) := by
  obtain ⟨hfresh, hmethod, row, hrow, -⟩ := Module.emitter_inv hnew
  obtain ⟨herow, hemethod⟩ := hrun.owner
  have hw := Written.of_run hfresh hrun
  have ht := Tracks.of_run hfresh hrun
  refine ⟨fun i err hfault hfirst => ?_, fun hno => ?_⟩
  · rw [Emitter.finish, Emitter.finishedBody_error hw ht hfault hfirst]
  · obtain ⟨body, hbody⟩ := Emitter.finishedBody_ok hw ht hno
    have hbodyAt : (m'.methods[e.row]?.bind MethodRow.body) = m'.bodyAt e₀.row := by
      rw [herow]
      rfl
    refine ⟨fun hsome => ?_, fun hnone => ?_⟩
    · rw [Emitter.finish, hbody]
      dsimp only
      rw [hbodyAt, if_pos hsome, hemethod, hmethod]
    · refine ⟨m'.setBody e₀.row body, body, ?_, ?_, ?_, ?_⟩
      · rw [Emitter.finish, hbody]
        dsimp only
        rw [hbodyAt, hnone, herow]
        rfl
      · have hlt := (Array.getElem?_eq_some_iff.mp hrow).1
        exact Module.bodyAt_setBody (Nat.lt_of_lt_of_le hlt hlater.methods_le) body
      · exact Emitter.finishedBody_opcodes hw hbody
      · intro i instr hi hb
        obtain ⟨l, t, hp, hl, htarget, -⟩ := Emitter.finishedBody_target hw ht hbody hi hb
        exact ⟨l, t, hp, hl, htarget⟩

/-! ### A branch to nowhere -/

/-- A label that is defined and branched to, and never marked. -/
def danglingBranch : List Request := [.defineLabel, .emit .br (.label ⟨0⟩)]

theorem run_danglingBranch : ∃ e, Run (fun _ => True) onlyEmitter danglingBranch e :=
  ⟨_, .granted (m := oneMethod) (.granted (m := oneMethod) .start trivial rfl) trivial rfl⟩

theorem fault_danglingBranch : Fault danglingBranch 0 (.unresolvedLabel ⟨0⟩ 0) := by
  have hbranch : (emitted danglingBranch)[0]? = some (.br, .label ⟨0⟩) := rfl
  refine .unresolved hbranch ?_
  rintro t ⟨i, -, -, -, hmark, -⟩
  have hmem := List.mem_of_getElem? hmark.1
  simp [danglingBranch] at hmem

theorem finish_outcome_danglingBranch :
    ∃ e, Run (fun _ => True) onlyEmitter danglingBranch e ∧
      e.finish oneMethod = .error (.unresolvedLabel ⟨0⟩ 0) oneMethod := by
  obtain ⟨e, hrun⟩ := run_danglingBranch
  obtain ⟨hfault, -⟩ := finish_outcome emitter_oneMethod hrun .refl
  refine ⟨e, hrun, hfault 0 _ fault_danglingBranch ?_⟩
  exact fun j _ hj => absurd hj (Nat.not_lt_zero j)

end MarkupLowering
