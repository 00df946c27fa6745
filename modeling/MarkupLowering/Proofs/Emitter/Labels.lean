import MarkupLowering.Proofs.Emitter.Requests

/-!
# MarkupLowering.Proofs.Emitter.Labels

**Where labels end up**, told from the history of an emitter alone.

`ResolvesTo log l t` says that the last mark of `l` was followed by an instruction and that the
first one after it has number `t`. The label table stages, binds, rebinds and unbinds at different
moments; `Tracks` is the invariant that ties each of these moments to the history, and
`resolve_unbindStaged` reads the final table off it.

Both notions are opened from the end of the log (`resolvesTo_append`, `waiting_append`), because
that is where a request enters it.
-/

namespace MarkupLowering

/-- The request at `i` is the last mark of a label. -/
def LastMark (log : List Request) (l : Label) (i : Nat) : Prop :=
  log[i]? = some (.markLabel l) ∧ ∀ k, i < k → log[k]? ≠ some (.markLabel l)

/-- No instruction comes after the request at `i` and before the one at `j`. -/
def NoEmit (log : List Request) (i j : Nat) : Prop :=
  ∀ k, i < k → k < j → ∀ op x, log[k]? ≠ some (.emit op x)

/-- The label waits for an instruction: none came since its last mark. -/
def Waiting (log : List Request) (l : Label) : Prop :=
  ∃ i, LastMark log l i ∧ NoEmit log i log.length

/-- The last mark of the label was followed by an instruction; the first one after it has
number `t`. -/
def ResolvesTo (log : List Request) (l : Label) (t : Nat) : Prop :=
  ∃ i j op x, LastMark log l i ∧ i < j ∧ NoEmit log i j ∧ log[j]? = some (.emit op x) ∧
    t = (emitted (log.take j)).length

variable {log : List Request} {l : Label} {r : Request} {t : Nat}

/-! ### The last mark -/

theorem LastMark.lt {i : Nat} (h : LastMark log l i) : i < log.length :=
  (List.getElem?_eq_some_iff.mp h.1).1

theorem LastMark.unique {i j : Nat} (hi : LastMark log l i) (hj : LastMark log l j) : i = j := by
  rcases Nat.lt_trichotomy i j with h | h | h
  · exact absurd hj.1 (hi.2 j h)
  · exact h
  · exact absurd hi.1 (hj.2 i h)

theorem lastMark_append_self : LastMark (log ++ [.markLabel l]) l log.length := by
  refine ⟨by simp, fun k hk => ?_⟩
  rw [List.getElem?_eq_none (by rw [List.length_append, List.length_singleton]; omega)]
  simp

theorem lastMark_append_of_ne {i : Nat} (hr : r ≠ .markLabel l) :
    LastMark (log ++ [r]) l i ↔ LastMark log l i := by
  have hsame : ∀ k : Nat, (log ++ [r])[k]? = some (Request.markLabel l) ↔
      log[k]? = some (Request.markLabel l) := by
    intro k
    rw [List.getElem?_append]
    split
    · rfl
    · rename_i hk
      rw [List.getElem?_singleton, List.getElem?_eq_none (by omega)]
      split
      · simp [hr]
      · rfl
  unfold LastMark
  simp only [hsame, ne_eq]

theorem noEmit_append {i j : Nat} (hj : j ≤ log.length) :
    NoEmit (log ++ [r]) i j ↔ NoEmit log i j := by
  unfold NoEmit
  refine forall_congr' fun k => forall_congr' fun _ => forall_congr' fun hk => ?_
  rw [List.getElem?_append_left (by omega)]

/-! ### One more request -/

/-- A label that waits has no target: the instruction after its last mark is yet to come. -/
theorem not_resolvesTo_of_waiting (h : Waiting log l) : ¬ ResolvesTo log l t := by
  rintro ⟨i, j, op, x, hi, hij, -, hj, -⟩
  obtain ⟨i', hi', hno⟩ := h
  obtain rfl := hi.unique hi'
  exact hno j hij (List.getElem?_eq_some_iff.mp hj).1 op x hj

theorem waiting_append_mark : Waiting (log ++ [.markLabel l]) l := by
  refine ⟨log.length, lastMark_append_self, ?_⟩
  intro k hlt hk
  rw [List.length_append, List.length_singleton] at hk
  omega

theorem not_waiting_append_emit {op : Opcode} {x : Operand} :
    ¬ Waiting (log ++ [.emit op x]) l := by
  rintro ⟨i, hi, hno⟩
  rw [lastMark_append_of_ne (by simp)] at hi
  exact hno log.length hi.lt (by simp) op x (by simp)

theorem waiting_append (hm : r ≠ .markLabel l) (he : ∀ op x, r ≠ .emit op x) :
    Waiting (log ++ [r]) l ↔ Waiting log l := by
  unfold Waiting
  simp only [lastMark_append_of_ne hm]
  refine exists_congr fun i => and_congr_right fun _ => ?_
  rw [List.length_append, List.length_singleton]
  constructor
  · intro hno
    exact (noEmit_append (Nat.le_refl _)).mp fun k hik hk => hno k hik (by omega)
  · intro hno k hik hk op x
    by_cases hlt : k < log.length
    · exact (noEmit_append (Nat.le_refl _)).mpr hno k hik hlt op x
    · obtain rfl : k = log.length := by omega
      simp [he]

/-- A request other than a mark of the label moves the label only if it is the instruction that
the label waits for. -/
theorem resolvesTo_append (hm : r ≠ .markLabel l) :
    ResolvesTo (log ++ [r]) l t ↔
      ResolvesTo log l t ∨
        (Waiting log l ∧ (∃ op x, r = .emit op x) ∧ t = (emitted log).length) := by
  constructor
  · rintro ⟨i, j, op, x, hi, hij, hno, hj, rfl⟩
    rw [lastMark_append_of_ne hm] at hi
    have hlt := (List.getElem?_eq_some_iff.mp hj).1
    rw [List.length_append, List.length_singleton] at hlt
    rw [noEmit_append (by omega)] at hno
    -- the first instruction after the mark is the new request, or it was there before
    by_cases hend : j = log.length
    · subst hend
      exact Or.inr ⟨⟨i, hi, hno⟩, ⟨op, x, by simpa using hj⟩, by simp⟩
    · rw [List.getElem?_append_left (by omega)] at hj
      refine Or.inl ⟨i, j, op, x, hi, hij, hno, hj, ?_⟩
      rw [List.take_append_of_le_length (by omega)]
  · rintro (⟨i, j, op, x, hi, hij, hno, hj, rfl⟩ | ⟨⟨i, hi, hno⟩, ⟨op, x, rfl⟩, rfl⟩)
    · have hlt := (List.getElem?_eq_some_iff.mp hj).1
      refine ⟨i, j, op, x, (lastMark_append_of_ne hm).mpr hi, hij,
        (noEmit_append (by omega)).mpr hno, ?_, ?_⟩
      · rw [List.getElem?_append_left hlt, hj]
      · rw [List.take_append_of_le_length (by omega)]
    · exact ⟨i, log.length, op, x, (lastMark_append_of_ne hm).mpr hi, hi.lt,
        (noEmit_append (Nat.le_refl _)).mpr hno, by simp, by simp⟩

/-! ### The label table follows the history -/

namespace LabelTable

@[simp] theorem resolve_define (t : LabelTable) (l : Label) :
    t.define.2.resolve l = t.resolve l := by
  unfold resolve define
  rw [Array.getElem?_push]
  split
  · rename_i h
    rw [h, Array.getElem?_eq_none (Nat.le_refl _)]
    rfl
  · rfl

@[simp] theorem resolve_stage (t : LabelTable) (l k : Label) :
    (t.stage k).resolve l = t.resolve l := by
  rw [resolve, resolve, bindings_stage]

theorem knows_define {t : LabelTable} {l : Label} (h : t.knows l = true) :
    t.define.2.knows l = true := by
  rw [knows_iff] at h ⊢
  simp only [define, Array.size_push]
  omega

theorem knows_stage (t : LabelTable) (l k : Label) : (t.stage k).knows l = t.knows l := by
  rw [knows, knows, bindings_stage]

end LabelTable

/-- The emitter's labels are where the history says: the staged ones wait, and what another one
is bound to is what it resolves to. -/
structure Tracks (log : List Request) (e : Emitter) : Prop where
  count : e.instructions.size = (emitted log).length
  known : ∀ l, l ∈ e.labels.staged → e.labels.knows l = true
  staged : ∀ l, l ∈ e.labels.staged ↔ Waiting log l
  bound : ∀ l t, ¬ Waiting log l → (e.labels.resolve l = some t ↔ ResolvesTo log l t)

namespace Tracks

theorem of_fresh {e : Emitter} (h : e.Fresh) : Tracks [] e where
  count := by rw [h.instructions]; rfl
  known l hl := by rw [h.labels] at hl; cases hl
  staged l := by
    rw [h.labels]
    refine ⟨fun hl => absurd hl List.not_mem_nil, ?_⟩
    rintro ⟨i, hi, -⟩
    exact absurd hi.lt (Nat.not_lt_zero i)
  bound l t _ := by
    rw [h.labels]
    refine ⟨fun hl => ?_, ?_⟩
    · simp [LabelTable.empty, LabelTable.resolve] at hl
    · rintro ⟨i, -, -, -, hi, -⟩
      exact absurd hi.lt (Nat.not_lt_zero i)

variable {e e' : Emitter}

/-- A request that neither emits nor marks, and keeps bindings and staged labels. -/
theorem other (h : Tracks log e) (hm : ∀ l, r ≠ .markLabel l) (he : ∀ op x, r ≠ .emit op x)
    (hcount : e'.instructions = e.instructions) (hstaged : e'.labels.staged = e.labels.staged)
    (hknown : ∀ l, e.labels.knows l = true → e'.labels.knows l = true)
    (hresolve : ∀ l, e'.labels.resolve l = e.labels.resolve l) : Tracks (log ++ [r]) e' where
  count := by
    have hnone : r.instruction? = none := by
      cases r with
      | emit op x => exact absurd rfl (he op x)
      | _ => rfl
    rw [hcount, h.count, emitted_append]
    simp [emitted, hnone]
  known l hl := hknown l (h.known l (by rw [← hstaged]; exact hl))
  staged l := by rw [hstaged, h.staged, waiting_append (hm l) he]
  bound l t hl := by
    rw [waiting_append (hm l) he] at hl
    rw [hresolve, h.bound l t hl, resolvesTo_append (hm l)]
    exact ⟨Or.inl, fun hr => hr.elim id fun hw => absurd hw.1 hl⟩

/-- An instruction settles all labels that wait, whatever it is. -/
theorem emit (h : Tracks log e) (op : Opcode) (x : Operand) (p : PendingArgument) :
    Tracks (log ++ [.emit op x]) (e.append ⟨op, p⟩) where
  count := by simp [Emitter.append, h.count, emitted_append]
  known l hl := by cases hl
  staged l := ⟨fun hl => absurd hl List.not_mem_nil, fun hl => absurd hl not_waiting_append_emit⟩
  bound l t _ := by
    have hres : (e.append ⟨op, p⟩).labels.resolve l =
        if e.labels.knows l = true ∧ l ∈ e.labels.staged then some e.instructions.size
        else e.labels.resolve l := LabelTable.resolve_settle _ _ _
    rw [hres, resolvesTo_append (by simp)]
    by_cases hw : Waiting log l
    · -- the label was waiting for this very instruction
      have hl := (h.staged l).mpr hw
      rw [if_pos ⟨h.known l hl, hl⟩, h.count]
      constructor
      · intro ht
        exact Or.inr ⟨hw, ⟨op, x, rfl⟩, (Option.some.inj ht).symm⟩
      · rintro (ht | ⟨-, -, rfl⟩)
        · exact absurd ht (not_resolvesTo_of_waiting hw)
        · rfl
    · rw [if_neg fun hl => hw ((h.staged l).mp hl.2), h.bound l t hw]
      exact ⟨Or.inl, fun hr => hr.elim id fun hw' => absurd hw'.1 hw⟩

/-- Marking a label again makes it wait again, and its earlier place counts until it settles. -/
theorem mark (h : Tracks log e) {k : Label} (hk : e.labels.knows k = true) :
    Tracks (log ++ [.markLabel k]) { e with labels := e.labels.stage k } where
  count := by simp [h.count, emitted, Request.instruction?]
  known l hl := by
    rw [LabelTable.knows_stage]
    rcases LabelTable.mem_staged_stage.mp hl with hl | rfl
    · exact h.known l hl
    · exact hk
  staged l := by
    rw [LabelTable.mem_staged_stage, h.staged]
    by_cases hl : l = k
    · subst hl
      exact ⟨fun _ => waiting_append_mark, fun _ => Or.inr rfl⟩
    · rw [waiting_append (by simpa using Ne.symm hl) (by simp)]
      exact ⟨fun hw => hw.resolve_right hl, Or.inl⟩
  bound l t hl := by
    -- the label itself waits from now on; until it settles it keeps its old binding
    by_cases hlk : l = k
    · subst hlk
      exact absurd waiting_append_mark hl
    · have hne : Request.markLabel k ≠ .markLabel l := by simpa using Ne.symm hlk
      rw [waiting_append hne (by simp)] at hl
      rw [LabelTable.resolve_stage, h.bound l t hl, resolvesTo_append hne]
      exact ⟨Or.inl, fun hr => hr.elim id fun hw => absurd hw.1 hl⟩

/-- A request that only concerns debug information. -/
theorem sameCode (h : Tracks log e) (hs : e.SameCode e') (hm : ∀ l, r ≠ .markLabel l)
    (he : ∀ op x, r ≠ .emit op x) : Tracks (log ++ [r]) e' := by
  refine h.other hm he hs.instructions ?_ ?_ ?_ <;> rw [hs.labels]
  · exact fun _ hl => hl
  · exact fun _ => rfl

/-- Every granted request keeps the labels where the history says. -/
theorem step {m : Module} {s : Emission} (h : Tracks log e)
    (hr : r.perform ⟨m, e⟩ = .ok () s) : Tracks (log ++ [r]) s.emitter := by
  cases r with
  | emit op x =>
    obtain ⟨p, -, -, hs⟩ := Emission.emit_inv hr
    rw [hs]
    exact h.emit op x p
  | defineLocal type =>
    obtain ⟨-, hs⟩ := Request.defineLocal_inv hr
    rw [hs]
    exact h.other (by simp) (by simp) rfl rfl (fun _ hl => hl) fun _ => rfl
  | defineLabel =>
    rw [Request.defineLabel_inv hr]
    exact h.other (by simp) (by simp) rfl rfl (fun _ hl => LabelTable.knows_define hl)
      (fun l => LabelTable.resolve_define _ l)
  | markLabel k =>
    obtain ⟨hk, hs⟩ := Emission.markLabel_inv hr
    rw [hs]
    exact h.mark hk
  | beginCapture file position =>
    exact h.sameCode (Request.beginCapture_inv hr) (by simp) (by simp)
  | endCapture id => exact h.sameCode (Request.endCapture_inv hr) (by simp) (by simp)

theorem of_run {M : Module → Prop} {e₀ : Emitter} (h₀ : e₀.Fresh) (h : Run M e₀ log e) :
    Tracks log e :=
  Run.induct (of_fresh h₀) (fun ht _ hr => ht.step hr) h

/-- Once the labels that still wait have lost their bindings, a label is bound to what it
resolves to. -/
theorem resolve_unbindStaged (h : Tracks log e) (l : Label) (t : Nat) :
    e.labels.unbindStaged.resolve l = some t ↔ ResolvesTo log l t := by
  rw [LabelTable.unbindStaged, LabelTable.resolve_settle]
  by_cases hw : Waiting log l
  · have hl := (h.staged l).mpr hw
    rw [if_pos ⟨h.known l hl, hl⟩]
    exact ⟨fun ht => absurd ht (by simp), fun ht => absurd ht (not_resolvesTo_of_waiting hw)⟩
  · rw [if_neg fun hl => hw ((h.staged l).mp hl.2)]
    exact h.bound l t hw

/-- A label has at most one target. -/
theorem unique (h : Tracks log e) {t' : Nat} (ht : ResolvesTo log l t)
    (ht' : ResolvesTo log l t') : t = t' := by
  rw [← h.resolve_unbindStaged] at ht ht'
  exact Option.some.inj (ht.symm.trans ht')

end Tracks

/-- A label resolves to an instruction of the body. -/
theorem ResolvesTo.lt (h : ResolvesTo log l t) : t < (emitted log).length := by
  obtain ⟨i, j, op, x, -, -, -, hj, rfl⟩ := h
  obtain ⟨hlt, hj⟩ := List.getElem?_eq_some_iff.mp hj
  have hsplit : log = log.take j ++ .emit op x :: log.drop (j + 1) := by
    rw [← hj, ← List.drop_eq_getElem_cons, List.take_append_drop]
  rw [hsplit, emitted_append, List.length_append, ← hsplit]
  simp [emitted, Request.instruction?]

end MarkupLowering
