import MarkupLowering.Proofs.Emitter.Captures

/-!
# MarkupLowering.Proofs.Emitter.OpenCaptures

**Open captures, recorded points and the scope**, told from the history of an emitter.

* `Mapped`: the open captures are those that were not ended, and the recorded points are those of
  the ended ones that leave a point;
* `Scoped`: the scope is that of the point recorded first, whose capture ended before all others
  that leave one.

Both hold along every course, with `Begins` (`Course.tracked`).
-/

namespace MarkupLowering

variable {log : List Exchange} {x : Exchange} {i j id : Nat}

/-! ### Open captures and recorded points -/

/-- The capture was begun at `i`, in the document that is cached for its file. -/
def Begun (docs : DocumentCache) (log : List Exchange) (i : Nat) (c : OpenCapture) : Prop :=
  ∃ file, BeginAt log i file c.position (some c.id) ∧ docs.find? file.path = some c.document ∧
    c.start = countAt log i

namespace Begun

variable {docs : DocumentCache} {c d : OpenCapture}

theorem captured (h : Begun docs log i c) : Captured log i c.id := by
  obtain ⟨file, hb, -⟩ := h
  exact ⟨file, c.position, hb⟩

theorem start (h : Begun docs log i c) : c.start = countAt log i := by
  obtain ⟨_, -, -, hstart⟩ := h
  exact hstart

/-- A request begins one capture. -/
theorem unique (h : Begun docs log i c) (h' : Begun docs log i d) : c = d := by
  obtain ⟨file, hb, hc, hstart⟩ := h
  obtain ⟨file', hb', hd, hstart'⟩ := h'
  have hsame := hb.symm.trans hb'
  simp only [Option.some.injEq, Exchange.mk.injEq, Request.beginCapture.injEq, Except.ok.injEq,
    Reply.capture.injEq] at hsame
  obtain ⟨⟨rfl, hposition⟩, hid⟩ := hsame
  have hdocument := Option.some.inj (hc.symm.trans hd)
  have hstarts := hstart.trans hstart'.symm
  obtain ⟨_, _, _, _⟩ := c
  obtain ⟨_, _, _, _⟩ := d
  simp_all

theorem append (h : Begun docs log i c) {docs' : DocumentCache}
    (hdocs : ∀ path d, docs.find? path = some d → docs'.find? path = some d) :
    Begun docs' (log ++ [x]) i c := by
  obtain ⟨file, hb, hd, hstart⟩ := h
  refine ⟨file, beginAt_append.mpr (Or.inl hb), hdocs _ _ hd, ?_⟩
  rw [hstart, countAt_append (Nat.le_of_lt hb.lt)]

end Begun

/-- The open captures are those that were not ended, in the order in which they began. The points
are those of the ended captures that leave one, one for each. -/
structure Mapped (docs : DocumentCache) (log : List Exchange) (e : Emitter) : Prop where
  opened : ∀ c ∈ e.openCaptures, ∃ i, Begun docs log i c ∧ ¬ Ended log i c.id
  running : ∀ i id, Captured log i id → ¬ Ended log i id → ∃ c ∈ e.openCaptures, c.id = id
  order : e.openCaptures.Pairwise fun c d => c.id < d.id ∧ c.start < d.start
  recorded : ∀ p ∈ e.debug.points, ∃ i c, Begun docs log i c ∧ Ended log i c.id ∧
    Yields log i c.id ∧ p = c.point
  kept : ∀ i id, Captured log i id → Ended log i id → Yields log i id →
    ∃ p ∈ e.debug.points, p.instruction = countAt log i
  distinct : e.debug.points.Pairwise fun p q => p.instruction ≠ q.instruction

namespace Mapped

variable {docs docs' : DocumentCache} {e e' : Emitter}

theorem of_untouched (h : e.Untouched) : Mapped docs [] e where
  opened c hc := by rw [h.openCaptures] at hc; cases hc
  running i id hc := absurd hc.lt (Nat.not_lt_zero i)
  order := by rw [h.openCaptures]; exact .nil
  recorded p hp := by rw [h.debug] at hp; cases hp
  kept i id hc := absurd hc.lt (Nat.not_lt_zero i)
  distinct := by rw [h.debug]; exact .nil

/-- An open capture was begun where its number was given. -/
theorem begun_of_open (h : Mapped docs log e) (hb : Begins log e) {c : OpenCapture}
    (hmem : c ∈ e.openCaptures) (hc : Captured log i c.id) : Begun docs log i c := by
  obtain ⟨j, hj, -⟩ := h.opened c hmem
  rw [hb.unique i j c.id hc hj.captured]
  exact hj

/-- An open capture leaves a point if an instruction came since it began. -/
theorem yields_of_open (h : Mapped docs log e) (hb : Begins log e) {c : OpenCapture}
    (hmem : c ∈ e.openCaptures) (hlt : c.start < e.count) :
    ∃ i, Begun docs log i c ∧ Yields log i c.id := by
  obtain ⟨i, hi, hrun⟩ := h.opened c hmem
  refine ⟨i, hi, ?_⟩
  rw [yields_iff_of_not_ended hi.captured hrun, ← hi.start, ← hb.count]
  exact hlt

/-- No open capture began where one began that has left a point. -/
theorem point_ne (h : Mapped docs log e) (hb : Begins log e) {p : SequencePoint} {c : OpenCapture}
    (hp : p ∈ e.debug.points) (hc : c ∈ e.openCaptures) : p.instruction ≠ c.start := by
  obtain ⟨i, c', hi, hended, -, rfl⟩ := h.recorded p hp
  obtain ⟨j, hj, hrun⟩ := h.opened c hc
  intro heq
  have hcount : countAt log i = countAt log j := by
    rw [← hi.start, ← hj.start]
    exact heq
  obtain rfl := hb.index_eq hi.captured hj.captured hcount
  rw [hi.unique hj] at hended
  exact hrun hended

/-- Others changed the module. -/
theorem elsewhere (h : Mapped docs log e)
    (hdocs : ∀ path d, docs.find? path = some d → docs'.find? path = some d) :
    Mapped docs' log e where
  opened c hc := by
    obtain ⟨i, ⟨file, hb, hd, hstart⟩, hrun⟩ := h.opened c hc
    exact ⟨i, ⟨file, hb, hdocs _ _ hd, hstart⟩, hrun⟩
  running := h.running
  order := h.order
  recorded p hp := by
    obtain ⟨i, c, ⟨file, hb, hd, hstart⟩, hrest⟩ := h.recorded p hp
    exact ⟨i, c, ⟨file, hb, hdocs _ _ hd, hstart⟩, hrest⟩
  kept := h.kept
  distinct := h.distinct

/-- An exchange that begins and ends no capture. -/
theorem quiet (h : Mapped docs log e)
    (hbegin : ∀ file position id, x ≠ ⟨.beginCapture file position, .ok (.capture (some id))⟩)
    (hend : ∀ id, x.request ≠ .endCapture id)
    (hdocs : ∀ path d, docs.find? path = some d → docs'.find? path = some d)
    (hopen : e'.openCaptures = e.openCaptures) (hdebug : e'.debug = e.debug) :
    Mapped docs' (log ++ [x]) e' := by
  have hended : ∀ {i id}, i < log.length → (Ended (log ++ [x]) i id ↔ Ended log i id) :=
    fun hi => ended_append_of_ne hi (hend _)
  have hcaptured : ∀ {i id}, Captured (log ++ [x]) i id → Captured log i id := by
    intro i id hc
    refine (captured_append.mp hc).resolve_right ?_
    rintro ⟨-, file, position, hx⟩
    exact hbegin file position id hx
  refine ⟨?_, ?_, by rw [hopen]; exact h.order, ?_, ?_, by rw [hdebug]; exact h.distinct⟩
  · intro c hc
    rw [hopen] at hc
    obtain ⟨i, hi, hrun⟩ := h.opened c hc
    exact ⟨i, hi.append hdocs, by rwa [hended hi.captured.lt]⟩
  · intro i id hc hrun
    have hc := hcaptured hc
    rw [hended hc.lt] at hrun
    rw [hopen]
    exact h.running i id hc hrun
  · intro p hp
    rw [hdebug] at hp
    obtain ⟨i, c, hi, hfinal, hyields, rfl⟩ := h.recorded p hp
    exact ⟨i, c, hi.append hdocs, (hended hi.captured.lt).mpr hfinal,
      yields_append.mpr (Or.inl hyields), rfl⟩
  · intro i id hc hfinal hyields
    have hc := hcaptured hc
    have hfinal := (hended hc.lt).mp hfinal
    have hyields := (yields_append.mp hyields).resolve_right fun hlate => hlate.2.2 hfinal
    rw [hdebug, countAt_append (Nat.le_of_lt hc.lt)]
    exact h.kept i id hc hfinal hyields

/-- A capture begins. -/
theorem began (h : Mapped docs log e) (hb : Begins log e) {file : SourceFile}
    {position : Position} {d : Document}
    (hx : x = ⟨.beginCapture file position, .ok (.capture (some e.nextCapture))⟩)
    (hlast : e.lastStart ≠ some e.count)
    (hdocs : ∀ path d, docs.find? path = some d → docs'.find? path = some d)
    (hd : docs'.find? file.path = some d)
    (hopen : e'.openCaptures = e.openCaptures ++ [⟨e.nextCapture, d, position, e.count⟩])
    (hdebug : e'.debug = e.debug) : Mapped docs' (log ++ [x]) e' := by
  have hnotEmit : ¬ x.IsEmit := Exchange.not_isEmit_of_request (by rw [hx]; simp)
  have hended : ∀ {i id}, i < log.length → (Ended (log ++ [x]) i id ↔ Ended log i id) :=
    fun hi => ended_append_of_ne hi (by rw [hx]; simp)
  have hcaptured : ∀ {i id}, Captured (log ++ [x]) i id →
      Captured log i id ∨ (i = log.length ∧ id = e.nextCapture) := by
    intro i id hc
    refine (captured_append.mp hc).imp_right ?_
    rintro ⟨hi, f, p, heq⟩
    rw [hx] at heq
    exact ⟨hi, by simpa using (congrArg Exchange.reply heq).symm⟩
  have hnew : Begun docs' (log ++ [x]) log.length ⟨e.nextCapture, d, position, e.count⟩ :=
    ⟨file, beginAt_append.mpr (Or.inr ⟨rfl, hx⟩), hd, by rw [countAt_append_length]; exact hb.count⟩
  refine ⟨?_, ?_, ?_, ?_, ?_, by rw [hdebug]; exact h.distinct⟩
  · intro c hc
    rw [hopen] at hc
    rcases List.mem_append.mp hc with hc | hc
    · obtain ⟨i, hi, hrun⟩ := h.opened c hc
      exact ⟨i, hi.append hdocs, by rwa [hended hi.captured.lt]⟩
    · obtain rfl := List.mem_singleton.mp hc
      exact ⟨log.length, hnew, not_ended_length⟩
  · intro i id hc hrun
    rw [hopen]
    rcases hcaptured hc with hc | ⟨-, rfl⟩
    · rw [hended hc.lt] at hrun
      obtain ⟨c, hmem, rfl⟩ := h.running i id hc hrun
      exact ⟨c, List.mem_append_left _ hmem, rfl⟩
    · exact ⟨_, List.mem_append_right _ List.mem_cons_self, rfl⟩
  · -- it has the highest number, and begins after all others
    rw [hopen, List.pairwise_append]
    refine ⟨h.order, List.pairwise_singleton _ _, fun c hc c' hc' => ?_⟩
    obtain rfl := List.mem_singleton.mp hc'
    obtain ⟨i, hi, -⟩ := h.opened c hc
    refine ⟨hb.numbered i c.id hi.captured, ?_⟩
    have hle := countAt_le log i
    rw [← hi.start, ← hb.count] at hle
    refine Nat.lt_of_le_of_ne hle fun heq => hlast ?_
    have hcount : countAt log i = instructionsIn log := by
      rw [← hi.start, ← hb.count]
      exact heq
    obtain ⟨f, hbegin, -⟩ := hi
    rw [hb.count, hb.latest]
    exact ⟨i, ⟨f, _, _, hbegin⟩, hcount⟩
  · intro p hp
    rw [hdebug] at hp
    obtain ⟨i, c, hi, hfinal, hyields, rfl⟩ := h.recorded p hp
    exact ⟨i, c, hi.append hdocs, (hended hi.captured.lt).mpr hfinal,
      yields_append.mpr (Or.inl hyields), rfl⟩
  · intro i id hc hfinal hyields
    rw [yields_append_of_not_emit hnotEmit] at hyields
    rcases hcaptured hc with hc | ⟨rfl, -⟩
    · rw [hdebug, countAt_append (Nat.le_of_lt hc.lt)]
      exact h.kept i id hc ((hended hc.lt).mp hfinal) hyields
    · exact absurd hfinal not_ended_length

/-- Open captures have different numbers, so ending one takes just that one away. -/
theorem mem_eraseP {l : List OpenCapture}
    (hl : l.Pairwise fun c d => c.id < d.id ∧ c.start < d.start) {c : OpenCapture} :
    c ∈ l.eraseP (·.id == id) ↔ c ∈ l ∧ c.id ≠ id := by
  induction l with
  | nil => simp
  | cons d l ih =>
    obtain ⟨hd, hl⟩ := List.pairwise_cons.mp hl
    by_cases hid : d.id = id
    · have hlater : c ∈ l → c.id ≠ id := by
        intro hc
        have hlt := (hd c hc).1
        omega
      rw [List.eraseP_cons_of_pos (by simpa using hid), List.mem_cons]
      exact ⟨fun hc => ⟨Or.inr hc, hlater hc⟩,
        fun hc => hc.1.resolve_left fun heq => hc.2 (by rw [heq, hid])⟩
    · rw [List.eraseP_cons_of_neg (by simpa using hid), List.mem_cons, List.mem_cons, ih hl]
      constructor
      · rintro (rfl | ⟨hc, hne⟩)
        · exact ⟨Or.inl rfl, hid⟩
        · exact ⟨Or.inr hc, hne⟩
      · rintro ⟨rfl | hc, hne⟩
        · exact Or.inl rfl
        · exact Or.inr ⟨hc, hne⟩

/-- What ending a capture does: the capture is open no more, and leaves a point if an instruction
came since it began. -/
theorem endCapture_cases (h : Mapped docs log e) (hb : Begins log e) (id : Nat) :
    (e.endCapture id).openCaptures = e.openCaptures.eraseP (·.id == id) ∧
      (((∀ c ∈ e.openCaptures, c.id = id → e.count ≤ c.start) ∧
          (e.endCapture id).debug = e.debug) ∨
        ∃ c ∈ e.openCaptures, c.id = id ∧ c.start < e.count ∧
          (e.endCapture id).debug = e.debug.addPoint c.point) := by
  refine ⟨e.openCaptures_endCapture id, ?_⟩
  unfold Emitter.endCapture
  cases hfind : e.openCaptures.find? (·.id == id) with
  | none =>
    have hnone : ∀ c ∈ e.openCaptures, c.id ≠ id := by
      simpa using List.find?_eq_none.mp hfind
    exact Or.inl ⟨fun c hc hid => absurd hid (hnone c hc), rfl⟩
  | some c =>
    have hmem := List.mem_of_find?_eq_some hfind
    have hid : c.id = id := by simpa using List.find?_some hfind
    dsimp only
    rw [Emitter.record_eq]
    by_cases hlt : c.start < e.count
    · exact Or.inr ⟨c, hmem, hid, hlt, if_pos hlt⟩
    · refine Or.inl ⟨fun c' hc' hid' => ?_, if_neg hlt⟩
      -- there is no second one with the number
      obtain ⟨i, hi, -⟩ := h.opened c hmem
      have hci := hi.captured
      rw [hid, ← hid'] at hci
      rw [(h.begun_of_open hb hc' hci).unique hi]
      exact Nat.le_of_not_lt hlt

/-- A request to end a capture. -/
theorem ended (h : Mapped docs log e) (hb : Begins log e) (hx : x.request = .endCapture id) :
    Mapped docs (log ++ [x]) (e.endCapture id) := by
  have hnotEmit : ¬ x.IsEmit := Exchange.not_isEmit_of_request (by rw [hx]; simp)
  have hcaptured : ∀ {i id}, Captured (log ++ [x]) i id ↔ Captured log i id :=
    captured_append_of_ne (by rw [hx]; simp)
  have hended : ∀ {i id'}, i < log.length →
      (Ended (log ++ [x]) i id' ↔ Ended log i id' ∨ id' = id) := by
    intro i id' hi
    rw [ended_append hi, hx, Request.endCapture.injEq, eq_comm (a := id)]
  have hkeep : ∀ path d, docs.find? path = some d → docs.find? path = some d := fun _ _ hd => hd
  obtain ⟨hopen, hdebug⟩ := h.endCapture_cases hb id
  have hpoints : ∀ p ∈ e.debug.points, p ∈ (e.endCapture id).debug.points := by
    intro p hp
    rcases hdebug with ⟨-, hdebug⟩ | ⟨c, -, -, -, hdebug⟩ <;> rw [hdebug]
    · exact hp
    · exact List.mem_append_left _ hp
  refine ⟨?_, ?_, ?_, ?_, ?_, ?_⟩
  · intro c hc
    rw [hopen, mem_eraseP h.order] at hc
    obtain ⟨i, hi, hrun⟩ := h.opened c hc.1
    refine ⟨i, hi.append hkeep, ?_⟩
    rw [hended hi.captured.lt]
    exact fun hfinal => hfinal.elim hrun hc.2
  · intro i id' hc hrun
    have hc := hcaptured.mp hc
    rw [hended hc.lt, not_or] at hrun
    obtain ⟨c, hmem, rfl⟩ := h.running i id' hc hrun.1
    exact ⟨c, by rw [hopen, mem_eraseP h.order]; exact ⟨hmem, hrun.2⟩, rfl⟩
  · rw [hopen]
    exact h.order.sublist List.eraseP_sublist
  · have hold : ∀ p ∈ e.debug.points, ∃ i c, Begun docs (log ++ [x]) i c ∧
        Ended (log ++ [x]) i c.id ∧ Yields (log ++ [x]) i c.id ∧ p = c.point := by
      intro p hp
      obtain ⟨i, c, hi, hfinal, hyields, rfl⟩ := h.recorded p hp
      exact ⟨i, c, hi.append hkeep, (hended hi.captured.lt).mpr (Or.inl hfinal),
        yields_append.mpr (Or.inl hyields), rfl⟩
    rcases hdebug with ⟨-, hdebug⟩ | ⟨c, hmem, hid, hlt, hdebug⟩ <;> rw [hdebug]
    · exact hold
    · intro p hp
      rcases List.mem_append.mp hp with hp | hp
      · exact hold p hp
      · obtain rfl := List.mem_singleton.mp hp
        obtain ⟨i, hi, hyields⟩ := h.yields_of_open hb hmem hlt
        exact ⟨i, c, hi.append hkeep, (hended hi.captured.lt).mpr (Or.inr hid),
          yields_append.mpr (Or.inl hyields), rfl⟩
  · intro i id' hc hfinal hyields
    have hc := hcaptured.mp hc
    rw [yields_append_of_not_emit hnotEmit] at hyields
    rw [countAt_append (Nat.le_of_lt hc.lt)]
    by_cases hbefore : Ended log i id'
    · obtain ⟨p, hp, hinstr⟩ := h.kept i id' hc hbefore hyields
      exact ⟨p, hpoints p hp, hinstr⟩
    · -- it is ended now, so it was open
      obtain rfl : id' = id := ((hended hc.lt).mp hfinal).resolve_left hbefore
      have hstart : ∀ c ∈ e.openCaptures, c.id = id' → c.start = countAt log i := by
        rintro c hmem rfl
        exact (h.begun_of_open hb hmem hc).start
      obtain ⟨c, hmem, hid⟩ := h.running i id' hc hbefore
      rw [yields_iff_of_not_ended hc hbefore, ← hb.count] at hyields
      rcases hdebug with ⟨hnone, -⟩ | ⟨c', hmem', hid', -, hdebug⟩
      · have hle := hnone c hmem hid
        rw [hstart c hmem hid] at hle
        omega
      · exact ⟨c'.point, by rw [hdebug]; exact List.mem_append_right _ List.mem_cons_self,
          hstart c' hmem' hid'⟩
  · rcases hdebug with ⟨-, hdebug⟩ | ⟨c, hmem, -, -, hdebug⟩ <;> rw [hdebug]
    · exact h.distinct
    · rw [DebugInfo.points_addPoint, List.pairwise_append]
      refine ⟨h.distinct, List.pairwise_singleton _ _, fun p hp q hq => ?_⟩
      obtain rfl := List.mem_singleton.mp hq
      exact h.point_ne hb hp hmem

/-- A request or a change elsewhere keeps captures and points as the history says. -/
theorem step {s s' : Emission} (h : Mapped s.module.documents log s.emitter)
    (hb : Begins log s.emitter) (hs : s.Advances x s') :
    Mapped s'.module.documents (log ++ [x]) s'.emitter := by
  cases hs with
  | other hbegin hend _ hsame hdocs =>
    refine h.quiet (fun file position id hx => hbegin file position ?_) hend hdocs
      hsame.openCaptures hsame.debug
    rw [hx]
  | ended id => exact h.ended hb rfl
  | began file position =>
    have hdocs := Module.KeepsDocuments.document s.module file
    have hd : (s.beginCapture file position).2.module.documents.find? file.path =
        some (s.module.document file).1 := s.module.documents.find?_findOrCreate_self file
    rcases s.beginCapture_cases file position with ⟨-, hid, he⟩ | ⟨hlast, hid, he⟩ <;> rw [he, hid]
    · exact h.quiet (by simp) (by simp) hdocs rfl rfl
    · exact h.began hb rfl hlast hdocs hd rfl rfl

end Mapped

/-! ### The scope -/

/-- The capture was begun at `i` and ended by the request at `j`, before which no capture that
leaves a point was ended. -/
def EndsFirst (log : List Exchange) (i j id : Nat) : Prop :=
  Captured log i id ∧ i < j ∧ EndAt log j id ∧
    ∀ i' id', Captured log i' id' → Yields log i' id' → Unended log id' i' j

/-- What ended first stays what ended first. -/
theorem EndsFirst.append (h : EndsFirst log i j id) : EndsFirst (log ++ [x]) i j id := by
  obtain ⟨⟨file, position, hbegin⟩, hij, hend, hothers⟩ := h
  refine ⟨⟨file, position, beginAt_append.mpr (Or.inl hbegin)⟩, hij,
    endAt_append.mpr (Or.inl hend), ?_⟩
  rintro i' id' ⟨f, p, hc⟩ hyields
  rcases beginAt_append.mp hc with hc | ⟨rfl, -⟩
  · rw [unended_append (Nat.le_of_lt hend.lt)]
    rcases yields_append.mp hyields with hyields | ⟨-, -, hrun⟩
    · exact hothers i' id' ⟨f, p, hc⟩ hyields
    · exact unended_of_not_ended hrun
  · intro k hk hkj
    have hlt := hend.lt
    omega

/-- The scope is that of the point recorded first. -/
structure Scoped (log : List Exchange) (e : Emitter) : Prop where
  scope : e.debug.scope = e.debug.points.head?.map fun p => .openAt p.instruction
  first : ∀ p, e.debug.points.head? = some p →
    ∃ i j id, countAt log i = p.instruction ∧ EndsFirst log i j id

namespace Scoped

variable {docs : DocumentCache} {e e' : Emitter}

theorem of_untouched (h : e.Untouched) : Scoped [] e where
  scope := by rw [h.debug]; rfl
  first p hp := by rw [h.debug] at hp; cases hp

/-- An exchange that leaves the first point the first one. -/
theorem quiet (h : Scoped log e) (hscope : e'.debug.scope = e.debug.scope)
    (hhead : e'.debug.points.head? = e.debug.points.head?) : Scoped (log ++ [x]) e' where
  scope := by rw [hscope, hhead, h.scope]
  first p hp := by
    rw [hhead] at hp
    obtain ⟨i, j, id, hcount, hfirst⟩ := h.first p hp
    refine ⟨i, j, id, ?_, hfirst.append⟩
    rw [countAt_append (Nat.le_of_lt hfirst.1.lt), hcount]

/-- The first point is recorded. Captures that leave a point have not ended before, since they
would have left it. -/
theorem opens (hm : Mapped docs log e) {c : OpenCapture} (hc : c ∈ e.openCaptures)
    (hempty : e.debug.points = []) (hx : x.request = .endCapture c.id)
    (hdebug : e'.debug = e.debug.addPoint c.point) (hscope : e.debug.scope = none) :
    Scoped (log ++ [x]) e' := by
  have hpoints : e'.debug.points.head? = some c.point := by
    rw [hdebug, DebugInfo.points_addPoint, hempty]
    rfl
  refine ⟨by rw [hpoints, hdebug, DebugInfo.scope_addPoint, hscope]; rfl, fun p hp => ?_⟩
  obtain rfl : c.point = p := Option.some.inj (hpoints.symm.trans hp)
  obtain ⟨i, hi, -⟩ := hm.opened c hc
  obtain ⟨file, position, hbegin⟩ := hi.captured
  refine ⟨i, log.length, c.id, ?_, ⟨file, position, beginAt_append.mpr (Or.inl hbegin)⟩, hbegin.lt,
    endAt_append.mpr (Or.inr ⟨rfl, hx⟩), ?_⟩
  · rw [countAt_append (Nat.le_of_lt hbegin.lt), ← hi.start]
    rfl
  · rintro i' id' ⟨f, p, hc'⟩ hyields
    rw [unended_append (Nat.le_refl _)]
    have hnotEmit : ¬ x.IsEmit := Exchange.not_isEmit_of_request (by rw [hx]; simp)
    rw [yields_append_of_not_emit hnotEmit] at hyields
    rcases beginAt_append.mp hc' with hc' | ⟨-, rfl⟩
    · refine unended_of_not_ended fun hended => ?_
      obtain ⟨q, hq, -⟩ := hm.kept i' id' ⟨f, p, hc'⟩ hended hyields
      rw [hempty] at hq
      cases hq
    · cases hx

/-- The first point that is added opens the scope, and later ones find it open. -/
theorem step {s s' : Emission} (h : Scoped log s.emitter)
    (hm : Mapped s.module.documents log s.emitter) (hb : Begins log s.emitter)
    (hs : s.Advances x s') : Scoped (log ++ [x]) s'.emitter := by
  cases hs with
  | other _ _ _ hsame _ => exact h.quiet (by rw [hsame.debug]) (by rw [hsame.debug])
  | began file position =>
    have hsame : (s.beginCapture file position).2.emitter.debug = s.emitter.debug := by
      rcases s.beginCapture_cases file position with ⟨-, -, he⟩ | ⟨-, -, he⟩ <;> rw [he]
    exact h.quiet (by rw [hsame]) (by rw [hsame])
  | ended id =>
    rcases (hm.endCapture_cases hb id).2 with ⟨-, hdebug⟩ | ⟨c, hc, rfl, -, hdebug⟩
    · exact h.quiet (congrArg DebugInfo.scope hdebug)
        (congrArg (fun d : DebugInfo => d.points.head?) hdebug)
    · have hscope := h.scope
      cases hpoints : s.emitter.debug.points with
      | nil =>
        rw [hpoints] at hscope
        exact opens hm hc hpoints rfl hdebug hscope
      | cons p points =>
        rw [hpoints] at hscope
        refine h.quiet (?_ : (s.emitter.endCapture c.id).debug.scope = _)
          (?_ : (s.emitter.endCapture c.id).debug.points.head? = _) <;> rw [hdebug]
        · rw [DebugInfo.scope_addPoint, hscope]
          rfl
        · rw [DebugInfo.points_addPoint, hpoints]
          rfl

end Scoped

/-- The captures, the points and the scope of an emitter are those that the history tells. -/
structure Tracked (docs : DocumentCache) (log : List Exchange) (e : Emitter) : Prop where
  begins : Begins log e
  mapped : Mapped docs log e
  scope : Scoped log e

/-- Whatever is asked of an emitter, the history tells its captures, points and scope. -/
theorem Course.tracked {m : Module} {owner : BodyOwner} {e₀ : Emitter} {s : Emission}
    (h₀ : m.emitter owner = .ok e₀) (h : Course ⟨m, e₀⟩ log s) :
    Tracked s.module.documents log s.emitter := by
  have hfresh := Module.untouched_emitter h₀
  refine Course.induct (P := fun log s => Tracked s.module.documents log s.emitter) ?_ ?_ ?_ h
  · exact ⟨.of_untouched hfresh, .of_untouched hfresh, .of_untouched hfresh⟩
  · intro log s x s' ih hs
    exact ⟨ih.begins.step hs, ih.mapped.step ih.begins hs, ih.scope.step ih.mapped ih.begins hs⟩
  · intro log s m ih hm
    exact ⟨ih.begins, ih.mapped.elsewhere hm, ih.scope⟩

end MarkupLowering
