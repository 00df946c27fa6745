import Mathlib.Logic.ExistsUnique
import MarkupLowering.Proofs.Emitter.OpenCaptures
import MarkupLowering.Proofs.Emitter.Outcome

/-!
# MarkupLowering.Proofs.Emitter.SequencePoints

**The debug information of a finished body**, told from the history of its emitter.

Finishing ends the captures that still run, the latest first, and sorts the points.

* `sequencePoints_from_history`: there is one point for each capture that leaves one, in the order
  of their instructions.
* `scope_starts_first_iff`: the scope starts at the first of these points only if the capture of
  that point was ended before all others that leave a point. Captures that nest, as those of a
  tree do, end the other way round.
-/

namespace MarkupLowering

variable {log : List Exchange} {i id : Nat} {docs : DocumentCache}

/-! ### Ending all captures -/

namespace DebugInfo

theorem points_foldl_addPoint (ps : List SequencePoint) (d : DebugInfo) :
    (ps.foldl addPoint d).points = d.points ++ ps := by
  induction ps generalizing d with
  | nil => simp
  | cons p ps ih => simp [ih]

/-- The first point recorded opens the scope. -/
theorem scope_foldl_addPoint (ps : List SequencePoint) (d : DebugInfo) :
    (ps.foldl addPoint d).scope = d.scope.or (ps.head?.map fun p => .openAt p.instruction) := by
  induction ps generalizing d with
  | nil => simp
  | cons p ps ih =>
    rw [List.foldl_cons, ih, scope_addPoint]
    cases d.scope <;> rfl

end DebugInfo

namespace Emitter

/-- The points of the captures that still run, as finishing records them. -/
def latePoints (e : Emitter) : List SequencePoint :=
  (e.openCaptures.reverse.filter fun c => c.start < e.count).map OpenCapture.point

/-- All points, in the order in which they are recorded. -/
def allPoints (e : Emitter) : List SequencePoint := e.debug.points ++ e.latePoints

theorem debug_foldr_record (cs : List OpenCapture) (e : Emitter) :
    (cs.foldr (fun c e => e.record c) e).debug =
      ((cs.reverse.filter fun c => c.start < e.count).map OpenCapture.point).foldl
        DebugInfo.addPoint e.debug := by
  induction cs with
  | nil => rfl
  | cons c cs ih =>
    have hcount : (cs.foldr (fun c e => e.record c) e).count = e.count := by
      clear ih
      induction cs with
      | nil => rfl
      | cons d cs ih =>
        rw [List.foldr_cons, record_eq]
        exact ih
    rw [List.foldr_cons, record_eq, hcount, ih, List.reverse_cons, List.filter_append,
      List.map_append, List.foldl_append]
    by_cases hc : c.start < e.count <;> simp [hc]

theorem points_endAllCaptures (e : Emitter) : e.endAllCaptures.debug.points = e.allPoints := by
  rw [endAllCaptures, debug_foldr_record, DebugInfo.points_foldl_addPoint]
  rfl

theorem scope_endAllCaptures (e : Emitter) :
    e.endAllCaptures.debug.scope =
      e.debug.scope.or (e.latePoints.head?.map fun p => .openAt p.instruction) := by
  rw [endAllCaptures, debug_foldr_record, DebugInfo.scope_foldl_addPoint]
  rfl

/-- The debug information of a finished body. -/
theorem debug_finishedBody {e : Emitter} {body : Body} (h : e.finishedBody = .ok body) :
    body.debug.points =
        e.allPoints.mergeSort (fun p q => decide (p.instruction ≤ q.instruction)) ∧
      body.debug.scope =
        e.debug.scope.or (e.latePoints.head?.map fun p => .openAt p.instruction) := by
  rw [finishedBody_eq] at h
  split at h
  · cases h
  · cases h
    dsimp only [DebugInfo.sorted]
    rw [points_endAllCaptures, scope_endAllCaptures]
    exact ⟨rfl, rfl⟩

end Emitter

/-! ### Points and captures -/

/-- The request at `i` began the capture, and the capture leaves a point. -/
def Leaves (log : List Exchange) (i id : Nat) : Prop := Captured log i id ∧ Yields log i id

/-- The point is that of the capture that was begun at `i`, and the capture leaves one. -/
def Anchors (docs : DocumentCache) (log : List Exchange) (i : Nat) (p : SequencePoint) : Prop :=
  ∃ file position id, BeginAt log i file position (some id) ∧ Yields log i id ∧
    docs.find? file.path = some p.document ∧ p.instruction = countAt log i ∧
    p.startLine = position.line ∧ p.startColumn = position.column ∧
    p.endLine = position.line ∧ p.endColumn = position.column + 1

theorem Captured.id_eq {id' : Nat} (h : Captured log i id) (h' : Captured log i id') :
    id = id' := by
  obtain ⟨_, _, hb⟩ := h
  obtain ⟨_, _, hb'⟩ := h'
  have hsame := hb.symm.trans hb'
  simp only [Option.some.injEq, Exchange.mk.injEq, Except.ok.injEq, Reply.capture.injEq] at hsame
  exact hsame.2

namespace Anchors

variable {p q : SequencePoint}

theorem of_begun {c : OpenCapture} (h : Begun docs log i c) (hyields : Yields log i c.id) :
    Anchors docs log i c.point := by
  obtain ⟨file, hb, hd, hstart⟩ := h
  exact ⟨file, c.position, c.id, hb, hyields, hd, hstart, rfl, rfl, rfl, rfl⟩

theorem leaves (h : Anchors docs log i p) :
    ∃ id, Leaves log i id ∧ p.instruction = countAt log i := by
  obtain ⟨file, position, id, hb, hyields, -, hinstr, -⟩ := h
  exact ⟨id, ⟨⟨file, position, hb⟩, hyields⟩, hinstr⟩

/-- A capture leaves one point. -/
theorem unique (hp : Anchors docs log i p) (hq : Anchors docs log i q) : p = q := by
  obtain ⟨file, position, id, hb, -, hpd, hp⟩ := hp
  obtain ⟨file', position', id', hb', -, hqd, hq⟩ := hq
  have hsame := hb.symm.trans hb'
  simp only [Option.some.injEq, Exchange.mk.injEq, Request.beginCapture.injEq] at hsame
  obtain ⟨⟨rfl, rfl⟩, -⟩ := hsame
  have hdocument := Option.some.inj (hpd.symm.trans hqd)
  cases p
  cases q
  simp_all

end Anchors

namespace Tracked

variable {e : Emitter} {p : SequencePoint}

/-- Every point is that of a capture. -/
theorem anchored (h : Tracked docs log e) (hp : p ∈ e.allPoints) : ∃ i, Anchors docs log i p := by
  simp only [Emitter.allPoints, Emitter.latePoints, List.mem_append, List.mem_map, List.mem_filter,
    List.mem_reverse, decide_eq_true_eq] at hp
  rcases hp with hp | ⟨c, ⟨hc, hlt⟩, rfl⟩
  · obtain ⟨i, c, hi, -, hyields, rfl⟩ := h.mapped.recorded p hp
    exact ⟨i, .of_begun hi hyields⟩
  · obtain ⟨i, hi, hyields⟩ := h.mapped.yields_of_open h.begins hc hlt
    exact ⟨i, .of_begun hi hyields⟩

/-- Every capture that leaves a point has its point. -/
theorem exists_point (h : Tracked docs log e) (hi : Leaves log i id) :
    ∃ p ∈ e.allPoints, Anchors docs log i p := by
  obtain ⟨hc, hyields⟩ := hi
  by_cases hended : Ended log i id
  · obtain ⟨p, hp, hinstr⟩ := h.mapped.kept i id hc hended hyields
    obtain ⟨j, c, hj, -, hjyields, rfl⟩ := h.mapped.recorded p hp
    obtain rfl : j = i := h.begins.index_eq hj.captured hc (hj.start.symm.trans hinstr)
    exact ⟨c.point, List.mem_append_left _ hp, .of_begun hj hjyields⟩
  · obtain ⟨c, hmem, rfl⟩ := h.mapped.running i id hc hended
    have hi := h.mapped.begun_of_open h.begins hmem hc
    refine ⟨c.point, List.mem_append_right _ (List.mem_map.mpr ⟨c, ?_, rfl⟩), .of_begun hi hyields⟩
    have hlt : c.start < e.count := by
      rw [hi.start, h.begins.count]
      exact hyields.countAt_lt
    simp [hmem, hlt]

/-- Captures that still run are ended the latest first. -/
theorem latePoints_descending (h : Tracked docs log e) :
    e.latePoints.Pairwise fun p q => q.instruction < p.instruction := by
  rw [Emitter.latePoints, List.pairwise_map]
  exact List.Pairwise.filter _ (List.pairwise_reverse.mpr (h.mapped.order.imp fun hcd => hcd.2))

/-- No two points have one instruction. -/
theorem distinct_allPoints (h : Tracked docs log e) :
    e.allPoints.Pairwise fun p q => p.instruction ≠ q.instruction := by
  rw [Emitter.allPoints, List.pairwise_append]
  refine ⟨h.mapped.distinct, h.latePoints_descending.imp fun hlt => (Nat.ne_of_lt hlt).symm, ?_⟩
  intro p hp q hq
  obtain ⟨c, hc, rfl⟩ := List.mem_map.mp hq
  exact h.mapped.point_ne h.begins hp (List.mem_reverse.mp (List.mem_filter.mp hc).1)

/-- The points of a finished body stand in the order of their instructions. -/
theorem points_ascending (h : Tracked docs log e) {body : Body}
    (hbody : e.finishedBody = .ok body) :
    body.debug.points.Pairwise fun p q => p.instruction < q.instruction := by
  rw [(Emitter.debug_finishedBody hbody).1]
  have hperm := List.mergeSort_perm e.allPoints fun p q => decide (p.instruction ≤ q.instruction)
  have hdistinct := (hperm.pairwise_iff fun hpq => hpq.symm).mpr h.distinct_allPoints
  have hsorted : (e.allPoints.mergeSort fun p q => decide (p.instruction ≤ q.instruction)).Pairwise
      fun p q => decide (p.instruction ≤ q.instruction) = true := by
    refine List.pairwise_mergeSort (fun a b c hab hbc => decide_eq_true ?_) (fun a b => ?_) _
    · exact Nat.le_trans (of_decide_eq_true hab) (of_decide_eq_true hbc)
    · simpa using Nat.le_total a.instruction b.instruction
  exact hsorted.imp₂ (fun p q hle hne => Nat.lt_of_le_of_ne (of_decide_eq_true hle) hne) hdistinct

theorem mem_points {body : Body} (hbody : e.finishedBody = .ok body) :
    p ∈ body.debug.points ↔ p ∈ e.allPoints := by
  rw [(Emitter.debug_finishedBody hbody).1]
  exact (List.mergeSort_perm _ _).mem_iff

end Tracked

/-! ### Sequence points -/

/-- What a successful finish does, after a course from the start. -/
theorem Course.finish_inv {m m' : Module} {owner : BodyOwner} {e₀ : Emitter} {s : Emission}
    (hnew : m.emitter owner = .ok e₀) (hcourse : Course ⟨m, e₀⟩ log s)
    (hfinish : s.emitter.finish s.module = .ok () m') :
    ∃ body, s.emitter.finishedBody = .ok body ∧ m'.bodyAt e₀.row = some body ∧
      body.size = instructionsIn log ∧ m'.documents = s.module.documents := by
  obtain ⟨hfresh, -, row, hrow, -⟩ := Module.emitter_inv hnew
  obtain ⟨body, hbody, hm'⟩ := Emitter.finish_inv hfinish
  have hrun := hcourse.run
  refine ⟨body, hbody, ?_, (Emitter.finishedBody_inv (.of_run hfresh hrun) hbody).2.2.1, ?_⟩
  · have hlt := (Array.getElem?_eq_some_iff.mp hrow).1
    rw [hm', hrun.owner.1]
    exact Module.bodyAt_setBody (Nat.lt_of_lt_of_le hlt hcourse.methods_le) body
  · have hdocuments := s.emitter.documents_finish s.module
    rw [hfinish] at hdocuments
    exact hdocuments

/-- A request begins a capture exactly if none was made before at the same instruction. The points
of the body that is finished after any course are in the order of their instructions, all within
the body, and each is that of one capture; every capture after which an instruction came, before
its first end, has one. -/
theorem sequencePoints_from_history {m : Module} {owner : BodyOwner} {e₀ : Emitter} {s : Emission}
    (hnew : m.emitter owner = .ok e₀) (hcourse : Course ⟨m, e₀⟩ log s) :
    (∀ i x file position, log[i]? = some x → x.request = .beginCapture file position →
      ∃ c, BeginAt log i file position c ∧
        (c.isSome = true ↔ ∀ j, j < i → BeginsAt log j → countAt log j ≠ countAt log i)) ∧
    ∀ m', s.emitter.finish s.module = .ok () m' →
      ∃ body, m'.bodyAt e₀.row = some body ∧
        (body.debug.points.Pairwise fun p q => p.instruction < q.instruction) ∧
        (∀ p ∈ body.debug.points,
          p.instruction < body.size ∧ ∃! i, Anchors m'.documents log i p) ∧
        ∀ i id, Captured log i id → Yields log i id →
          ∃! p, p ∈ body.debug.points ∧ Anchors m'.documents log i p := by
  have htracked := hcourse.tracked hnew
  refine ⟨fun i x file position hx hreq => ?_, fun m' hfinish => ?_⟩
  · obtain ⟨c, hb⟩ := htracked.begins.answered i x file position hx hreq
    exact ⟨c, hb, htracked.begins.captures i file position c hb⟩
  · obtain ⟨body, hbody, hinstalled, hsize, hdocs⟩ := hcourse.finish_inv hnew hfinish
    rw [hdocs]
    refine ⟨body, hinstalled, htracked.points_ascending hbody, fun p hp => ?_,
      fun i id hc hyields => ?_⟩
    · rw [Tracked.mem_points hbody] at hp
      obtain ⟨i, hi⟩ := htracked.anchored hp
      obtain ⟨id, ⟨hc, hyields⟩, hinstr⟩ := hi.leaves
      refine ⟨by rw [hinstr, hsize]; exact hyields.countAt_lt, i, hi, fun j hj => ?_⟩
      obtain ⟨id', ⟨hc', -⟩, hinstr'⟩ := hj.leaves
      exact htracked.begins.index_eq hc' hc (hinstr'.symm.trans hinstr)
    · obtain ⟨p, hp, hanchor⟩ := htracked.exists_point ⟨hc, hyields⟩
      refine ⟨p, ⟨(Tracked.mem_points hbody).mpr hp, hanchor⟩, fun q hq => ?_⟩
      exact hq.2.unique hanchor

/-- A file that the captures below are in. -/
def page : SourceFile := ⟨"page", .empty⟩

/-- A capture within another one, and one that falls together with it. The inner one is ended
first. -/
def nestedCaptures : List Exchange :=
  [⟨.beginCapture page ⟨1, 1⟩, .ok (.capture (some 0))⟩, ⟨.emit .nop .none, .ok .done⟩,
    ⟨.beginCapture page ⟨2, 3⟩, .ok (.capture (some 1))⟩,
    ⟨.beginCapture page ⟨2, 5⟩, .ok (.capture none)⟩, ⟨.emit .nop .none, .ok .done⟩,
    ⟨.endCapture 1, .ok .done⟩, ⟨.endCapture 0, .ok .done⟩, ⟨.emit .ret .none, .ok .done⟩]

theorem course_nestedCaptures :
    ∃ s, Course ⟨oneMethod, onlyEmitter⟩ nestedCaptures s ∧
      (∃ m', s.emitter.finish s.module = .ok () m') ∧
      s.emitter.debug.scope = some (.openAt 1) ∧
      ∃ p ∈ s.emitter.debug.points, p.instruction = 0 := by
  refine ⟨_, .granted (.granted (.granted (.granted (.granted (.granted (.granted (.granted .start
    rfl) rfl) rfl) rfl) rfl) rfl) rfl) rfl, ⟨_, rfl⟩, rfl, ?_⟩
  exact ⟨_, List.mem_cons_of_mem _ List.mem_cons_self, rfl⟩

theorem leaves_nestedCaptures : Leaves nestedCaptures 0 0 ∧ Leaves nestedCaptures 2 1 := by
  refine ⟨⟨⟨_, _, rfl⟩, 1, by decide, ⟨_, rfl, _, _, _, rfl⟩, fun k _ _ => by omega⟩,
    ⟨⟨_, _, rfl⟩, 4, by decide, ⟨_, rfl, _, _, _, rfl⟩, fun k _ _ => ?_⟩⟩
  obtain rfl : k = 3 := by omega
  rintro ⟨x, hx, hreq⟩
  cases hx
  cases hreq

theorem sequencePoints_of_nestedCaptures :
    ∃ s m' body, Course ⟨oneMethod, onlyEmitter⟩ nestedCaptures s ∧
      s.emitter.finish s.module = .ok () m' ∧ m'.bodyAt 0 = some body ∧
      (body.debug.points.Pairwise fun p q => p.instruction < q.instruction) ∧
      (∃! p, p ∈ body.debug.points ∧ Anchors m'.documents nestedCaptures 0 p) ∧
      ∃! p, p ∈ body.debug.points ∧ Anchors m'.documents nestedCaptures 2 p := by
  obtain ⟨s, hcourse, ⟨m', hfinish⟩, -⟩ := course_nestedCaptures
  obtain ⟨body, hbody, hsorted, -, hcaptures⟩ :=
    (sequencePoints_from_history emitter_oneMethod hcourse).2 m' hfinish
  have hleaves := leaves_nestedCaptures
  exact ⟨s, m', body, hcourse, hfinish, hbody, hsorted, hcaptures 0 0 hleaves.1.1 hleaves.1.2,
    hcaptures 2 1 hleaves.2.1 hleaves.2.2⟩

/-! ### The scope -/

/-- A request ended the capture that was begun at `i` while the one begun at `i'` had not been
ended. -/
def EndsBefore (log : List Exchange) (i id i' id' : Nat) : Prop :=
  ∃ j, i < j ∧ EndAt log j id ∧ Unended log id' i' j

theorem countAt_mono (log : List Exchange) {i j : Nat} (h : i ≤ j) :
    countAt log i ≤ countAt log j := by
  have hle := countAt_le (log.take j) i
  rw [countAt, List.take_take, Nat.min_eq_left h] at hle
  exact hle

theorem EndAt.id_eq {j id' : Nat} (h : EndAt log j id) (h' : EndAt log j id') : id = id' := by
  obtain ⟨x, hx, hreq⟩ := h
  obtain ⟨y, hy, hreq'⟩ := h'
  obtain rfl := Option.some.inj (hx.symm.trans hy)
  exact Request.endCapture.inj (hreq.symm.trans hreq')

namespace Tracked

variable {e : Emitter} {p q : SequencePoint}

/-- The point recorded first gives the scope. -/
theorem scope_finishedBody (h : Tracked docs log e) {body : Body}
    (hbody : e.finishedBody = .ok body) :
    body.debug.scope = e.allPoints.head?.map fun p => .openAt p.instruction := by
  rw [(Emitter.debug_finishedBody hbody).2, h.scope.scope, Emitter.allPoints, List.head?_append]
  cases e.debug.points.head? <;> rfl

/-- The capture that begins first has the point with the least instruction. -/
theorem countAt_of_least (h : Tracked docs log e) (hp : p ∈ e.allPoints)
    (hmin : ∀ r ∈ e.allPoints, p.instruction ≤ r.instruction) (hi : Leaves log i id)
    (hleast : ∀ k kid, Leaves log k kid → i ≤ k) : countAt log i = p.instruction := by
  obtain ⟨k, hk⟩ := h.anchored hp
  obtain ⟨kid, hkid, hpk⟩ := hk.leaves
  obtain ⟨r, hr, hri⟩ := h.exists_point hi
  obtain ⟨-, -, hrinstr⟩ := hri.leaves
  have hle := hmin r hr
  have hmono := countAt_mono log (hleast k kid hkid)
  omega

/-- The capture of the point with the least instruction begins first. -/
theorem least_of_min (h : Tracked docs log e) (hi : Anchors docs log i p)
    (hmin : ∀ r ∈ e.allPoints, p.instruction ≤ r.instruction) {k kid : Nat}
    (hk : Leaves log k kid) : i ≤ k := by
  obtain ⟨id, hid, hinstr⟩ := hi.leaves
  obtain ⟨r, hr, hrk⟩ := h.exists_point hk
  obtain ⟨-, -, hrinstr⟩ := hrk.leaves
  have hle := hmin r hr
  refine Decidable.byContradiction fun hlt => ?_
  have hmono := countAt_mono log (Nat.le_of_lt (Nat.lt_of_not_le hlt))
  have hsame := h.begins.index_eq hk.1 hid.1 (by omega)
  omega

/-- If the point recorded first is that of the capture that begins first, this capture was ended
before all others. -/
theorem endsBefore_of_head (h : Tracked docs log e) (hhead : e.allPoints.head? = some p)
    (hmin : ∀ r ∈ e.allPoints, p.instruction ≤ r.instruction) (hi : Leaves log i id)
    (hleast : ∀ k kid, Leaves log k kid → i ≤ k) {i' id' : Nat} (hi' : Leaves log i' id')
    (hlt : i < i') : EndsBefore log i id i' id' := by
  have hcount := h.countAt_of_least (List.mem_of_mem_head? hhead) hmin hi hleast
  cases hpoints : e.debug.points with
  | nil =>
    -- no capture was ended, so the latest would have been recorded first
    have hall : e.allPoints = e.latePoints := by rw [Emitter.allPoints, hpoints, List.nil_append]
    obtain ⟨r, hr, hri⟩ := h.exists_point hi'
    obtain ⟨-, -, hrinstr⟩ := hri.leaves
    have hle : r.instruction ≤ p.instruction := by
      have hdesc := h.latePoints_descending
      rw [hall] at hr hhead
      obtain ⟨rest, hrest⟩ := List.head?_eq_some_iff.mp hhead
      rw [hrest] at hr hdesc
      rcases List.mem_cons.mp hr with rfl | hr
      · exact Nat.le_refl _
      · exact Nat.le_of_lt ((List.pairwise_cons.mp hdesc).1 r hr)
    have hmono := countAt_mono log (Nat.le_of_lt hlt)
    have hsame := h.begins.index_eq hi.1 hi'.1 (by omega)
    omega
  | cons q points =>
    have hq : e.debug.points.head? = some p := by
      rw [Emitter.allPoints, hpoints] at hhead
      rw [hpoints]
      exact hhead
    obtain ⟨k, j, kid, hk, hfirst⟩ := h.scope.first p hq
    obtain rfl := h.begins.index_eq hfirst.1 hi.1 (hk.trans hcount.symm)
    obtain rfl := hfirst.1.id_eq hi.1
    exact ⟨j, hfirst.2.1, hfirst.2.2.1, hfirst.2.2.2 i' id' hi'.1 hi'.2⟩

/-- If the capture that begins first is ended before all others, no other point is recorded
first. -/
theorem head_of_endsBefore (h : Tracked docs log e) (hhead : e.allPoints.head? = some q)
    (hi : Leaves log i id)
    (hbefore : ∀ i' id', Leaves log i' id' → i' ≠ i → EndsBefore log i id i' id') :
    q.instruction = countAt log i := by
  obtain ⟨i', hi'⟩ := h.anchored (List.mem_of_mem_head? hhead)
  obtain ⟨id', hid', hinstr⟩ := hi'.leaves
  refine Decidable.byContradiction fun hne => ?_
  have hne' : i' ≠ i := by
    rintro rfl
    exact hne hinstr
  obtain ⟨j, hij, hend, hun⟩ := hbefore i' id' hid' hne'
  -- its point was recorded, so the first point is not one of those recorded last
  obtain ⟨r, hr, -⟩ := h.mapped.kept i id hi.1 ⟨j, hij, hend⟩ hi.2
  have hq : e.debug.points.head? = some q := by
    cases hpoints : e.debug.points with
    | nil =>
      rw [hpoints] at hr
      cases hr
    | cons r' points =>
      rw [Emitter.allPoints, hpoints] at hhead
      exact hhead
  obtain ⟨k, j', kid, hk, hfirst⟩ := h.scope.first q hq
  obtain rfl := h.begins.index_eq hfirst.1 hid'.1 (hk.trans hinstr)
  obtain rfl := hfirst.1.id_eq hid'.1
  -- so either of the two ends would come before the other
  have hle : ¬ j' < j := fun hlt => hun j' hfirst.2.1 hlt hfirst.2.2.1
  have hge : ¬ j < j' := fun hlt => hfirst.2.2.2 i id hi.1 hi.2 j hij hlt hend
  obtain rfl : j = j' := by omega
  obtain rfl := hend.id_eq hfirst.2.2.1
  exact hne' (h.begins.unique _ _ _ hfirst.1 hi.1)

end Tracked

/-- A finished body has a scope exactly if it has a point. The scope starts at a point and has no
end. It starts at the first point exactly if, of the captures that leave one, the one that begins
first was ended before each of the others. -/
theorem scope_starts_first_iff {m m' : Module} {owner : BodyOwner} {e₀ : Emitter} {s : Emission}
    (hnew : m.emitter owner = .ok e₀) (hcourse : Course ⟨m, e₀⟩ log s)
    (hfinish : s.emitter.finish s.module = .ok () m') :
    ∃ body, m'.bodyAt e₀.row = some body ∧
      (body.debug.scope.isSome = true ↔ body.debug.points ≠ []) ∧
      ∀ scope, body.debug.scope = some scope →
        scope.stop = none ∧ scope.importScope = 0 ∧
        (∃ p ∈ body.debug.points, scope.start = p.instruction) ∧
        ((∃ p, body.debug.points.head? = some p ∧ scope.start = p.instruction) ↔
          ∀ i id, Leaves log i id → (∀ k kid, Leaves log k kid → i ≤ k) →
            ∀ i' id', Leaves log i' id' → i < i' → EndsBefore log i id i' id') := by
  obtain ⟨body, hbody, hinstalled, -⟩ := hcourse.finish_inv hnew hfinish
  have htracked := hcourse.tracked hnew
  have hmem : ∀ p, p ∈ body.debug.points ↔ p ∈ s.emitter.allPoints :=
    fun p => Tracked.mem_points hbody
  have hsorted := htracked.points_ascending hbody
  have hscope := htracked.scope_finishedBody hbody
  refine ⟨body, hinstalled, ?_, fun scope hsome => ?_⟩
  · rw [hscope, Option.isSome_map, List.isSome_head?]
    simp only [ne_eq, List.eq_nil_iff_forall_not_mem, hmem]
  rw [hscope] at hsome
  obtain ⟨q, hq, rfl⟩ := Option.map_eq_some_iff.mp hsome
  have hqmem := List.mem_of_mem_head? hq
  refine ⟨rfl, rfl, ⟨q, (hmem q).mpr hqmem, rfl⟩, ?_⟩
  cases hpoints : body.debug.points with
  | nil =>
    have hnone := (hmem q).mpr hqmem
    rw [hpoints] at hnone
    cases hnone
  | cons p points =>
    rw [hpoints] at hsorted
    have hmin : ∀ r ∈ s.emitter.allPoints, p.instruction ≤ r.instruction := by
      intro r hr
      rw [← hmem, hpoints] at hr
      rcases List.mem_cons.mp hr with rfl | hr
      · exact Nat.le_refl _
      · exact Nat.le_of_lt ((List.pairwise_cons.mp hsorted).1 r hr)
    constructor
    · rintro ⟨p', hp', hstart⟩
      cases hp'
      have hstart : q.instruction = p.instruction := hstart
      rw [← hstart] at hmin
      intro i id hi hleast i' id' hi' hlt
      exact htracked.endsBefore_of_head hq hmin hi hleast hi' hlt
    · intro hfirst
      have hpmem : p ∈ s.emitter.allPoints := by
        rw [← hmem, hpoints]
        exact List.mem_cons_self
      obtain ⟨i, hi⟩ := htracked.anchored hpmem
      obtain ⟨id, hid, hinstr⟩ := hi.leaves
      have hleast : ∀ k kid, Leaves log k kid → i ≤ k :=
        fun k kid hk => htracked.least_of_min hi hmin hk
      refine ⟨p, rfl, ?_⟩
      rw [hinstr]
      refine htracked.head_of_endsBefore hq hid fun i' id' hi' hne => ?_
      exact hfirst i id hid hleast i' id' hi' (Nat.lt_of_le_of_ne (hleast i' id' hi') hne.symm)

/-- A capture that is ended, and a second one that is not. -/
def successiveCaptures : List Exchange :=
  [⟨.beginCapture page ⟨1, 1⟩, .ok (.capture (some 0))⟩, ⟨.emit .nop .none, .ok .done⟩,
    ⟨.endCapture 0, .ok .done⟩, ⟨.beginCapture page ⟨2, 3⟩, .ok (.capture (some 1))⟩,
    ⟨.emit .ret .none, .ok .done⟩]

theorem captured_successiveCaptures (h : Captured successiveCaptures i id) :
    i = 0 ∧ id = 0 ∨ i = 3 ∧ id = 1 := by
  obtain ⟨file, position, hb⟩ := h
  have hlt : i < 5 := hb.lt
  unfold BeginAt successiveCaptures at hb
  match i, hlt with
  | 0, _ | 1, _ | 2, _ | 3, _ | 4, _ => simp_all

theorem scope_starts_first_of_successiveCaptures :
    ∃ s m' body, Course ⟨oneMethod, onlyEmitter⟩ successiveCaptures s ∧
      s.emitter.finish s.module = .ok () m' ∧ m'.bodyAt 0 = some body ∧
      ∃ scope p, body.debug.scope = some scope ∧ body.debug.points.head? = some p ∧
        scope.start = p.instruction := by
  have hcourse : ∃ s, Course ⟨oneMethod, onlyEmitter⟩ successiveCaptures s ∧
      (∃ m', s.emitter.finish s.module = .ok () m') ∧
      ∃ scope, s.emitter.debug.scope = some scope :=
    ⟨_, .granted (.granted (.granted (.granted (.granted .start rfl) rfl) rfl) rfl) rfl, ⟨_, rfl⟩,
      _, rfl⟩
  obtain ⟨s, hcourse, ⟨m', hfinish⟩, scope, hscope⟩ := hcourse
  obtain ⟨body, hbody, -, hfirst⟩ := scope_starts_first_iff emitter_oneMethod hcourse hfinish
  obtain ⟨body', hbody', hinstalled, -⟩ := hcourse.finish_inv emitter_oneMethod hfinish
  obtain rfl := Option.some.inj (hinstalled.symm.trans hbody)
  have hsome : body'.debug.scope = some scope := by
    rw [(Emitter.debug_finishedBody hbody').2, hscope]
    rfl
  obtain ⟨p, hp, hstart⟩ := (hfirst scope hsome).2.2.2.mpr fun i id hi _ i' id' hi' hlt => by
    obtain ⟨rfl, rfl⟩ | ⟨rfl, rfl⟩ := captured_successiveCaptures hi.1 <;>
      obtain ⟨rfl, rfl⟩ | ⟨rfl, rfl⟩ := captured_successiveCaptures hi'.1
    · omega
    · exact ⟨2, by decide, ⟨_, rfl, rfl⟩, fun k _ _ => by omega⟩
    · omega
    · omega
  exact ⟨s, m', body', hcourse, hfinish, hbody, scope, p, hsome, hp, hstart⟩

/-- The scope of the nested captures starts after their first point. -/
theorem scope_not_always_first :
    ∃ s m' body, Course ⟨oneMethod, onlyEmitter⟩ nestedCaptures s ∧
      s.emitter.finish s.module = .ok () m' ∧ m'.bodyAt 0 = some body ∧
      ∃ scope, body.debug.scope = some scope ∧
        ∃ p ∈ body.debug.points, p.instruction < scope.start := by
  obtain ⟨s, hcourse, ⟨m', hfinish⟩, hscope, p, hp, hinstr⟩ := course_nestedCaptures
  obtain ⟨body, hbody, hinstalled, -⟩ := hcourse.finish_inv emitter_oneMethod hfinish
  refine ⟨s, m', body, hcourse, hfinish, hinstalled, .openAt 1, ?_, p, ?_, ?_⟩
  · rw [(Emitter.debug_finishedBody hbody).2, hscope]
    rfl
  · exact (Tracked.mem_points hbody).mpr (List.mem_append_left _ hp)
  · rw [hinstr]
    exact Nat.zero_lt_one

end MarkupLowering
