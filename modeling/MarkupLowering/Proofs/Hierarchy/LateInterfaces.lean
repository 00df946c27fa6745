import MarkupLowering.Proofs.Hierarchy.Preorder

/-!
# MarkupLowering.Proofs.Hierarchy.LateInterfaces

**An interface that is added to a type is seen wherever the type is**, and changes nothing else.

Adding `i` to the list of `t` adds one step from `t` to `i`. What led somewhere leads there still
(`leadsTo_mono`), and what leads somewhere new goes to `t` first and from `i` on
(`leadsTo_addInterface`). Types see the list of `t` whose own lists lead to it, and types that
derive from such types (`Touches`). `addInterface_extends_assignable` is the main statement.
-/

namespace MarkupLowering

namespace Hierarchy

variable {h : Hierarchy} {t i u v target source : TypeRef}

/-! ### One more step -/

theorem mem_insertInterface {list : List TypeRef} (hv : v ∈ insertInterface i list) :
    v ∈ list ∨ v = i := by
  unfold insertInterface at hv
  split at hv
  · exact Or.inl hv
  · exact (List.mem_append.mp hv).imp_right List.mem_singleton.mp

theorem subset_insertInterface {list : List TypeRef} (hv : v ∈ list) :
    v ∈ insertInterface i list := by
  unfold insertInterface
  split
  · exact hv
  · exact List.mem_append_left _ hv

/-- An interface is left out only where an equal one is listed. -/
theorem exists_insertInterface (list : List TypeRef) :
    ∃ j ∈ insertInterface i list, (j == i) = true := by
  unfold insertInterface
  split
  · rename_i hany
    exact List.any_eq_true.mp hany
  · exact ⟨i, List.mem_append_right _ (List.mem_singleton_self i), BEq.rfl⟩

theorem interfaces_of_id (hid : u.id = t.id) : h.interfaces u = h.interfaces t := by
  rw [interfaces, interfaces, hid]

theorem Lists.mono (hlists : h.Lists u v) : (h.addInterface t i).Lists u v := by
  unfold Lists at hlists ⊢
  rw [interfaces_addInterface]
  split
  · rename_i hsame
    rw [interfaces_of_id hsame.1] at hlists
    exact subset_insertInterface hlists
  · exact hlists

theorem lists_addInterface (hlists : (h.addInterface t i).Lists u v) :
    h.Lists u v ∨ u.id = t.id ∧ v = i := by
  unfold Lists at hlists
  rw [interfaces_addInterface] at hlists
  split at hlists
  · rename_i hsame
    refine (mem_insertInterface hlists).imp (fun hv => ?_) fun hv => ⟨hsame.1, hv⟩
    rw [Lists, interfaces_of_id hsame.1]
    exact hv
  · exact Or.inl hlists

theorem exists_lists_addInterface (ht : t.id < h.lists.size) (hid : u.id = t.id) :
    ∃ j, (h.addInterface t i).Lists u j ∧ (j == i) = true := by
  obtain ⟨j, hj, hsame⟩ := exists_insertInterface (i := i) (h.interfaces t)
  refine ⟨j, ?_, hsame⟩
  rw [Lists, interfaces_addInterface, if_pos ⟨hid, ht⟩]
  exact hj

theorem leadsTo_mono (hlead : h.LeadsTo u v) : (h.addInterface t i).LeadsTo u v :=
  Relation.TransGen.mono (fun _ _ hlists => Lists.mono hlists) u v hlead

/-- Lists that have no cycle after the addition had none before. -/
theorem Acyclic.of_addInterface (hacyclic : (h.addInterface t i).Acyclic) : h.Acyclic :=
  fun u v huv => hacyclic u v (leadsTo_mono huv)

/-- The type has the list of `t`, or its lists lead to one that has. -/
def Meets (h : Hierarchy) (t u : TypeRef) : Prop :=
  ∃ v, Relation.ReflTransGen h.Lists u v ∧ v.id = t.id

/-- What leads somewhere new goes to `t` first and from `i` on, by lists as they were. -/
theorem leadsTo_addInterface (hlead : (h.addInterface t i).LeadsTo u v) :
    h.LeadsTo u v ∨ h.Meets t u ∧ Relation.ReflTransGen h.Lists i v := by
  induction hlead with
  | single hstep =>
    rcases lists_addInterface hstep with hold | ⟨hid, rfl⟩
    · exact Or.inl (.single hold)
    · exact Or.inr ⟨⟨u, .refl, hid⟩, .refl⟩
  | @tail m v _ hstep ih =>
    rcases lists_addInterface hstep with hold | ⟨hid, rfl⟩
    · exact ih.imp (·.tail hold) fun hnew => ⟨hnew.1, hnew.2.tail hold⟩
    · rcases ih with hlead | ⟨hmeets, -⟩
      · exact Or.inr ⟨⟨m, hlead.to_reflTransGen, hid⟩, .refl⟩
      · exact Or.inr ⟨hmeets, .refl⟩

theorem reaches_mono (hacyclic : (h.addInterface t i).Acyclic)
    (hreach : h.reaches u target = true) : (h.addInterface t i).reaches u target = true := by
  obtain ⟨v, hlead, hsame⟩ := (reaches_iff (hacyclic.of_addInterface.from u)).mp hreach
  exact (reaches_iff (hacyclic.from u)).mpr ⟨v, leadsTo_mono hlead, hsame⟩

/-- Types that meet `t` reach the interface that was added to it. -/
theorem reaches_added (ht : t.id < h.lists.size) (hacyclic : (h.addInterface t i).Acyclic)
    (hmeets : (h.addInterface t i).Meets t u) : (h.addInterface t i).reaches u i = true := by
  obtain ⟨v, hlead, hid⟩ := hmeets
  obtain ⟨j, hj, hsame⟩ := exists_lists_addInterface ht hid
  exact (reaches_iff (hacyclic.from u)).mpr ⟨j, .tail' hlead hj, hsame⟩

/-- What is reached only now is the interface that was added, or what that reaches. -/
theorem reaches_addInterface (hacyclic : (h.addInterface t i).Acyclic)
    (hreach : (h.addInterface t i).reaches u target = true) :
    h.reaches u target = true ∨
      h.Meets t u ∧ ((i == target) = true ∨ h.reaches i target = true) := by
  have hbefore := hacyclic.of_addInterface
  obtain ⟨v, hlead, hsame⟩ := (reaches_iff (hacyclic.from u)).mp hreach
  rcases leadsTo_addInterface hlead with hlead | ⟨hmeets, hrest⟩
  · exact Or.inl ((reaches_iff (hbefore.from u)).mpr ⟨v, hlead, hsame⟩)
  · refine Or.inr ⟨hmeets, ?_⟩
    rcases Relation.reflTransGen_iff_eq_or_transGen.mp hrest with rfl | hlead
    · exact Or.inl hsame
    · exact Or.inr ((reaches_iff (hbefore.from i)).mpr ⟨v, hlead, hsame⟩)

/-- The type or one that it derives from is `t`, through whichever handle, or has lists that lead
to `t`. -/
def Touches (h : Hierarchy) (t source : TypeRef) : Prop :=
  ∃ u ∈ source :: source.bases, h.Meets t u

end Hierarchy

/-! ### The main statement -/

open Hierarchy

/-- Adding an interface `i` to a type `t`, so that no interface list leads back to itself. What
could be assigned still can. From then on, every type that touches `t` can be assigned to `i`. And
what can be assigned only now touched `t` already, and is assigned to `i` or to an interface that
`i` reaches. -/
theorem addInterface_extends_assignable {h : Hierarchy} {t i : TypeRef}
    (ht : t.id < h.lists.size) (hacyclic : (h.addInterface t i).Acyclic) :
    (∀ target source, h.assignable target source = true →
      (h.addInterface t i).assignable target source = true) ∧
    (i.isInterface = true → ∀ source, (h.addInterface t i).Touches t source →
      (h.addInterface t i).assignable i source = true) ∧
    ∀ target source, h.assignable target source = false →
      (h.addInterface t i).assignable target source = true →
      target.isInterface = true ∧ ((i == target) = true ∨ h.reaches i target = true) ∧
        h.Touches t source := by
  refine ⟨fun target source hassign => ?_, fun hinterface source htouches => ?_,
    fun target source hbefore hafter => ?_⟩
  · rcases assignable_iff.mp hassign with heq | hroot | ⟨hinterface, hu, hreach⟩ |
      ⟨hother, hu, hsame⟩
    · exact assignable_iff.mpr (Or.inl heq)
    · exact assignable_iff.mpr (Or.inr (Or.inl hroot))
    · exact (Inherits.reached hinterface hu (reaches_mono hacyclic hreach)).assignable
    · exact (Inherits.derived hother hu hsame).assignable
  · obtain ⟨u, hu, hmeets⟩ := htouches
    exact (Inherits.reached hinterface hu (reaches_added ht hacyclic hmeets)).assignable
  · have hnot : h.assignable target source ≠ true := by
      rw [hbefore]
      exact Bool.false_ne_true
    rcases assignable_iff.mp hafter with heq | hroot | ⟨hinterface, hu, hreach⟩ |
      ⟨hother, hu, hsame⟩
    · exact absurd (assignable_iff.mpr (Or.inl heq)) hnot
    · exact absurd (assignable_iff.mpr (Or.inr (Or.inl hroot))) hnot
    · rcases reaches_addInterface hacyclic hreach with hreach | ⟨hmeets, hadded⟩
      · exact absurd (Inherits.reached hinterface hu hreach).assignable hnot
      · exact ⟨hinterface, hadded, _, hu, hmeets⟩
    · exact absurd (Inherits.derived hother hu hsame).assignable hnot

/-- Controls are widgets, as in `widgetHierarchy`, but widgets do not notify yet. -/
def silentHierarchy : Hierarchy := ⟨#[[], [], [], [], [widgetInterface], [], [], []]⟩

/-- Once widgets notify, lists of points do, since they derive from controls. -/
theorem addInterface_extends_assignable_pointList :
    widgetInterface.id < silentHierarchy.lists.size ∧
      (silentHierarchy.addInterface widgetInterface notifyInterface).Acyclic ∧
      silentHierarchy.assignable notifyInterface pointList = false ∧
      (silentHierarchy.addInterface widgetInterface notifyInterface).assignable notifyInterface
        pointList = true ∧
      silentHierarchy.Touches widgetInterface pointList := by
  have hrow : widgetInterface.id < silentHierarchy.lists.size := by decide
  have hacyclic : (silentHierarchy.addInterface widgetInterface notifyInterface).Acyclic :=
    acyclic_of_earlier (by decide +kernel)
  obtain ⟨-, hadded, honly⟩ := addInterface_extends_assignable hrow hacyclic
  have hbefore : silentHierarchy.assignable notifyInterface pointList = false := by
    decide +kernel
  have hlists : (silentHierarchy.addInterface widgetInterface notifyInterface).Lists controlClass
      widgetInterface := List.mem_singleton_self _
  have hafter := hadded rfl pointList
    ⟨controlClass, List.mem_cons_of_mem _ List.mem_cons_self, _, .single hlists, rfl⟩
  exact ⟨hrow, hacyclic, hbefore, hafter, (honly _ _ hbefore hafter).2.2⟩

end MarkupLowering
