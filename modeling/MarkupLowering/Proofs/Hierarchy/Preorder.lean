import Mathlib.Data.Set.Operations
import MarkupLowering.Proofs.Hierarchy.Reachability

/-!
# MarkupLowering.Proofs.Hierarchy.Preorder

**Assignability is a preorder**, wherever equal types agree on what they are.

Equality of types is equality of identities, and two handles with one identity may still differ in
kind, bases and interfaces. In a `Consistent` family they do not. There a walk along bases or along
interface lists can be moved from a type to an equal one (`exists_base_of_beq`, `leadsTo_of_beq`),
which is how the two halves of a chained assignment are joined. The ways of assigning combine in
few ways, because interfaces derive from nothing and roots neither derive from nor implement
anything. `assignable_preorder` is the main statement.
-/

namespace MarkupLowering

namespace Hierarchy

/-- A family of types that is closed under bases and interfaces, and in which equal types agree on
kind, root, base and interfaces. Interfaces derive from nothing, roots neither derive from nor
implement anything, and no interface list leads back to itself. -/
structure Consistent (h : Hierarchy) (family : Set TypeRef) : Prop where
  base_mem : ∀ t ∈ family, ∀ b, t.base = some b → b ∈ family
  interface_mem : ∀ t ∈ family, ∀ i ∈ h.interfaces t, i ∈ family
  kind : ∀ t ∈ family, ∀ u ∈ family, (t == u) = true → t.kind = u.kind
  isRoot : ∀ t ∈ family, ∀ u ∈ family, (t == u) = true → t.isRoot = u.isRoot
  base : ∀ t ∈ family, ∀ u ∈ family, (t == u) = true →
    t.base.map TypeRef.identity = u.base.map TypeRef.identity
  interfaces : ∀ t ∈ family, ∀ u ∈ family, (t == u) = true →
    ∀ i ∈ h.interfaces t, ∃ j ∈ h.interfaces u, (j == i) = true
  interface_base : ∀ t ∈ family, t.isInterface = true → t.base = none
  root : ∀ t ∈ family, t.isRoot = true → t.base = none ∧ h.interfaces t = []
  acyclic : ∀ t ∈ family, ∀ u, h.LeadsTo t u → u.id ≠ t.id

namespace Consistent

variable {h : Hierarchy} {family : Set TypeRef} {t u v target source : TypeRef}

/-! ### Walks within the family -/

theorem bases_mem (hc : h.Consistent family) (ht : t ∈ family) {b : TypeRef} (hb : b ∈ t.bases) :
    b ∈ family := by
  induction t using TypeRef.base_induction with
  | step t ih =>
    obtain ⟨d, hd, hbd⟩ := TypeRef.mem_bases_iff.mp hb
    have hmem := hc.base_mem t ht d hd
    rcases hbd with rfl | hbd
    · exact hmem
    · exact ih d hd hmem hbd

theorem chain_mem (hc : h.Consistent family) (ht : t ∈ family) (hu : u ∈ t :: t.bases) :
    u ∈ family := by
  rcases List.mem_cons.mp hu with rfl | hu
  · exact ht
  · exact hc.bases_mem ht hu

theorem leadsTo_mem (hc : h.Consistent family) (ht : t ∈ family)
    (hlead : Relation.ReflTransGen h.Lists t u) : u ∈ family := by
  induction hlead with
  | refl => exact ht
  | tail _ hi ih => exact hc.interface_mem _ ih _ hi

theorem reaches_iff (hc : h.Consistent family) (ht : t ∈ family) :
    h.reaches t target = true ↔ ∃ u, h.LeadsTo t u ∧ (u == target) = true :=
  Hierarchy.reaches_iff fun u hu v huv => hc.acyclic u (hc.leadsTo_mem ht hu) v huv

/-! ### Equal types -/

/-- Equal types have equal bases. -/
theorem exists_base_of_beq (hc : h.Consistent family) (ht : t ∈ family) (hu : u ∈ family)
    (hsame : (t == u) = true) {b : TypeRef} (hb : b ∈ t.bases) :
    ∃ c ∈ u.bases, (c == b) = true := by
  induction t using TypeRef.base_induction generalizing u with
  | step t ih =>
    obtain ⟨d, hd, hbd⟩ := TypeRef.mem_bases_iff.mp hb
    have hmap := hc.base t ht u hu hsame
    rw [hd, Option.map_some, eq_comm, Option.map_eq_some_iff] at hmap
    obtain ⟨e, he, hde⟩ := hmap
    rcases hbd with rfl | hbd
    · exact ⟨e, TypeRef.mem_bases_iff.mpr ⟨e, he, Or.inl rfl⟩, TypeRef.beq_iff.mpr hde⟩
    · obtain ⟨c, hcb, hsame'⟩ := ih d hd (hc.base_mem t ht d hd) (hc.base_mem u hu e he)
        (TypeRef.beq_iff.mpr hde.symm) hbd
      exact ⟨c, TypeRef.mem_bases_iff.mpr ⟨e, he, Or.inr hcb⟩, hsame'⟩

/-- Interface lists of equal types lead to equal types. -/
theorem leadsTo_of_beq (hc : h.Consistent family) (ht : t ∈ family) (hu : u ∈ family)
    (hsame : (t == u) = true) (hlead : h.LeadsTo t v) :
    ∃ w, h.LeadsTo u w ∧ (w == v) = true := by
  induction hlead using Relation.TransGen.head_induction_on generalizing u with
  | single hi =>
    obtain ⟨j, hj, hji⟩ := hc.interfaces _ ht u hu hsame _ hi
    exact ⟨j, .single hj, hji⟩
  | head hi _ ih =>
    obtain ⟨j, hj, hji⟩ := hc.interfaces _ ht u hu hsame _ hi
    obtain ⟨w, hw, hwv⟩ := ih (hc.interface_mem _ ht _ hi) (hc.interface_mem u hu j hj)
      (BEq.symm hji)
    exact ⟨w, .head hj hw, hwv⟩

theorem reaches_of_beq (hc : h.Consistent family) (ht : t ∈ family) (hu : u ∈ family)
    (hsame : (t == u) = true) (hreach : h.reaches t target = true) :
    h.reaches u target = true := by
  obtain ⟨v, hlead, hv⟩ := (hc.reaches_iff ht).mp hreach
  obtain ⟨w, hlead', hw⟩ := hc.leadsTo_of_beq ht hu hsame hlead
  exact (hc.reaches_iff hu).mpr ⟨w, hlead', BEq.trans hw hv⟩

theorem reaches_trans (hc : h.Consistent family) (ht : t ∈ family) (hu : u ∈ family)
    (htu : h.reaches t u = true) (hreach : h.reaches u target = true) :
    h.reaches t target = true := by
  obtain ⟨v, hlead, hv⟩ := (hc.reaches_iff ht).mp htu
  have hvmem := hc.leadsTo_mem ht hlead.to_reflTransGen
  obtain ⟨w, hlead', hw⟩ :=
    (hc.reaches_iff hvmem).mp (hc.reaches_of_beq hu hvmem (BEq.symm hv) hreach)
  exact (hc.reaches_iff ht).mpr ⟨w, hlead.trans hlead', hw⟩

/-- What can be assigned to a type can be assigned to an equal one. -/
theorem assignable_of_beq (hc : h.Consistent family) (ht : target ∈ family) (hu : u ∈ family)
    (hsource : source ∈ family) (hsame : (target == u) = true)
    (hassign : h.assignable u source = true) : h.assignable target source = true := by
  have hinterface : target.isInterface = u.isInterface := by
    rw [TypeRef.isInterface, TypeRef.isInterface, hc.kind target ht u hu hsame]
  rcases assignable_iff.mp hassign with heq | hroot | ⟨hkind, hv, hreach⟩ | ⟨hkind, hb, hbu⟩
  · exact assignable_iff.mpr (Or.inl (BEq.trans hsame heq))
  · exact assignable_iff.mpr (Or.inr (Or.inl ((hc.isRoot target ht u hu hsame).trans hroot)))
  · obtain ⟨w, hlead, hw⟩ := (hc.reaches_iff (hc.chain_mem hsource hv)).mp hreach
    refine (Inherits.reached (hinterface.trans hkind) hv ?_).assignable
    exact (hc.reaches_iff (hc.chain_mem hsource hv)).mpr ⟨w, hlead, BEq.trans hw (BEq.symm hsame)⟩
  · exact (Inherits.derived (hinterface.trans hkind) hb (BEq.trans hbu (BEq.symm hsame))).assignable

/-! ### Chained assignments -/

/-- A type inherits what another does if it has equals of that and of its bases. -/
theorem inherits_of_equals (hc : h.Consistent family) (hu : u ∈ family) (hsource : source ∈ family)
    (hchain : ∀ x ∈ u :: u.bases, ∃ y ∈ source :: source.bases, (y == x) = true)
    (hbases : ∀ x ∈ u.bases, ∃ y ∈ source.bases, (y == x) = true)
    (hinherits : h.Inherits target u) : h.Inherits target source := by
  cases hinherits with
  | reached hinterface hx hreach =>
    obtain ⟨y, hy, hyx⟩ := hchain _ hx
    refine .reached hinterface hy ?_
    exact hc.reaches_of_beq (hc.chain_mem hu hx) (hc.chain_mem hsource hy) (BEq.symm hyx) hreach
  | derived hother hx hsame =>
    obtain ⟨y, hy, hyx⟩ := hbases _ hx
    exact .derived hother hy (BEq.trans hyx hsame)

/-- Equal types inherit the same. -/
theorem inherits_of_beq (hc : h.Consistent family) (hu : u ∈ family) (hsource : source ∈ family)
    (hsame : (u == source) = true) (hinherits : h.Inherits target u) :
    h.Inherits target source := by
  have hbases := fun x hx => hc.exists_base_of_beq hu hsource hsame (b := x) hx
  refine hc.inherits_of_equals hu hsource (fun x hx => ?_) hbases hinherits
  rcases List.mem_cons.mp hx with rfl | hx
  · exact ⟨source, List.mem_cons_self, BEq.symm hsame⟩
  · obtain ⟨y, hy, hyx⟩ := hbases x hx
    exact ⟨y, List.mem_cons_of_mem _ hy, hyx⟩

/-- What derives from a type inherits what that does. -/
theorem inherits_of_base (hc : h.Consistent family) (hu : u ∈ family) (hsource : source ∈ family)
    {b : TypeRef} (hb : b ∈ source.bases) (hbu : (b == u) = true)
    (hinherits : h.Inherits target u) : h.Inherits target source := by
  have hchain : ∀ x ∈ u :: u.bases, ∃ y ∈ source.bases, (y == x) = true := by
    intro x hx
    rcases List.mem_cons.mp hx with rfl | hx
    · exact ⟨b, hb, hbu⟩
    · obtain ⟨y, hy, hyx⟩ :=
        hc.exists_base_of_beq hu (hc.bases_mem hsource hb) (BEq.symm hbu) hx
      exact ⟨y, TypeRef.mem_bases_trans hb hy, hyx⟩
  refine hc.inherits_of_equals hu hsource (fun x hx => ?_)
    (fun x hx => hchain x (List.mem_cons_of_mem _ hx)) hinherits
  obtain ⟨y, hy, hyx⟩ := hchain x hx
  exact ⟨y, List.mem_cons_of_mem _ hy, hyx⟩

/-- Nothing is inherited from a root. -/
theorem not_inherits_of_root (hc : h.Consistent family) (hu : u ∈ family)
    (hroot : u.isRoot = true) : ¬ h.Inherits target u := by
  intro hinherits
  obtain ⟨hbase, hlists⟩ := hc.root u hu hroot
  obtain ⟨-, hreach⟩ := hinherits.of_no_base hbase
  obtain ⟨x, hlead, -⟩ := (hc.reaches_iff hu).mp hreach
  obtain ⟨i, hi, -⟩ := Relation.TransGen.head'_iff.mp hlead
  rw [Lists, hlists] at hi
  cases hi

theorem assignable_trans (hc : h.Consistent family) (ht : t ∈ family) (hu : u ∈ family)
    (hv : v ∈ family) (htu : h.assignable t u = true) (huv : h.assignable u v = true) :
    h.assignable t v = true := by
  rcases assignable_iff.mp htu with heq | hroot | hinherits
  · exact hc.assignable_of_beq ht hu hv heq huv
  · exact assignable_iff.mpr (Or.inr (Or.inl hroot))
  -- it remains to carry over what `t` is to `u` to whatever is assigned to `u`
  rcases assignable_iff.mp huv with heq | hroot | ⟨hinterface, hw, hreach⟩ | ⟨-, hb, hbu⟩
  · exact (hc.inherits_of_beq hu hv heq hinherits).assignable
  · exact absurd hinherits (hc.not_inherits_of_root hu hroot)
  · obtain ⟨htarget, hreach'⟩ := hinherits.of_no_base (hc.interface_base u hu hinterface)
    have hreaches := hc.reaches_trans (hc.chain_mem hv hw) hu hreach hreach'
    exact (Inherits.reached htarget hw hreaches).assignable
  · exact (hc.inherits_of_base hu hv hb hbu hinherits).assignable

end Consistent

end Hierarchy

/-! ### The main statement -/

open Hierarchy

/-- In a consistent family of types, classes, value types, interfaces, generic instances and roots
alike, every type can be assigned to itself, and assignments can be chained. -/
theorem assignable_preorder {h : Hierarchy} {family : Set TypeRef} (hc : h.Consistent family) :
    (∀ t ∈ family, h.assignable t t = true) ∧
      ∀ t ∈ family, ∀ u ∈ family, ∀ v ∈ family,
        h.assignable t u = true → h.assignable u v = true → h.assignable t v = true :=
  ⟨fun t _ => h.assignable_self t, fun _ ht _ hu _ hv => hc.assignable_trans ht hu hv⟩

/-- A type of a library. -/
abbrev libraryHandle (name : String) (kind : TypeKind) (base : Option TypeRef) (id : Nat) :
    TypeRef := .named (.ofString name) kind (.assembly "Lib") false base none id

abbrev objectRoot : TypeRef :=
  .named (.ofString "Object") .classType (.assembly "System") true none none 0
abbrev notifyInterface : TypeRef := libraryHandle "INotify" .interfaceType none 1
abbrev widgetInterface : TypeRef := libraryHandle "IWidget" .interfaceType none 2
/-- The same interface through another handle. -/
abbrev sameInterface : TypeRef := libraryHandle "IWidget" .interfaceType none 3
abbrev controlClass : TypeRef := libraryHandle "Control" .classType (some objectRoot) 4
abbrev pointStruct : TypeRef := libraryHandle "Point" .valueType (some objectRoot) 5
/-- A generic kind of control, of points. -/
abbrev pointList : TypeRef :=
  .generic (libraryHandle "List" .classType (some controlClass) 6) [pointStruct] 7

def widgetTypes : List TypeRef :=
  [objectRoot, notifyInterface, widgetInterface, sameInterface, controlClass, pointStruct,
    pointList]

/-- Widgets notify, and so do points. Controls are widgets. -/
def widgetHierarchy : Hierarchy :=
  ⟨#[[], [], [notifyInterface], [notifyInterface], [sameInterface], [notifyInterface], [], []]⟩

theorem consistent_widgetTypes : widgetHierarchy.Consistent {t | t ∈ widgetTypes} where
  base_mem := by simp [widgetTypes, TypeRef.base]
  interface_mem := by simp [widgetTypes, Hierarchy.interfaces, widgetHierarchy, TypeRef.id]
  kind :=
    have hkind : ∀ t ∈ widgetTypes, ∀ u ∈ widgetTypes, (t == u) = true → t.kind = u.kind := by
      decide +kernel
    hkind
  isRoot :=
    have hroot : ∀ t ∈ widgetTypes, ∀ u ∈ widgetTypes, (t == u) = true → t.isRoot = u.isRoot := by
      decide +kernel
    hroot
  base :=
    have hbase : ∀ t ∈ widgetTypes, ∀ u ∈ widgetTypes, (t == u) = true →
        t.base.map TypeRef.identity = u.base.map TypeRef.identity := by
      decide +kernel
    hbase
  interfaces :=
    have hinterfaces : ∀ t ∈ widgetTypes, ∀ u ∈ widgetTypes, (t == u) = true →
        ∀ i ∈ widgetHierarchy.interfaces t, ∃ j ∈ widgetHierarchy.interfaces u,
          (j == i) = true := by
      decide +kernel
    hinterfaces
  interface_base := by simp [widgetTypes, TypeRef.isInterface, TypeRef.kind, TypeRef.base]
  root := by
    simp [widgetTypes, TypeRef.isRoot, TypeRef.base, Hierarchy.interfaces, widgetHierarchy,
      TypeRef.id]
  acyclic t _ := acyclic_of_earlier (by decide +kernel) t

/-- A list of points is a control, a control is a widget under either handle, and widgets
notify. -/
theorem assignable_preorder_pointList :
    widgetHierarchy.Consistent {t | t ∈ widgetTypes} ∧
      widgetHierarchy.assignable notifyInterface widgetInterface = true ∧
      widgetHierarchy.assignable widgetInterface pointList = true ∧
      widgetHierarchy.assignable notifyInterface pointList = true := by
  obtain ⟨-, htrans⟩ := assignable_preorder consistent_widgetTypes
  have hnotify : widgetHierarchy.assignable notifyInterface widgetInterface = true := by
    decide +kernel
  have hwidget : widgetHierarchy.assignable widgetInterface pointList = true := by
    decide +kernel
  have hmem : ∀ i (hi : i < widgetTypes.length), widgetTypes[i] ∈ widgetTypes :=
    fun i hi => List.getElem_mem hi
  exact ⟨consistent_widgetTypes, hnotify, hwidget,
    htrans _ (hmem 1 (by decide)) _ (hmem 2 (by decide)) _ (hmem 6 (by decide)) hnotify hwidget⟩

end MarkupLowering
