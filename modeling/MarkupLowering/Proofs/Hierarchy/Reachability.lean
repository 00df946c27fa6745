import Mathlib.Data.List.Perm.Subperm
import Mathlib.Logic.Relation
import MarkupLowering.Hierarchy

/-!
# MarkupLowering.Proofs.Hierarchy.Reachability

**Which interfaces a type reaches**, and what decides whether a value may be assigned.

A search through interface lists goes only as deep as there are lists. This is deep enough: where
no list leads back to itself, a chain of lists passes through none twice, so that a deeper search
finds nothing more (`implementsWithin_iff_leadsTo`) and a type reaches exactly what its lists lead
to (`reaches_iff`). `assignable_iff` says what assignability comes to: equality, the root, or a walk
along bases and interface lists (`Inherits`).
-/

namespace MarkupLowering

/-! ### Bases -/

namespace TypeRef

theorem bases_eq : ∀ t : TypeRef,
    t.bases = match t.base with
      | none => []
      | some b => b :: b.bases
  | .named _ _ _ _ none _ _ => rfl
  | .named _ _ _ _ (some _) _ _ => rfl
  | .generic definition _ _ => bases_eq definition

theorem bases_of_none {t : TypeRef} (h : t.base = none) : t.bases = [] := by
  rw [bases_eq, h]

theorem bases_of_some {t b : TypeRef} (h : t.base = some b) : t.bases = b :: b.bases := by
  rw [bases_eq, h]

theorem mem_bases_iff {t c : TypeRef} :
    c ∈ t.bases ↔ ∃ b, t.base = some b ∧ (c = b ∨ c ∈ b.bases) := by
  cases hbase : t.base with
  | none => simp [bases_of_none hbase]
  | some b => simp [bases_of_some hbase]

/-- Induction along bases, which end somewhere. -/
theorem base_induction {P : TypeRef → Prop} (step : ∀ t, (∀ b, t.base = some b → P b) → P t)
    (t : TypeRef) : P t := by
  induction hbases : t.bases generalizing t with
  | nil =>
    refine step t fun b hb => ?_
    rw [bases_of_some hb] at hbases
    cases hbases
  | cons c cs ih =>
    refine step t fun b hb => ?_
    rw [bases_of_some hb] at hbases
    exact ih b (List.cons.inj hbases).2

/-- What a base derives from is derived from. -/
theorem mem_bases_trans {t b c : TypeRef} (hb : b ∈ t.bases) (hc : c ∈ b.bases) : c ∈ t.bases := by
  induction t using base_induction with
  | step t ih =>
    obtain ⟨d, hd, hbd⟩ := mem_bases_iff.mp hb
    refine mem_bases_iff.mpr ⟨d, hd, Or.inr ?_⟩
    rcases hbd with rfl | hbd
    · exact hc
    · exact ih d hd hbd

end TypeRef

namespace Hierarchy

variable {h : Hierarchy} {t u i target source : TypeRef}

/-! ### Where interface lists lead -/

/-- The type implements the interface itself. -/
def Lists (h : Hierarchy) (t i : TypeRef) : Prop := i ∈ h.interfaces t

/-- Interface lists lead from a type to another. -/
abbrev LeadsTo (h : Hierarchy) : TypeRef → TypeRef → Prop := Relation.TransGen h.Lists

/-- No list that the type leads to leads back to itself. -/
def AcyclicFrom (h : Hierarchy) (t : TypeRef) : Prop :=
  ∀ u, Relation.ReflTransGen h.Lists t u → ∀ v, h.LeadsTo u v → v.id ≠ u.id

/-- No list leads back to itself. -/
def Acyclic (h : Hierarchy) : Prop := ∀ t u, h.LeadsTo t u → u.id ≠ t.id

theorem Acyclic.from (hacyclic : h.Acyclic) (t : TypeRef) : h.AcyclicFrom t :=
  fun u _ v huv => hacyclic u v huv

theorem AcyclicFrom.of_lists (hacyclic : h.AcyclicFrom t) (hi : h.Lists t i) : h.AcyclicFrom i :=
  fun u hu => hacyclic u (.head hi hu)

theorem lists_bound (hi : h.Lists t i) : t.id < h.lists.size := by
  unfold Lists interfaces at hi
  rw [Array.getD_eq_getD_getElem?] at hi
  refine Nat.lt_of_not_le fun hle => ?_
  rw [Array.getElem?_eq_none hle] at hi
  cases hi

/-- Lists are acyclic where types implement only types that were made before them. -/
theorem acyclic_of_earlier
    (hearlier : ∀ id < h.lists.size, ∀ i ∈ h.lists.getD id [], i.id < id) : h.Acyclic := by
  have hless : ∀ t u, h.LeadsTo t u → u.id < t.id := by
    intro t u htu
    induction htu with
    | single hi => exact hearlier _ (lists_bound hi) _ hi
    | tail _ hi ih => exact Nat.lt_trans (hearlier _ (lists_bound hi) _ hi) ih
  exact fun t u htu => Nat.ne_of_lt (hless t u htu)

/-! ### Chains of lists -/

/-- A chain of lists that leads from a type to another, with the types whose lists it passes
through. -/
inductive Chain (h : Hierarchy) : TypeRef → List TypeRef → TypeRef → Prop
  | last {t i : TypeRef} : h.Lists t i → Chain h t [t] i
  | next {t i u : TypeRef} {path : List TypeRef} :
      h.Lists t i → Chain h i path u → Chain h t (t :: path) u

namespace Chain

variable {path : List TypeRef}

theorem leadsTo (hchain : h.Chain t path u) : h.LeadsTo t u := by
  induction hchain with
  | last hi => exact .single hi
  | next hi _ ih => exact .head hi ih

theorem of_leadsTo (hlead : h.LeadsTo t u) : ∃ path, h.Chain t path u := by
  induction hlead using Relation.TransGen.head_induction_on with
  | single hi => exact ⟨_, .last hi⟩
  | head hi _ ih =>
    obtain ⟨path, hpath⟩ := ih
    exact ⟨_, .next hi hpath⟩

/-- The types on a chain are its start and types that this leads to. -/
theorem mem (hchain : h.Chain t path u) {v : TypeRef} (hv : v ∈ path) : v = t ∨ h.LeadsTo t v := by
  induction hchain with
  | last _ => exact Or.inl (List.mem_singleton.mp hv)
  | next hi _ ih =>
    rcases List.mem_cons.mp hv with rfl | hv
    · exact Or.inl rfl
    · rcases ih hv with rfl | hlead
      · exact Or.inr (.single hi)
      · exact Or.inr (.head hi hlead)

/-- Without a cycle, no list is passed through twice. -/
theorem nodup (hchain : h.Chain t path u) (hacyclic : h.AcyclicFrom t) :
    (path.map TypeRef.id).Nodup := by
  induction hchain with
  | last _ => exact List.pairwise_singleton _ _
  | @next t i u path hi hrest ih =>
    refine List.nodup_cons.mpr ⟨fun hmem => ?_, ih (hacyclic.of_lists hi)⟩
    obtain ⟨v, hv, hid⟩ := List.mem_map.mp hmem
    have hlead : h.LeadsTo t v := by
      rcases hrest.mem hv with rfl | hlead
      · exact .single hi
      · exact .head hi hlead
    exact hacyclic t .refl v hlead hid

theorem bound (hchain : h.Chain t path u) {v : TypeRef} (hv : v ∈ path) :
    v.id < h.lists.size := by
  induction hchain with
  | last hi =>
    obtain rfl := List.mem_singleton.mp hv
    exact lists_bound hi
  | next hi _ ih =>
    rcases List.mem_cons.mp hv with rfl | hv
    · exact lists_bound hi
    · exact ih hv

/-- So there are at least as many lists as a chain is long. -/
theorem length_le (hchain : h.Chain t path u) (hacyclic : h.AcyclicFrom t) :
    path.length ≤ h.lists.size := by
  have hsub : path.map TypeRef.id ⊆ List.range h.lists.size := by
    intro n hn
    obtain ⟨v, hv, rfl⟩ := List.mem_map.mp hn
    exact List.mem_range.mpr (hchain.bound hv)
  have hlength := (List.subperm_of_subset (hchain.nodup hacyclic) hsub).length_le
  rwa [List.length_map, List.length_range] at hlength

end Chain

/-! ### The search -/

/-- What a search of limited depth finds. -/
theorem implementsWithin_iff {depth : Nat} :
    h.implementsWithin target depth t = true ↔
      ∃ path u, h.Chain t path u ∧ path.length ≤ depth ∧ (u == target) = true := by
  induction depth generalizing t with
  | zero =>
    refine iff_of_false (by simp [implementsWithin]) ?_
    rintro ⟨path, u, hchain, hlength, -⟩
    cases hchain <;> cases hlength
  | succ depth ih =>
    simp only [implementsWithin, List.any_eq_true, Bool.or_eq_true, ih]
    constructor
    · rintro ⟨i, hi, hsame | ⟨path, u, hchain, hlength, hsame⟩⟩
      · exact ⟨[t], i, .last hi, Nat.succ_le_succ (Nat.zero_le _), hsame⟩
      · exact ⟨t :: path, u, .next hi hchain, Nat.succ_le_succ hlength, hsame⟩
    · rintro ⟨path, u, hchain, hlength, hsame⟩
      cases hchain with
      | last hi => exact ⟨u, hi, Or.inl hsame⟩
      | next hi hrest => exact ⟨_, hi, Or.inr ⟨_, u, hrest, Nat.le_of_succ_le_succ hlength, hsame⟩⟩

/-- A search that goes at least as deep as there are lists finds all that the lists lead to. So its
depth does not matter, and it finds what a search without a limit would. -/
theorem implementsWithin_iff_leadsTo (hacyclic : h.AcyclicFrom t) {depth : Nat}
    (hdepth : h.lists.size ≤ depth) :
    h.implementsWithin target depth t = true ↔ ∃ u, h.LeadsTo t u ∧ (u == target) = true := by
  rw [implementsWithin_iff]
  constructor
  · rintro ⟨path, u, hchain, -, hsame⟩
    exact ⟨u, hchain.leadsTo, hsame⟩
  · rintro ⟨u, hlead, hsame⟩
    obtain ⟨path, hchain⟩ := Chain.of_leadsTo hlead
    exact ⟨path, u, hchain, Nat.le_trans (hchain.length_le hacyclic) hdepth, hsame⟩

/-- A type reaches what its lists lead to. -/
theorem reaches_iff (hacyclic : h.AcyclicFrom t) :
    h.reaches t target = true ↔ ∃ u, h.LeadsTo t u ∧ (u == target) = true :=
  implementsWithin_iff_leadsTo hacyclic (Nat.le_refl _)

/-! ### Assignability -/

/-- What the source is takes it to the target: an interface that it or a type it derives from
reaches, or a type of another kind that it derives from. -/
inductive Inherits (h : Hierarchy) (target source : TypeRef) : Prop
  | reached {u : TypeRef} : target.isInterface = true → u ∈ source :: source.bases →
      h.reaches u target = true → Inherits h target source
  | derived {u : TypeRef} : target.isInterface = false → u ∈ source.bases →
      (u == target) = true → Inherits h target source

/-- The ways in which a value can be assigned. -/
theorem assignable_iff : h.assignable target source = true ↔
    (target == source) = true ∨ target.isRoot = true ∨ h.Inherits target source := by
  have hinherits : h.Inherits target source ↔
      (if target.isInterface then (source :: source.bases).any (h.reaches · target)
        else source.bases.any (· == target)) = true := by
    constructor
    · rintro (⟨hinterface, hu, hreach⟩ | ⟨hother, hu, hsame⟩)
      · rw [hinterface, if_pos rfl]
        exact List.any_eq_true.mpr ⟨_, hu, hreach⟩
      · rw [hother, if_neg Bool.false_ne_true]
        exact List.any_eq_true.mpr ⟨_, hu, hsame⟩
    · split <;> rename_i hkind <;> intro hany <;> obtain ⟨u, hu, hwalk⟩ := List.any_eq_true.mp hany
      · exact .reached hkind hu hwalk
      · exact .derived (Bool.not_eq_true _ ▸ hkind) hu hwalk
  rw [assignable, Bool.or_eq_true, Bool.or_eq_true, or_assoc, hinherits]

theorem Inherits.assignable (hinherits : h.Inherits target source) :
    h.assignable target source = true := assignable_iff.mpr (Or.inr (Or.inr hinherits))

/-- A type that derives from nothing reaches interfaces through its own lists only. -/
theorem Inherits.of_no_base (hinherits : h.Inherits target source) (hbase : source.base = none) :
    target.isInterface = true ∧ h.reaches source target = true := by
  cases hinherits with
  | reached hinterface hu hreach =>
    rw [TypeRef.bases_of_none hbase, List.mem_singleton] at hu
    exact ⟨hinterface, hu ▸ hreach⟩
  | derived _ hu _ =>
    rw [TypeRef.bases_of_none hbase] at hu
    cases hu

end Hierarchy

end MarkupLowering
