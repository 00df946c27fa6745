import Mathlib.Data.List.TakeWhile
import MarkupLowering.Proofs.Module.Definitions

/-!
# MarkupLowering.Proofs.Module.SimpleNames

**Handles find their names again.** The row of a type keeps namespace and name as they were given. A
handle knows the full name only, and looks for the parts of it at the last `.` or `+` before the
first `<`.

* What a handle finds is plain: `plainName_simpleName` and `not_mem_namespaceName` hold of every
  type, so a row with other names cannot agree with its handle.
* `TypeRef.simpleName_generic` and `TypeRef.namespaceName_generic`: arguments do not count.
* `agrees_top_iff` and `agrees_nested_iff` say when the handle of a new type agrees with its row,
  and `handle_agrees_iff` says it of the types that builders accept.
-/

namespace MarkupLowering

namespace TypeRef

variable {p : Char → Bool} {c : Char} {l r : List Char}

/-! ### Taking names apart -/

theorem takeWhile_append_cons (hc : p c = false) (l r : List Char) :
    (l ++ c :: r).takeWhile p = l.takeWhile p := by
  induction l with
  | nil => simp [hc]
  | cons x l ih => by_cases hx : p x = true <;> simp [hx, ih]

/-- What comes after a `<` does not count. -/
theorem beforeArguments_append_cons (l r : List Char) :
    beforeArguments (l ++ '<' :: r) = beforeArguments l := takeWhile_append_cons rfl l r

theorem beforeArguments_append_of_mem (h : '<' ∈ l) (r : List Char) :
    beforeArguments (l ++ r) = beforeArguments l := by
  obtain ⟨before, after, rfl⟩ := List.append_of_mem h
  rw [List.append_assoc, List.cons_append, beforeArguments_append_cons, beforeArguments_append_cons]

theorem beforeArguments_eq_self (h : '<' ∉ l) : beforeArguments l = l := by
  refine List.takeWhile_eq_self_iff.mpr fun x hx => ?_
  simpa using fun heq : x = '<' => h (heq ▸ hx)

theorem not_mem_beforeArguments (l : List Char) : '<' ∉ beforeArguments l := by
  intro h
  simpa using List.mem_takeWhile_imp h

/-- The last part does not depend on what comes before a separator. -/
theorem afterLast_append_cons (hc : p c = true) (l r : List Char) :
    afterLast p (l ++ c :: r) = afterLast p r := by
  rw [afterLast, afterLast, List.reverse_append, List.reverse_cons, List.append_assoc,
    List.singleton_append, takeWhile_append_cons (by simp [hc])]

theorem afterLast_eq_self (h : ∀ x ∈ l, p x = false) : afterLast p l = l := by
  have hall : l.reverse.takeWhile (fun x => !p x) = l.reverse :=
    List.takeWhile_eq_self_iff.mpr fun x hx => by simp [h x (List.mem_reverse.mp hx)]
  rw [afterLast, hall, List.reverse_reverse]

theorem not_of_mem_afterLast (h : c ∈ afterLast p l) : p c = false := by
  simpa using List.mem_takeWhile_imp (List.mem_reverse.mp h)

theorem afterLast_subset (p : Char → Bool) (l : List Char) : afterLast p l ⊆ l := by
  intro x hx
  exact List.mem_reverse.mp ((List.takeWhile_prefix _).subset (List.mem_reverse.mp hx))

theorem beforeLast_append_cons (hc : p c = true) (hr : ∀ x ∈ r, p x = false) (l : List Char) :
    beforeLast p (l ++ c :: r) = l := by
  have hdrop : (l ++ c :: r).reverse.dropWhile (fun x => !p x) = c :: l.reverse := by
    rw [List.reverse_append, List.reverse_cons, List.append_assoc, List.dropWhile_append_of_pos]
    · simp [hc]
    · intro x hx
      simp [hr x (List.mem_reverse.mp hx)]
  rw [beforeLast, hdrop, List.drop_one, List.tail_cons, List.reverse_reverse]

theorem beforeLast_eq_nil (h : ∀ x ∈ l, p x = false) : beforeLast p l = [] := by
  have hdrop : l.reverse.dropWhile (fun x => !p x) = [] :=
    List.dropWhile_eq_nil_iff.mpr fun x hx => by simp [h x (List.mem_reverse.mp hx)]
  rw [beforeLast, hdrop]
  rfl

theorem beforeLast_subset (p : Char → Bool) (l : List Char) : beforeLast p l ⊆ l := by
  intro x hx
  have hdrop := List.drop_subset _ _ (List.mem_reverse.mp hx)
  exact List.mem_reverse.mp ((List.dropWhile_suffix _).subset hdrop)

end TypeRef

/-! ### What handles find -/

/-- A name that has none of the characters at which full names are taken apart. -/
def PlainName (name : String) : Prop := ∀ c ∈ name.toList, c ≠ '.' ∧ c ≠ '+' ∧ c ≠ '<'

instance (name : String) : Decidable (PlainName name) :=
  inferInstanceAs (Decidable (∀ c ∈ name.toList, c ≠ '.' ∧ c ≠ '+' ∧ c ≠ '<'))

namespace TypeRef

variable (t : TypeRef)

/-- Only plain names are found. -/
theorem plainName_simpleName : PlainName t.simpleName := by
  intro c hc
  rw [simpleName, String.toList_ofList] at hc
  have hseparator := not_of_mem_afterLast hc
  have hbefore := afterLast_subset _ _ hc
  refine ⟨?_, ?_, fun heq => not_mem_beforeArguments _ (heq ▸ hbefore)⟩ <;>
  · rintro rfl
    simp at hseparator

/-- No namespace that is found has a `<`. -/
theorem not_mem_namespaceName : '<' ∉ t.namespaceName.toList := by
  unfold namespaceName
  split
  · simp
  · rw [String.toList_ofList]
    exact fun h => not_mem_beforeArguments _ (beforeLast_subset _ _ h)

/-- The names of an instance are those of its definition, whatever the arguments. -/
theorem beforeArguments_generic (arguments : List TypeRef) (id : Nat) :
    beforeArguments (generic t arguments id).fullName.toList =
      beforeArguments t.fullName.toList := by
  rw [fullName, String.toList_append, String.toList_append, String.toList_append, List.append_assoc,
    List.append_assoc]
  exact beforeArguments_append_cons _ _

theorem simpleName_generic (arguments : List TypeRef) (id : Nat) :
    (generic t arguments id).simpleName = t.simpleName := by
  rw [simpleName, simpleName, beforeArguments_generic]

theorem namespaceName_generic (arguments : List TypeRef) (id : Nat) :
    (generic t arguments id).namespaceName = t.namespaceName := by
  rw [namespaceName, namespaceName, beforeArguments_generic, declaring]

end TypeRef

/-! ### Handles and rows -/

/-- The handle in the row finds the names that the row has. -/
structure TypeRow.Agrees (r : TypeRow) : Prop where
  name : r.handle.simpleName = r.name
  namespaceName : r.handle.namespaceName = r.namespaceName

namespace TypeRow

theorem agrees_header {r : TypeRow} : r.header.Agrees ↔ r.Agrees :=
  ⟨fun h => ⟨h.name, h.namespaceName⟩, fun h => ⟨h.name, h.namespaceName⟩⟩

/-- A handle finds the names of its row only where they are plain. -/
theorem Agrees.plainName {r : TypeRow} (h : r.Agrees) : PlainName r.name :=
  h.name ▸ r.handle.plainName_simpleName

theorem Agrees.not_mem_namespaceName {r : TypeRow} (h : r.Agrees) :
    '<' ∉ r.namespaceName.toList := h.namespaceName ▸ r.handle.not_mem_namespaceName

end TypeRow

namespace PlainName

variable {name : String} (h : PlainName name)

include h

theorem not_mem : '<' ∉ name.toList := fun hmem => (h _ hmem).2.2 rfl

theorem no_dot : ∀ c ∈ name.toList, (c == '.') = false := by
  intro c hc
  simpa using (h c hc).1

theorem no_separator : ∀ c ∈ name.toList, (c == '.' || c == '+') = false := by
  intro c hc
  simpa using ⟨(h c hc).1, (h c hc).2.1⟩

end PlainName

section NewTypes

open Construction TypeRef

variable (s : Construction) (namespaceName name : String) (base : Option TypeRef)
variable (attributes : TypeAttributes) (visibility : Visibility)

/-- The handle of a type that is nested in no other finds its names if they are plain. -/
theorem agrees_top_iff :
    (s.typeRow namespaceName name base attributes visibility none).Agrees ↔
      '<' ∉ namespaceName.toList ∧ PlainName name := by
  constructor
  · intro h
    exact ⟨h.not_mem_namespaceName, h.plainName⟩
  · rintro ⟨hnamespace, hplain⟩
    by_cases hempty : namespaceName = ""
    · have hfull : (s.typeRow namespaceName name base attributes visibility none).handle.fullName =
          name := by
        simp [typeRow, fullName, qualify, hempty]
      refine ⟨?_, ?_⟩
      · rw [simpleName, hfull, beforeArguments_eq_self hplain.not_mem,
          afterLast_eq_self hplain.no_separator, String.ofList_toList]
        rfl
      · rw [TypeRef.namespaceName, hfull, beforeArguments_eq_self hplain.not_mem,
          beforeLast_eq_nil hplain.no_dot]
        simp [typeRow, hempty]
    · have hfull : (s.typeRow namespaceName name base attributes visibility
          none).handle.fullName.toList = namespaceName.toList ++ '.' :: name.toList := by
        simp [typeRow, fullName, qualify, hempty]
      have hbefore : '<' ∉ namespaceName.toList ++ '.' :: name.toList := by
        simp [hnamespace, hplain.not_mem]
      refine ⟨?_, ?_⟩
      · rw [simpleName, hfull, beforeArguments_eq_self hbefore, afterLast_append_cons rfl,
          afterLast_eq_self hplain.no_separator, String.ofList_toList]
        rfl
      · rw [TypeRef.namespaceName, hfull, beforeArguments_eq_self hbefore,
          beforeLast_append_cons rfl hplain.no_dot, String.ofList_toList]
        rfl

/-- The handle of a nested type finds its name if it is plain. Behind a `<` it finds the name of the
type around it. -/
theorem agrees_nested_iff (outer : TypeBuilder) :
    (s.typeRow namespaceName name base attributes visibility (some outer)).Agrees ↔
      if '<' ∈ outer.type.fullName.toList then outer.type.simpleName = name
      else PlainName name := by
  have hfull : (s.typeRow namespaceName name base attributes visibility
      (some outer)).handle.fullName.toList = outer.type.fullName.toList ++ '+' :: name.toList := by
    simp [typeRow, fullName, qualify]
  have hnamespace : (s.typeRow namespaceName name base attributes visibility
      (some outer)).handle.namespaceName = "" := rfl
  by_cases hmem : '<' ∈ outer.type.fullName.toList
  · have hname : (s.typeRow namespaceName name base attributes visibility
        (some outer)).handle.simpleName = outer.type.simpleName := by
      rw [simpleName, simpleName, hfull, beforeArguments_append_of_mem hmem]
    rw [if_pos hmem, ← hname]
    exact ⟨TypeRow.Agrees.name, fun h => ⟨h, hnamespace⟩⟩
  · rw [if_neg hmem]
    refine ⟨TypeRow.Agrees.plainName, fun hplain => ⟨?_, hnamespace⟩⟩
    have hbefore : '<' ∉ outer.type.fullName.toList ++ '+' :: name.toList := by
      simp [hmem, hplain.not_mem]
    rw [simpleName, hfull, beforeArguments_eq_self hbefore, afterLast_append_cons rfl,
      afterLast_eq_self hplain.no_separator, String.ofList_toList]
    rfl

end NewTypes

/-! ### The main statement -/

/-- The row of a type that was accepted. -/
theorem Construction.exists_row {namespaceName name : String} {base : Option TypeRef}
    {attributes : TypeAttributes} {visibility : Visibility} {outer : Option TypeBuilder}
    {s s' : Construction} {b : TypeBuilder}
    (h : addType namespaceName name base attributes visibility outer s = .ok b s') :
    ∃ r, s'.module.types[b.row]? = some r ∧ r.handle = b.type ∧
      r.header = (s.typeRow namespaceName name base attributes visibility outer).header := by
  obtain ⟨rfl, rfl⟩ := addType_row h
  have hmap := Module.map_addType (g := TypeRow.header) (fun _ _ => rfl) s.module
    (s.typeRow namespaceName name base attributes visibility outer)
  have hget := congrArg (·[s.module.types.size]?) hmap
  simp only [Array.getElem?_map, Array.getElem?_push, Array.size_map, if_true] at hget
  obtain ⟨r, hr, hheader⟩ := Option.map_eq_some_iff.mp hget
  exact ⟨r, hr, (congrArg TypeRow.handle hheader :), hheader⟩

theorem Construction.addType_of_defineType {namespaceName name : String} {base : Option TypeRef}
    {attributes : TypeAttributes} {visibility : Visibility} {s s' : Construction} {b : TypeBuilder}
    (h : defineType namespaceName name base attributes visibility s = .ok b s') :
    addType namespaceName name base attributes visibility none s = .ok b s' := by
  unfold defineType at h
  split at h
  · cases h
  · exact h

/-- When handle and row agree on the names of a type. A type in a namespace has a handle that finds
name and namespace as they were given exactly when the name is plain and the namespace has no `<`. A
nested type, at any depth, has one that finds no namespace, and finds the name exactly when it is
plain and no `<` is in the names around it; behind a `<` the handle finds what the handle around it
does. An instance has the names of its definition in any case. -/
theorem handle_agrees_iff (s : Construction) :
    (∀ (namespaceName name : String) (base : Option TypeRef) (attributes : TypeAttributes)
        (visibility : Visibility) (s' : Construction) (b : TypeBuilder),
      Construction.defineType namespaceName name base attributes visibility s = .ok b s' →
      ∃ r, s'.module.types[b.row]? = some r ∧ r.handle = b.type ∧ r.name = name ∧
        r.namespaceName = namespaceName ∧
        (r.Agrees ↔ '<' ∉ namespaceName.toList ∧ PlainName name)) ∧
    (∀ (outer : TypeBuilder) (base : TypeRef) (name : String) (isPublic : Bool)
        (s' : Construction) (b : TypeBuilder),
      outer.defineNested base name isPublic s = .ok b s' →
      ∃ r, s'.module.types[b.row]? = some r ∧ r.handle = b.type ∧ r.name = name ∧
        r.namespaceName = "" ∧ r.handle.namespaceName = "" ∧
        (r.Agrees ↔ if '<' ∈ outer.type.fullName.toList then outer.type.simpleName = name
          else PlainName name)) ∧
    ∀ (h : Hierarchy) (t : TypeRef) (arguments : List TypeRef),
      (h.instantiate t arguments).1.simpleName = t.simpleName ∧
        (h.instantiate t arguments).1.namespaceName = t.namespaceName := by
  refine ⟨?_, ?_, fun h t arguments => ?_⟩
  · intro namespaceName name base attributes visibility s' b h
    have hadd := Construction.addType_of_defineType h
    obtain ⟨r, hr, hhandle, hheader⟩ := Construction.exists_row hadd
    refine ⟨r, hr, hhandle, (congrArg TypeRow.name hheader :),
      (congrArg TypeRow.namespaceName hheader :), ?_⟩
    rw [← TypeRow.agrees_header, hheader, TypeRow.agrees_header]
    exact agrees_top_iff s namespaceName name base attributes visibility
  · intro outer base name isPublic s' b h
    obtain ⟨r, hr, hhandle, hheader⟩ := Construction.exists_row h
    refine ⟨r, hr, hhandle, (congrArg TypeRow.name hheader :),
      (congrArg TypeRow.namespaceName hheader :),
      (congrArg (fun r => r.handle.namespaceName) hheader :), ?_⟩
    rw [← TypeRow.agrees_header, hheader, TypeRow.agrees_header]
    exact agrees_nested_iff s "" name (some base) .none _ outer
  · exact ⟨t.simpleName_generic _ _, t.namespaceName_generic _ _⟩

/-- A module without types. -/
def noTypes : Construction := ⟨.empty, default⟩

/-- A type of the name `List<T>`, and one nested in it that happens to have the name that is
found. -/
theorem handle_agrees_listOf :
    ∃ outer s inner s' r, Construction.defineType "App" "List<T>" none .none .publicType noTypes =
        .ok outer s ∧
      outer.defineNested default "List" true s = .ok inner s' ∧
      s'.module.types[inner.row]? = some r ∧ r.name = "List" ∧ r.Agrees := by
  obtain ⟨outer, s, houter⟩ : ∃ outer s,
      Construction.defineType "App" "List<T>" none .none .publicType noTypes = .ok outer s :=
    ⟨_, _, rfl⟩
  obtain ⟨inner, s', hinner⟩ : ∃ inner s',
      outer.defineNested default "List" true s = .ok inner s' := ⟨_, _, rfl⟩
  obtain ⟨r, hr, -, hname, -, -, hagrees⟩ := (handle_agrees_iff s).2.1 _ _ _ _ _ _ hinner
  refine ⟨outer, s, inner, s', r, houter, hinner, hr, hname, hagrees.mpr ?_⟩
  cases houter
  decide

/-- A compiler's name for a closure is kept by the row and not found by the handle. -/
theorem handle_not_always_agrees :
    ∃ b s' r, Construction.defineType "App" "<Bind>d__1" none .none .publicType noTypes =
        .ok b s' ∧
      s'.module.types[b.row]? = some r ∧ r.name = "<Bind>d__1" ∧ b.type.simpleName = "" ∧
      ¬ r.Agrees := by
  refine ⟨_, _, _, rfl, rfl, rfl, by decide, fun h => ?_⟩
  have hname := h.name
  revert hname
  decide

end MarkupLowering
