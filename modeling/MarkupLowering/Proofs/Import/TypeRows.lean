import Mathlib.Logic.Relation
import MarkupLowering.Proofs.Import.Rows

/-!
# MarkupLowering.Proofs.Import.TypeRows

**When types share a row, and when they should but do not.** A type is looked up before it is
imported, but an instance takes its row only after its definition and its arguments have taken
theirs. If one of these has the identity of the instance, the instance takes a second row for that
identity. This is the only way to get two rows: there is one row for each identity exactly if no
row is built, at any depth, from a row of its own identity (`typeIdentities_nodup_iff`).

An instance without arguments has the identity of its definition.
-/

namespace MarkupLowering

/-! ### What types are built from -/

namespace TypeRef

mutual

/-- The type and all types it is built from. -/
def components : TypeRef → List TypeRef
  | .named name kind origin isRoot base declaring id =>
    [.named name kind origin isRoot base declaring id]
  | .generic definition arguments id =>
    .generic definition arguments id :: (definition.components ++ componentsAll arguments)

/-- The types of a list and all types they are built from. -/
def componentsAll : List TypeRef → List TypeRef
  | [] => []
  | t :: ts => t.components ++ componentsAll ts

end

/-- The types that a type is built from. -/
def inner : TypeRef → List TypeRef
  | .named .. => []
  | .generic definition arguments _ => definition.components ++ componentsAll arguments

theorem mem_components_self (t : TypeRef) : t ∈ t.components := by
  cases t <;> simp [components]

theorem mem_componentsAll {c : TypeRef} {ts : List TypeRef} :
    c ∈ componentsAll ts ↔ ∃ t ∈ ts, c ∈ t.components := by
  induction ts with
  | nil => simp [componentsAll]
  | cons t ts ih => simp [componentsAll, ih]

theorem inner_subset_components {definition : TypeRef} {arguments : List TypeRef} {id : Nat}
    {c : TypeRef} (h : c ∈ (TypeRef.generic definition arguments id).inner) :
    c ∈ (TypeRef.generic definition arguments id).components := by
  rw [components]
  exact List.mem_cons_of_mem _ h

end TypeRef

/-- No instance within the type has the identity of a type it is built from, apart from
definitions of module `unit`, which take no rows. -/
def TypeRef.Separate (unit : Nat) (t : TypeRef) : Prop :=
  ∀ g ∈ t.components, ∀ c ∈ g.inner, ImportTables.ownRow? unit c = none → c.identity ≠ g.identity

theorem TypeRef.Separate.of_subset {unit : Nat} {t t' : TypeRef} (h : t.Separate unit)
    (hsub : ∀ c ∈ t'.components, c ∈ t.components) : t'.Separate unit :=
  fun g hg c hc => h g (hsub g hg) c hc

/-! ### One row for each identity -/

namespace ImportTables

variable {t t' : ImportTables}

/-- The identities of the rows of types. -/
def typeIdentities (t : ImportTables) : List Identity :=
  t.typeRefs.toList.map TypeRefRow.identity ++ t.typeSpecs.toList.map TypeSpecRow.identity

/-- Types of one identity have one row. -/
def OneToken (t : ImportTables) : Prop :=
  ∀ identity a b, t.RowOf (.type identity) a → t.RowOf (.type identity) b → a = b

/-- Told as a property of the listed identities, where both tables of types count as one list. -/
theorem oneToken_iff_nodup : t.OneToken ↔ t.typeIdentities.Nodup := by
  rw [typeIdentities, List.nodup_append, nodup_map_iff, nodup_map_iff]
  constructor
  · intro h
    refine ⟨fun i j a b hi hj hab => ?_, fun i j a b hi hj hab => ?_, ?_⟩
    · have hb : t.RowOf (.type a.identity) (.typeRef j) := hab ▸ .typeRef hj
      cases h _ _ _ (.typeRef hi) hb
      rfl
    · have hb : t.RowOf (.type a.identity) (.typeSpec j) := hab ▸ .typeSpec hj
      cases h _ _ _ (.typeSpec hi) hb
      rfl
    · intro x hx y hy hxy
      obtain ⟨a, ha, rfl⟩ := List.mem_map.mp hx
      obtain ⟨b, hb, rfl⟩ := List.mem_map.mp hy
      obtain ⟨i, hi⟩ := Array.mem_iff_getElem?.mp (Array.mem_toList_iff.mp ha)
      obtain ⟨j, hj⟩ := Array.mem_iff_getElem?.mp (Array.mem_toList_iff.mp hb)
      have hb : t.RowOf (.type a.identity) (.typeSpec j) := hxy ▸ .typeSpec hj
      cases h _ _ _ (.typeRef hi) hb
  · rintro ⟨hrefs, hspecs, hapart⟩ identity a b ha hb
    have hmixed : ∀ (i j : Nat) (r : TypeRefRow) (s : TypeSpecRow), t.typeRefs[i]? = some r →
        t.typeSpecs[j]? = some s → r.identity ≠ s.identity := by
      intro i j r s hi hj
      refine hapart _ (List.mem_map_of_mem ?_) _ (List.mem_map_of_mem ?_)
      · exact Array.mem_toList_iff.mpr (Array.mem_of_getElem? hi)
      · exact Array.mem_toList_iff.mpr (Array.mem_of_getElem? hj)
    rcases ha.type_inv with ⟨i, r, rfl, hi, hr⟩ | ⟨i, r, rfl, hi, hr⟩
    · rcases hb.type_inv with ⟨j, s, rfl, hj, hs⟩ | ⟨j, s, rfl, hj, hs⟩
      · rw [hrefs i j r s hi hj (hr.trans hs.symm)]
      · exact absurd (hr.trans hs.symm) (hmixed i j r s hi hj)
    · rcases hb.type_inv with ⟨j, s, rfl, hj, hs⟩ | ⟨j, s, rfl, hj, hs⟩
      · exact absurd (hs.trans hr.symm) (hmixed j i s r hj hi)
      · rw [hspecs i j r s hi hj (hr.trans hs.symm)]

/-- A first row for an identity leaves one row for each. -/
theorem OneToken.add {identity : Identity} {add : ImportM Token} (h : OneToken t)
    (ht : Indexed t) (honly : AddsOnly (.type identity) add)
    (hnone : t.find? (.type identity) = none) : OneToken (add t).2 := by
  have hnew : ∀ token, ¬ t.RowOf (.type identity) token := fun token hrow =>
    ht.bound _ token hrow hnone
  intro identity' a b ha hb
  rcases honly t _ a ha with ha | ⟨hkey, rfl⟩
  · rcases honly t _ b hb with hb | ⟨hkey, rfl⟩
    · exact h identity' a b ha hb
    · cases hkey
      exact absurd ha (hnew a)
  · rcases honly t _ b hb with hb | ⟨-, rfl⟩
    · cases hkey
      exact absurd hb (hnew b)
    · rfl

/-! ### Rows within rows -/

/-- The row behind `a` holds the token `b`. -/
def Part (t : ImportTables) (a b : Token) : Prop :=
  ∃ k row, a = .typeSpec k ∧ t.typeSpecs[k]? = some row ∧ b ∈ row.parts

/-- No row is built from a row of its own identity. -/
def SelfFree (t : ImportTables) : Prop :=
  ∀ identity a b, Relation.TransGen (Part t) a b → t.RowOf (.type identity) a →
    ¬ t.RowOf (.type identity) b

theorem Part.mono {a b : Token} (h : Part t a b) (hrows : KeepsRows t t') : Part t' a b := by
  obtain ⟨k, row, rfl, hk, hb⟩ := h
  exact ⟨k, row, rfl, hrows.typeSpecs k row hk, hb⟩

theorem SelfFree.anti (h : SelfFree t') (hrows : KeepsRows t t') : SelfFree t := by
  intro identity a b hab ha hb
  have hab' := Relation.TransGen.mono (fun _ _ hp => Part.mono hp hrows) a b hab
  exact h identity a b hab' (ha.mono hrows) (hb.mono hrows)

/-- What a row of an instance is built from comes before it. -/
theorem typeBelow_of_transGen (ht : Linked t) {k : Nat} {b : Token}
    (h : Relation.TransGen (Part t) (.typeSpec k) b) : t.TypeBelow k b := by
  induction h with
  | single hp =>
    obtain ⟨_, row, heq, hk, hb⟩ := hp
    cases heq
    exact ht.specs _ row hk _ hb
  | tail _ hp ih =>
    obtain ⟨j, row, rfl, hj, hb⟩ := hp
    exact (ht.specs j row hj _ hb).mono (Nat.le_refl _) (Nat.le_of_lt ih)

theorem OneToken.selfFree (h : OneToken t) (ht : Linked t) : SelfFree t := by
  intro identity a b hab ha hb
  obtain ⟨k, rfl⟩ : ∃ k, a = .typeSpec k := by
    obtain ⟨c, hac, -⟩ := Relation.TransGen.head'_iff.mp hab
    obtain ⟨k, _, rfl, -⟩ := hac
    exact ⟨k, rfl⟩
  cases h identity _ _ ha hb
  exact Nat.lt_irrefl k (typeBelow_of_transGen ht hab)

/-! ### What an import binds -/

/-- The row behind `a`, or one that it is built from, is for the identity. -/
def Reaches (t : ImportTables) (a : Token) (identity : Identity) : Prop :=
  ∃ b, Relation.ReflTransGen (Part t) a b ∧ t.RowOf (.type identity) b

theorem Reaches.mono {a : Token} {identity : Identity} (h : Reaches t a identity)
    (hrows : KeepsRows t t') : Reaches t' a identity := by
  obtain ⟨b, hab, hb⟩ := h
  exact ⟨b, Relation.ReflTransGen.mono (fun _ _ hp => Part.mono hp hrows) a b hab, hb.mono hrows⟩

/-- One of the types, not a definition of module `unit`, has the identity. -/
def Foreign (unit : Nat) (types : List TypeRef) (identity : Identity) : Prop :=
  ∃ c ∈ types, ownRow? unit c = none ∧ c.identity = identity

theorem ownRow?_of_token? {unit : Nat} {type : TypeRef} (h : t.token? unit type = none) :
    ownRow? unit type = none ∧ t.find? (.type type.identity) = none := by
  unfold token? at h
  split at h
  · cases h
  · rename_i hown
    exact ⟨hown, h⟩

/-- What got its first token between `t` and `t'` is explained: it is one of the types, and one of
the tokens leads to its row. -/
def Explained (unit : Nat) (types : List TypeRef) (tokens : List Token) (t t' : ImportTables) :
    Prop :=
  ∀ identity, t.find? (.type identity) = none → t'.find? (.type identity) ≠ none →
    Foreign unit types identity ∧ ∃ a ∈ tokens, Reaches t' a identity

theorem Explained.refl (unit : Nat) (types : List TypeRef) (tokens : List Token)
    (t : ImportTables) : Explained unit types tokens t t :=
  fun _ hnone hsome => absurd hnone hsome

theorem Explained.append {unit : Nat} {types types' : List TypeRef} {tokens tokens' : List Token}
    {t t₁ t₂ : ImportTables} (h₁ : Explained unit types tokens t t₁)
    (h₂ : Explained unit types' tokens' t₁ t₂) (hrows : KeepsRows t₁ t₂) :
    Explained unit (types ++ types') (tokens ++ tokens') t t₂ := by
  intro identity hnone hsome
  by_cases hmid : t₁.find? (.type identity) = none
  · obtain ⟨⟨c, hc, hown, hid⟩, a, ha, hreach⟩ := h₂ identity hmid hsome
    exact ⟨⟨c, List.mem_append_right _ hc, hown, hid⟩, a, List.mem_append_right _ ha, hreach⟩
  · obtain ⟨⟨c, hc, hown, hid⟩, a, ha, hreach⟩ := h₁ identity hnone hmid
    exact ⟨⟨c, List.mem_append_left _ hc, hown, hid⟩, a, List.mem_append_left _ ha,
      hreach.mono hrows⟩

/-- A row leads to what the tokens in it lead to. -/
theorem reaches_addTypeSpec {t : ImportTables} (row : TypeSpecRow) {a : Token}
    {identity : Identity} (ha : a ∈ row.parts) (h : Reaches t a identity) :
    ∃ b, Relation.TransGen (Part (addTypeSpec row t).2) (addTypeSpec row t).1 b ∧
      RowOf (addTypeSpec row t).2 (.type identity) b := by
  obtain ⟨b, hab, hb⟩ := h.mono ((adds_typeSpec row).rows t)
  have hpart : Part (addTypeSpec row t).2 (addTypeSpec row t).1 a :=
    ⟨_, row, rfl, Array.getElem?_push_size, ha⟩
  exact ⟨b, .head' hpart hab, hb⟩

/-- An identity that gets its first token while types are imported belongs to one of them or to a
type that one of them is built from, and the tokens that are returned lead to its row. -/
theorem importType_explained (unit : Nat) :
    (∀ type t, Sound t → Explained unit type.components [(importType unit type t).1] t
      (importType unit type t).2) ∧
    ∀ types t, Sound t → Explained unit (TypeRef.componentsAll types) (importTypes unit types t).1 t
      (importTypes unit types t).2 := by
  refine importType_induct unit ?known ?ref ?spec ?nil ?cons
  case known =>
    intro type token t _ heq _
    rw [heq]
    exact .refl _ _ _ _
  case ref =>
    intro type row t htoken _ hrow heq _ identity hnone hsome
    rw [heq] at hsome ⊢
    rw [(adds_typeRef row).find?] at hsome
    split at hsome
    · rename_i hkey
      cases hkey
      exact ⟨⟨type, type.mem_components_self, (ownRow?_of_token? htoken).1, hrow.symm⟩,
        _, List.mem_singleton_self _, _, .refl, (adds_typeRef row).row t⟩
    · exact absurd hnone hsome
  case spec =>
    intro definition arguments id t htoken heq ihd iha h identity hnone hsome
    have h₁ := sound_importType unit definition h
    obtain ⟨-, hext₂⟩ := grows_importTypes unit arguments _ h₁.keyed
    have hparts := (ihd h).append (iha h₁) hext₂.toKeepsRows
    rw [heq] at hsome ⊢
    rw [(adds_typeSpec _).find?] at hsome
    split at hsome
    · rename_i hkey
      cases hkey
      exact ⟨⟨_, TypeRef.mem_components_self _, (ownRow?_of_token? htoken).1, rfl⟩,
        _, List.mem_singleton_self _, _, .refl, (adds_typeSpec _).row _⟩
    · obtain ⟨⟨c, hc, hown, hid⟩, a, ha, hreach⟩ := hparts identity hnone hsome
      obtain ⟨b, hb, hrow⟩ := reaches_addTypeSpec
        ⟨_, _, (TypeRef.generic definition arguments id).identity⟩ ha hreach
      exact ⟨⟨c, TypeRef.inner_subset_components hc, hown, hid⟩, _, List.mem_singleton_self _, b,
        hb.to_reflTransGen, hrow⟩
  case nil => exact fun t _ => .refl _ _ _ _
  case cons =>
    intro type types t iht ihts h
    have h₁ := sound_importType unit type h
    obtain ⟨-, hext⟩ := grows_importTypes unit types _ h₁.keyed
    exact (iht h).append (ihts h₁) hext.toKeepsRows

/-! ### One row for each identity, import by import -/

/-- An instance takes the first row for its identity if it is apart from what it is built from, in
the tables or by itself. -/
theorem find?_parts_eq_none {unit : Nat} {definition : TypeRef} {arguments : List TypeRef}
    {id : Nat} {t : ImportTables} (h : Sound t)
    (htoken : t.token? unit (.generic definition arguments id) = none)
    (heq : importType unit (.generic definition arguments id) t =
      addTypeSpec ⟨(importType unit definition t).1,
        (importTypes unit arguments (importType unit definition t).2).1,
        (TypeRef.generic definition arguments id).identity⟩
        (importTypes unit arguments (importType unit definition t).2).2)
    (hapart : SelfFree (importType unit (.generic definition arguments id) t).2 ∨
      (TypeRef.generic definition arguments id).Separate unit) :
    (importTypes unit arguments (importType unit definition t).2).2.find?
      (.type (TypeRef.generic definition arguments id).identity) = none := by
  by_contra hbound
  have h₁ := sound_importType unit definition h
  obtain ⟨-, hext₂⟩ := grows_importTypes unit arguments _ h₁.keyed
  have hparts := ((importType_explained unit).1 definition t h).append
    ((importType_explained unit).2 arguments _ h₁) hext₂.toKeepsRows
  obtain ⟨⟨c, hc, hown, hid⟩, a, ha, hreach⟩ := hparts _ (ownRow?_of_token? htoken).2 hbound
  rcases hapart with hfree | hsep
  · rw [heq] at hfree
    obtain ⟨b, hb, hrow⟩ := reaches_addTypeSpec
      ⟨_, _, (TypeRef.generic definition arguments id).identity⟩ ha hreach
    exact hfree _ _ b hb ((adds_typeSpec _).row _) hrow
  · exact hsep _ (TypeRef.mem_components_self _) c hc hown hid

/-- Importing adds a second row for an identity only where an instance has the identity of one of
its own parts. `SelfFree` excludes that by looking at the rows afterwards, `Separate` by looking at
the type; both are carried along, since either will do. -/
theorem importType_oneToken (unit : Nat) :
    (∀ type t, Sound t → OneToken t →
      SelfFree (importType unit type t).2 ∨ type.Separate unit →
      OneToken (importType unit type t).2) ∧
    ∀ types t, Sound t → OneToken t →
      SelfFree (importTypes unit types t).2 ∨ (∀ type ∈ types, type.Separate unit) →
      OneToken (importTypes unit types t).2 := by
  refine importType_induct unit ?known ?ref ?spec ?nil ?cons
  case known =>
    intro type token t _ heq _ hone _
    rw [heq]
    exact hone
  case ref =>
    intro type row t htoken _ hrow heq h hone _
    rw [heq]
    refine hone.add h.toIndexed (addsOnly_typeRef row) ?_
    rw [hrow]
    exact (ownRow?_of_token? htoken).2
  case spec =>
    intro definition arguments id t htoken heq ihd iha h hone hapart
    have h₁ := sound_importType unit definition h
    have h₂ := sound_importTypes unit arguments h₁
    have hnone := find?_parts_eq_none h htoken heq hapart
    obtain ⟨-, hext₂⟩ := grows_importTypes unit arguments _ h₁.keyed
    -- what is within the instance is apart as well
    rw [heq] at hapart ⊢
    have hone₂ := iha h₁ (ihd h hone ?_) ?_
    · exact hone₂.add h₂.toIndexed (addsOnly_typeSpec _) hnone
    · refine hapart.imp (fun hfree => ?_) fun hsep => hsep.of_subset fun c hc => ?_
      · exact (hfree.anti ((adds_typeSpec _).rows _)).anti hext₂.toKeepsRows
      · exact TypeRef.inner_subset_components (List.mem_append_left _ hc)
    · refine hapart.imp (fun hfree => hfree.anti ((adds_typeSpec _).rows _)) ?_
      intro hsep type htype
      refine hsep.of_subset fun c hc => TypeRef.inner_subset_components ?_
      exact List.mem_append_right _ (TypeRef.mem_componentsAll.mpr ⟨type, htype, hc⟩)
  case nil => exact fun t _ hone _ => hone
  case cons =>
    intro type types t iht ihts h hone hapart
    have h₁ := sound_importType unit type h
    obtain ⟨-, hext⟩ := grows_importTypes unit types _ h₁.keyed
    refine ihts h₁ (iht h hone ?_) (hapart.imp id fun hsep type ht => ?_)
    · exact hapart.imp (fun hfree => hfree.anti hext.toKeepsRows)
        fun hsep => hsep type List.mem_cons_self
    · exact hsep type (List.mem_cons_of_mem _ ht)

end ImportTables

/-! ### The types that an import asks for -/

namespace ImportTables

/-- Rows may have been added, but none for a type. -/
structure SameTypes (t t' : ImportTables) : Prop extends KeepsRows t t' where
  rowOf : ∀ identity a, t'.RowOf (.type identity) a → t.RowOf (.type identity) a
  find? : ∀ identity, t'.find? (.type identity) = t.find? (.type identity)

theorem SameTypes.refl (t : ImportTables) : SameTypes t t :=
  ⟨.refl t, fun _ _ h => h, fun _ => rfl⟩

theorem sameTypes_add {key : ImportKey} {add : ImportM Token} (hadds : Adds key add)
    (honly : AddsOnly key add) (hkey : key.isType = false) (t : ImportTables) :
    SameTypes t (add t).2 where
  toKeepsRows := hadds.rows t
  rowOf identity a h := by
    rcases honly t _ a h with hold | ⟨rfl, -⟩
    · exact hold
    · cases hkey
  find? identity := by
    rw [hadds.find?, if_neg]
    rintro rfl
    cases hkey

theorem OneToken.sameTypes {t t' : ImportTables} (h : OneToken t) (hsame : SameTypes t t') :
    OneToken t' :=
  fun identity a b ha hb => h identity a b (hsame.rowOf identity a ha) (hsame.rowOf identity b hb)

theorem importTypes_append (unit : Nat) (types types' : List TypeRef) (t : ImportTables) :
    (importTypes unit (types ++ types') t).2 =
      (importTypes unit types' (importTypes unit types t).2).2 := by
  induction types generalizing t with
  | nil => rfl
  | cons type types ih => exact ih (importType unit type t).2

end ImportTables

open ImportTables

/-- The types that a member's row mentions, in the order of their import. -/
def ForeignMember.types (m : ForeignMember) : List TypeRef :=
  m.declaring :: (m.valueType.toList ++ m.params)

/-- A member imports its types, and then takes a row of another table. -/
theorem ForeignMember.sameTypes_takeRow (unit : Nat) (m : ForeignMember) (t : ImportTables) :
    SameTypes (importTypes unit m.types t).2 (m.takeRow unit t).2 := by
  have htypes : (importTypes unit m.types t).2 =
      (importTypes unit m.params (importType? unit m.valueType
        (importType unit m.declaring t).2).2).2 := by
    change (importTypes unit (m.valueType.toList ++ m.params) _).2 = _
    rw [importTypes_append]
    cases m.valueType with
    | none => rfl
    | some type => rfl
  rw [htypes]
  exact sameTypes_add (adds_memberRef _) (addsOnly_memberRef _) rfl _

namespace Import

/-- The types that an import asks for. A member that has a token asks for none. -/
def types (unit : Nat) (tables : ImportTables) (i : Import) : List TypeRef :=
  match i with
  | .type t => [t]
  | _ => match i.foreign? unit with
    | some m => if (tables.find? (.member m.identity)).isNone then m.types else []
    | none => []

theorem types_of_foreign? {unit : Nat} {t : ImportTables} {i : Import} {m : ForeignMember}
    (hm : i.foreign? unit = some m) :
    i.types unit t = if (t.find? (.member m.identity)).isNone then m.types else [] := by
  cases i with
  | type t => cases hm
  | string text => cases hm
  | field f | method f | constructor f =>
    unfold types
    rw [hm]

/-- For the types, an import is the import of those that it asks for. -/
theorem sameTypes_perform (unit : Nat) (i : Import) (t : ImportTables) :
    SameTypes (importTypes unit (i.types unit t) t).2 (i.perform unit t).2 := by
  cases hm : i.foreign? unit with
  | some m =>
    rw [perform_foreign hm, types_of_foreign? hm]
    cases hfind : t.find? (.member m.identity) with
    | some token =>
      simp only [findOrAdd, hfind]
      exact .refl t
    | none =>
      simp only [findOrAdd, hfind]
      exact m.sameTypes_takeRow unit t
  | none =>
    have hnative := perform_native hm
    generalize i.perform unit = step at hnative
    cases hnative with
    | type type => exact .refl _
    | string text =>
      unfold internString findOrAdd
      split
      · exact .refl _
      · exact sameTypes_add (adds_string text) (addsOnly_string text) rfl t
    | own row hmember =>
      cases i with
      | type t => cases hmember
      | string text => cases hmember
      | field f | method f | constructor f =>
        unfold types
        rw [hm]
        exact .refl _

end Import

/-! ### Histories -/

/-- The types that imports ask for in order, each with the module that asks for it. -/
def typesFrom : List (Nat × Import) → ImportTables → List (Nat × TypeRef)
  | [], _ => []
  | (unit, i) :: log, t =>
    (i.types unit t).map (fun type => (unit, type)) ++ typesFrom log (i.perform unit t).2

/-- Rows stay, so tables without such instances at the end had none at any import before. -/
theorem oneToken_importFrom (log : List (Nat × Import)) {t : ImportTables} (h : Sound t)
    (hone : OneToken t)
    (hapart : SelfFree (importFrom log t) ∨ ∀ entry ∈ typesFrom log t, entry.2.Separate entry.1) :
    OneToken (importFrom log t) := by
  induction log generalizing t with
  | nil => exact hone
  | cons entry log ih =>
    obtain ⟨unit, i⟩ := entry
    have hnow := i.sound_perform unit h
    have hlater := extends_importFrom log hnow.keyed
    have hsame := i.sameTypes_perform unit t
    refine ih hnow (OneToken.sameTypes ?_ hsame) (hapart.imp id fun hsep entry he => ?_)
    · refine (importType_oneToken unit).2 _ t h hone ?_
      refine hapart.imp (fun hfree => ?_) fun hsep type ht => ?_
      · exact (hfree.anti hlater.toKeepsRows).anti hsame.toKeepsRows
      · exact hsep (unit, type) (List.mem_append_left _ (List.mem_map_of_mem ht))
    · exact hsep entry (List.mem_append_right _ he)

/-- After any imports, from any modules, no two rows of types have one identity exactly if no row
is built, at any depth, from a row of its own identity. This is so whenever no instance that was
imported has the identity of a type it is built from, definitions of the importing module apart. -/
theorem typeIdentities_nodup_iff (log : List (Nat × Import)) :
    ((importFrom log .empty).typeIdentities.Nodup ↔ SelfFree (importFrom log .empty)) ∧
    ((∀ entry ∈ typesFrom log .empty, entry.2.Separate entry.1) →
      (importFrom log .empty).typeIdentities.Nodup) := by
  have hsound : Sound (importFrom log .empty) := sound_importFrom log sound_empty
  have hone : OneToken .empty := fun _ _ _ ha => absurd ha not_rowOf_empty
  rw [← oneToken_iff_nodup]
  refine ⟨⟨fun h => h.selfFree hsound.toLinked, fun hfree => ?_⟩, fun hsep => ?_⟩
  · exact oneToken_importFrom log sound_empty hone (Or.inl hfree)
  · exact oneToken_importFrom log sound_empty hone (Or.inr hsep)

/-! ### An instance without arguments -/

/-- An instance of a type of a finished assembly, without arguments. -/
def bareInstance : TypeRef := .generic (libraryType "Lib.List") [] 0

theorem token?_empty {unit : Nat} {type : TypeRef} (h : ownRow? unit type = none) :
    empty.token? unit type = none := by
  rw [token?, h]
  simp [find?, empty]

theorem typeIdentities_bareInstance :
    (importFrom [(0, .type bareInstance)] .empty).typeIdentities =
      [bareInstance.identity, bareInstance.identity] := by
  change (importType 0 bareInstance .empty).2.typeIdentities = _
  rw [bareInstance, importType_generic_new 0 (token?_empty rfl), libraryType,
    importType_named_new 0 (token?_empty rfl)]
  rfl

/-- Identities do not always tell the rows of types apart: an instance without arguments has the
identity of its definition, and takes a row of its own beside it. -/
theorem typeIdentities_not_always_nodup :
    ¬ ∀ log : List (Nat × Import), (importFrom log .empty).typeIdentities.Nodup := by
  intro hall
  have hdup := hall [(0, .type bareInstance)]
  rw [typeIdentities_bareInstance] at hdup
  simp at hdup

end MarkupLowering
