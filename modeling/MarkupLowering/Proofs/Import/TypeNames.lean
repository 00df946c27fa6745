import MarkupLowering.Proofs.Import.TypeRows

/-!
# MarkupLowering.Proofs.Import.TypeNames

**Reading types back from the tables.** A token leads to a row, and the row of an instance to the
rows it is built from, so a token has a full name (`typeName?`). The names of the importing
module's own types are not in its import tables; they are a parameter here.

Types share rows by identity alone. A token therefore has the name of the type it was returned for
if, among the types imported so far and all that they are built from,

* identities tell names apart (`NamesAgree`), and
* what claims to be a definition of the module has the name of that definition (`Defines`).

The second is not a matter of identities. A type that falsely claims a definition is imported as
that definition, and an instance of it takes a row that a truthful instance will share.
-/

namespace MarkupLowering

/-! ### The name behind a token -/

theorem mapM_eq_some_iff {α β : Type} {f : α → Option β} {xs : List α} {ys : List β} :
    xs.mapM f = some ys ↔ xs.map f = ys.map some := by
  induction xs generalizing ys with
  | nil => cases ys <;> simp
  | cons x xs ih =>
    cases ys with
    | nil => simp [List.mapM_cons, Option.bind_eq_some_iff]
    | cons y ys => simp [List.mapM_cons, Option.bind_eq_some_iff, ih]

/-- What holds of a function's values, one by one, holds of their list. -/
theorem map_eq_of_map_some {α β γ : Type} {f : α → Option β} {g : α → γ} {k : β → γ} {xs : List α}
    {ys : List β} (h : xs.map f = ys.map some) (hg : ∀ x ∈ xs, ∀ y, f x = some y → g x = k y) :
    xs.map g = ys.map k := by
  induction xs generalizing ys with
  | nil =>
    rw [List.map_nil, eq_comm, List.map_eq_nil_iff] at h
    rw [h]
    rfl
  | cons x xs ih =>
    obtain ⟨y, ys, rfl, hy, hys⟩ := List.map_eq_cons_iff.mp h.symm
    rw [List.map_cons, List.map_cons, hg x List.mem_cons_self y hy.symm,
      ih hys.symm fun x hx => hg x (List.mem_cons_of_mem _ hx)]

namespace ImportTables

/-- The full name of the type behind a token, through at most `depth` rows of instances. -/
def nameWithin (t : ImportTables) (own : Nat → Option String) : Nat → Token → Option String
  | _, .typeDef row => own row
  | _, .typeRef k => t.typeRefs[k]?.map TypeRefRow.fullName
  | depth + 1, .typeSpec k => do
    let row ← t.typeSpecs[k]?
    let definition ← t.nameWithin own depth row.definition
    let arguments ← row.arguments.mapM (t.nameWithin own depth)
    some (definition ++ "<" ++ String.intercalate "," arguments ++ ">")
  | _, _ => none

/-- The full name of the type behind a token. Rows refer to earlier rows, so the number of rows
bounds the depth. -/
def typeName? (t : ImportTables) (own : Nat → Option String) (token : Token) : Option String :=
  t.nameWithin own t.typeSpecs.size token

variable {t t' : ImportTables} {own own' : Nat → Option String}

@[simp] theorem nameWithin_typeDef (depth row : Nat) :
    t.nameWithin own depth (.typeDef row) = own row := by
  cases depth <;> rfl

@[simp] theorem nameWithin_typeRef (depth k : Nat) :
    t.nameWithin own depth (.typeRef k) = t.typeRefs[k]?.map TypeRefRow.fullName := by
  cases depth <;> rfl

theorem nameWithin_typeSpec {depth k : Nat} {row : TypeSpecRow} {definition : String}
    {arguments : List String} (hk : t.typeSpecs[k]? = some row)
    (hdefinition : t.nameWithin own depth row.definition = some definition)
    (harguments : row.arguments.map (t.nameWithin own depth) = arguments.map some) :
    t.nameWithin own (depth + 1) (.typeSpec k) =
      some (definition ++ "<" ++ String.intercalate "," arguments ++ ">") := by
  simp [nameWithin, hk, hdefinition, mapM_eq_some_iff.mpr harguments]

theorem nameWithin_typeSpec_inv {depth k : Nat} {name : String}
    (h : t.nameWithin own depth (.typeSpec k) = some name) :
    ∃ below row definition arguments, depth = below + 1 ∧ t.typeSpecs[k]? = some row ∧
      t.nameWithin own below row.definition = some definition ∧
      row.arguments.map (t.nameWithin own below) = arguments.map some ∧
      name = definition ++ "<" ++ String.intercalate "," arguments ++ ">" := by
  cases depth with
  | zero => cases h
  | succ below =>
    obtain ⟨row, hk, h⟩ := Option.bind_eq_some_iff.mp h
    obtain ⟨definition, hdefinition, h⟩ := Option.bind_eq_some_iff.mp h
    obtain ⟨arguments, harguments, h⟩ := Option.bind_eq_some_iff.mp h
    exact ⟨below, row, definition, arguments, rfl, hk, hdefinition,
      mapM_eq_some_iff.mp harguments, (Option.some.inj h).symm⟩

/-- What has a name keeps it when rows are added, to the tables or to the module. -/
theorem nameWithin_mono (hrows : KeepsRows t t')
    (hown : ∀ row name, own row = some name → own' row = some name) {depth depth' : Nat}
    (hle : depth ≤ depth') {token : Token} {name : String}
    (h : t.nameWithin own depth token = some name) :
    t'.nameWithin own' depth' token = some name := by
  -- what a row is built from is read one level below it
  induction depth using Nat.strongRecOn generalizing depth' token name with | _ depth ih
  cases token with
  | typeDef row =>
    rw [nameWithin_typeDef] at h ⊢
    exact hown row name h
  | typeRef k =>
    rw [nameWithin_typeRef] at h ⊢
    obtain ⟨row, hk, rfl⟩ := Option.map_eq_some_iff.mp h
    rw [hrows.typeRefs k row hk, Option.map_some]
  | typeSpec k =>
    obtain ⟨below, row, definition, arguments, rfl, hk, hdefinition, harguments, rfl⟩ :=
      nameWithin_typeSpec_inv h
    obtain ⟨below', rfl⟩ : ∃ below', depth' = below' + 1 := ⟨depth' - 1, by omega⟩
    have hbelow : below ≤ below' := Nat.le_of_succ_le_succ hle
    refine nameWithin_typeSpec (hrows.typeSpecs k row hk)
      (ih below (Nat.lt_succ_self below) hbelow hdefinition) ?_
    exact map_eq_of_map_some harguments fun _ _ _ ha => ih below (Nat.lt_succ_self below) hbelow ha
  | _ => cases depth <;> cases h

theorem KeepsRows.size_typeSpecs_le (h : KeepsRows t t') :
    t.typeSpecs.size ≤ t'.typeSpecs.size := by
  by_contra hlt
  have hlast : t.typeSpecs[t'.typeSpecs.size]? = some t.typeSpecs[t'.typeSpecs.size] :=
    Array.getElem?_eq_getElem (Nat.lt_of_not_le hlt)
  have hkept := h.typeSpecs _ _ hlast
  simp at hkept

theorem typeName?_mono (hrows : KeepsRows t t')
    (hown : ∀ row name, own row = some name → own' row = some name) {token : Token} {name : String}
    (h : t.typeName? own token = some name) : t'.typeName? own' token = some name :=
  nameWithin_mono hrows hown hrows.size_typeSpecs_le h

/-- A row for an instance has the name that its parts give it. -/
theorem typeName?_addTypeSpec {row : TypeSpecRow} {definition : String} {arguments : List String}
    (hdefinition : t.typeName? own row.definition = some definition)
    (harguments : row.arguments.map (t.typeName? own) = arguments.map some) :
    (addTypeSpec row t).2.typeName? own (addTypeSpec row t).1 =
      some (definition ++ "<" ++ String.intercalate "," arguments ++ ">") := by
  have hrows := (adds_typeSpec row).rows t
  have hsize : (addTypeSpec row t).2.typeSpecs.size = t.typeSpecs.size + 1 := Array.size_push _
  rw [typeName?, hsize]
  refine nameWithin_typeSpec Array.getElem?_push_size
    (nameWithin_mono hrows (fun _ _ h => h) (Nat.le_refl _) hdefinition) ?_
  exact map_eq_of_map_some harguments fun _ _ _ ha =>
    nameWithin_mono hrows (fun _ _ h => h) (Nat.le_refl _) ha

end ImportTables

/-! ### Types that can be told by their names -/

/-- Among the types and all that they are built from, identities tell names apart. -/
def NamesAgree (types : List TypeRef) : Prop :=
  ∀ a ∈ TypeRef.componentsAll types, ∀ b ∈ TypeRef.componentsAll types,
    a.identity = b.identity → a.fullName = b.fullName

instance (types : List TypeRef) : Decidable (NamesAgree types) :=
  inferInstanceAs (Decidable (∀ a ∈ _, ∀ b ∈ _, _ → _))

/-- Among the types and all that they are built from, what claims to be a definition of module
`unit` has the name of the definition. -/
def Defines (unit : Nat) (own : Nat → Option String) (types : List TypeRef) : Prop :=
  ∀ c ∈ TypeRef.componentsAll types, ∀ row ∈ ImportTables.ownRow? unit c, own row = some c.fullName

instance (unit : Nat) (own : Nat → Option String) (types : List TypeRef) :
    Decidable (Defines unit own types) :=
  inferInstanceAs (Decidable (∀ c ∈ _, ∀ row ∈ _, _))

namespace ImportTables

/-- Every identity that has a token is that of one of the types, or of one that they are built
from, whose name the token leads to. -/
def Names (t : ImportTables) (own : Nat → Option String) (types : List TypeRef) : Prop :=
  ∀ identity token, t.find? (.type identity) = some token →
    ∃ c ∈ TypeRef.componentsAll types, c.identity = identity ∧
      t.typeName? own token = some c.fullName

variable {unit : Nat} {t t' : ImportTables} {own : Nat → Option String} {types : List TypeRef}

theorem names_empty : Names empty own types := by
  intro identity token h
  simp [find?, empty] at h

/-- The token of one of the types leads to the name of the type. -/
theorem Names.typeName? (h : Names t own types) (hagree : NamesAgree types)
    (hdefines : Defines unit own types) {type : TypeRef}
    (htype : type ∈ TypeRef.componentsAll types) {token : Token}
    (htoken : t.token? unit type = some token) : t.typeName? own token = some type.fullName := by
  unfold token? at htoken
  split at htoken
  · rename_i row hrow
    cases htoken
    rw [ImportTables.typeName?, nameWithin_typeDef]
    exact hdefines type htype row hrow
  · obtain ⟨c, hc, hid, hname⟩ := h _ _ htoken
    rw [hname, hagree c hc type htype hid]

/-- A row that has the name of its type keeps the tables readable. -/
theorem Names.add (h : Names t own types) {c : TypeRef} (hc : c ∈ TypeRef.componentsAll types)
    {add : ImportM Token} (hadds : Adds (.type c.identity) add)
    (hname : (add t).2.typeName? own (add t).1 = some c.fullName) : Names (add t).2 own types := by
  intro identity token hfind
  rw [hadds.find?] at hfind
  split at hfind
  · rename_i hkey
    cases hkey
    cases hfind
    exact ⟨c, hc, rfl, hname⟩
  · obtain ⟨c, hc, hid, hold⟩ := h identity token hfind
    exact ⟨c, hc, hid, typeName?_mono (hadds.rows t) (fun _ _ h => h) hold⟩

theorem Names.sameTypes (h : Names t own types) (hsame : SameTypes t t') : Names t' own types := by
  intro identity token hfind
  rw [hsame.find?] at hfind
  obtain ⟨c, hc, hid, hname⟩ := h identity token hfind
  exact ⟨c, hc, hid, typeName?_mono hsame.toKeepsRows (fun _ _ h => h) hname⟩

/-! ### Every import keeps names -/

/-- Rows that are added get the name of the type that asked for them. For an instance the name is
put together from those of its parts, and these are in the tables by then. -/
theorem names_importType_and (hagree : NamesAgree types) (hdefines : Defines unit own types) :
    (∀ type t, (∀ c ∈ type.components, c ∈ TypeRef.componentsAll types) → Keyed t →
      Names t own types → Names (importType unit type t).2 own types) ∧
    ∀ asked t, (∀ c ∈ TypeRef.componentsAll asked, c ∈ TypeRef.componentsAll types) → Keyed t →
      Names t own types → Names (importTypes unit asked t).2 own types := by
  refine importType_induct unit ?known ?ref ?spec ?nil ?cons
  case known =>
    intro type token t _ heq _ _ h
    rw [heq]
    exact h
  case ref =>
    intro type row t _ hname hrow heq hsub _ h
    have hadds := adds_typeRef row
    rw [hrow] at hadds
    rw [heq]
    refine h.add (hsub type type.mem_components_self) hadds ?_
    simp [ImportTables.typeName?, addTypeRef, bind, hname]
  case spec =>
    intro definition arguments id t _ heq ihd iha hsub ht h
    have hwithin : ∀ c ∈ (TypeRef.generic definition arguments id).inner,
        c ∈ TypeRef.componentsAll types := fun c hc => hsub c (TypeRef.inner_subset_components hc)
    obtain ⟨hkeyed₁, -⟩ := (imports_importType unit definition).grows t ht
    obtain ⟨-, hext₂⟩ := grows_importTypes unit arguments _ hkeyed₁
    have h₁ := ihd (fun c hc => hwithin c (List.mem_append_left _ hc)) ht h
    have h₂ := iha (fun c hc => hwithin c (List.mem_append_right _ hc)) hkeyed₁ h₁
    -- the parts have their tokens, and with them their names, before the row is made
    have hdefinition := hext₂.token? ((imports_importType unit definition).token? t ht)
    have harguments := importTypes_tokens unit arguments hkeyed₁
    rw [heq]
    refine h₂.add (hsub _ (TypeRef.mem_components_self _))
      (adds_typeSpec ⟨_, _, (TypeRef.generic definition arguments id).identity⟩) ?_
    rw [TypeRef.fullName, TypeRef.fullNames_eq_map]
    refine typeName?_addTypeSpec ?_ ?_
    · exact h₂.typeName? hagree hdefines
        (hwithin _ (List.mem_append_left _ definition.mem_components_self)) hdefinition
    · rw [List.map_map]
      refine (map_eq_of_map_some harguments fun type htype token htoken => ?_).symm
      refine (h₂.typeName? hagree hdefines (hwithin _ (List.mem_append_right _ ?_)) htoken).symm
      exact TypeRef.mem_componentsAll.mpr ⟨type, htype, type.mem_components_self⟩
  case nil => exact fun t _ _ h => h
  case cons =>
    intro type asked t iht ihts hsub ht h
    obtain ⟨hkeyed, -⟩ := (imports_importType unit type).grows t ht
    exact ihts (fun c hc => hsub c (List.mem_append_right _ hc)) hkeyed
      (iht (fun c hc => hsub c (List.mem_append_left _ hc)) ht h)

end ImportTables

open ImportTables

/-! ### Histories -/

/-- The types that module `unit` asks for by imports in order. -/
def typesAsked (unit : Nat) (log : List Import) (t : ImportTables) : List TypeRef :=
  (typesFrom (log.map (Prod.mk unit)) t).map Prod.snd

theorem typesAsked_cons (unit : Nat) (i : Import) (log : List Import) (t : ImportTables) :
    typesAsked unit (i :: log) t = i.types unit t ++ typesAsked unit log (i.perform unit t).2 := by
  simp [typesAsked, typesFrom, Function.comp_def]

theorem names_importAll {unit : Nat} {own : Nat → Option String} {types : List TypeRef}
    (hagree : NamesAgree types) (hdefines : Defines unit own types) (log : List Import)
    {t : ImportTables} (hsub : ∀ type ∈ typesAsked unit log t, type ∈ types) (ht : Keyed t)
    (h : Names t own types) : Names (importAll unit log t) own types := by
  induction log generalizing t with
  | nil => exact h
  | cons i log ih =>
    rw [typesAsked_cons] at hsub
    refine ih (fun type htype => hsub type (List.mem_append_right _ htype))
      (i.grows_perform unit t ht).1 (Names.sameTypes ?_ (i.sameTypes_perform unit t))
    refine (names_importType_and hagree hdefines).2 _ t (fun c hc => ?_) ht h
    obtain ⟨type, htype, hc⟩ := TypeRef.mem_componentsAll.mp hc
    exact TypeRef.mem_componentsAll.mpr ⟨type, hsub type (List.mem_append_left _ htype), hc⟩

/-- A type that is imported reads back, from then on, as what it is. -/
theorem typeName?_importType {unit : Nat} {own own' : Nat → Option String} {log : List Import}
    {type : TypeRef} {t' : ImportTables}
    (hagree : NamesAgree (type :: typesAsked unit log .empty))
    (hdefines : Defines unit own (type :: typesAsked unit log .empty))
    (hrows : KeepsRows (importType unit type (importAll unit log .empty)).2 t')
    (hown : ∀ row name, own row = some name → own' row = some name) :
    t'.typeName? own' (importType unit type (importAll unit log .empty)).1 =
      some type.fullName := by
  have hkeyed := (Recorded.of_log unit log).keyed
  have hbefore := names_importAll hagree hdefines log (fun _ h => List.mem_cons_of_mem _ h)
    keyed_empty names_empty
  have hcomponents : ∀ c ∈ type.components,
      c ∈ TypeRef.componentsAll (type :: typesAsked unit log .empty) :=
    fun c hc => List.mem_append_left _ hc
  have hnow := (names_importType_and hagree hdefines).1 type _ hcomponents hkeyed hbefore
  have htoken := (imports_importType unit type).token? _ hkeyed
  refine typeName?_mono hrows hown ?_
  exact hnow.typeName? hagree hdefines (hcomponents type type.mem_components_self) htoken

end MarkupLowering
