import MarkupLowering.Proofs.Import.TypeNames
import MarkupLowering.Proofs.Module.Events

/-!
# MarkupLowering.Proofs.Module.ReadBack

**Reading imported types back.** A token that a module returned for a type leads, through the
module's definitions and its import tables, to a full name (`Module.readName`). It is the name of
the type, from the import on and whatever happens to the module afterwards
(`readName_importType`), provided that the types imported so far can be told by their identities
and do not claim definitions of the module that are not theirs.

Handles that builders return claim their own definitions (`Construction.definedName?_addType`), so
the second condition is about handles that were made by hand.
-/

namespace MarkupLowering

open ImportTables

namespace Module

/-- The full name of a type that the module defines. -/
def definedName? (m : Module) (row : Nat) : Option String :=
  m.types[row]?.map fun r => r.handle.fullName

/-- The full name of the type behind a token. -/
def readName (m : Module) (token : Token) : Option String :=
  m.imports.typeName? m.definedName? token

/-- The types that are imported by events in order, by themselves or with a member. -/
def typesImported (m : Module) (events : List Event) : List TypeRef :=
  typesAsked m.id (m.importLog events) m.imports

/-- Definitions keep their names. -/
theorem Took.definedName? {m m' : Module} {log : List Import} (h : m.Took log m') {row : Nat}
    {name : String} (hname : m.definedName? row = some name) :
    m'.definedName? row = some name := by
  obtain ⟨r, hr, rfl⟩ := Option.map_eq_some_iff.mp hname
  obtain ⟨r', hr', hhandle⟩ := h.types row r hr
  rw [Module.definedName?, hr', Option.map_some, hhandle]

theorem Took.keepsRows {m m' : Module} {log : List Import} (h : m.Took log m')
    (hkeyed : Keyed m.imports) : KeepsRows m.imports m'.imports := by
  rw [h.imports]
  exact (extends_importAll m.id hkeyed log).toKeepsRows

/-- A type that has a token is looked up. -/
theorem importType_of_token? {m : Module} {type : TypeRef} {token : Token}
    (h : m.imports.token? m.id type = some token) : m.importType type = (token, m) := by
  rw [importType, importing, ImportTables.importType_of_token? h]

theorem definedName?_addType (m : Module) (row : TypeRow) :
    (m.addType row).2.definedName? m.types.size = some row.handle.fullName := by
  have hpush : { (m.importing fun unit => importType? unit row.base).2 with
      types := m.types.push row }.definedName? m.types.size = some row.handle.fullName := by
    rw [definedName?, Array.getElem?_push_size, Option.map_some]
  unfold addType
  dsimp only
  split
  · refine Took.definedName? (Took.modifyType _ _ ?_) hpush
    exact fun _ => rfl
  · exact hpush

end Module

/-- The handle that a builder returns claims a definition of its name, from then on. -/
theorem Construction.definedName?_addType {namespaceName name : String} {base : Option TypeRef}
    {attributes : TypeAttributes} {visibility : Visibility} {outer : Option TypeBuilder}
    {s s' : Construction} {b : TypeBuilder}
    (h : addType namespaceName name base attributes visibility outer s = .ok b s')
    (events : List Module.Event) :
    ownRow? (s'.module.after events).id b.type = some b.row ∧
      (s'.module.after events).definedName? b.row = some b.type.fullName := by
  obtain ⟨row, hmodule, hhandle, -, hrow, hown⟩ := addType_inv h
  have hadd : s.module.Took _ s'.module := hmodule ▸ s.module.took_addType row
  have hlater := s'.module.took_after events
  constructor
  · rw [hlater.id, hadd.id]
    exact hown
  · refine hlater.definedName? ?_
    rw [hmodule, hrow, Module.definedName?_addType, hhandle]

/-- Reading an imported type back gives the type. At any time in the history of a module, the token
that is returned for a type leads to the full name of the type, and does so after any further
events. It is required that among the types imported so far, and all that they are built from,
types of one identity have one name, and those that claim to be definitions of the module have the
names of these definitions. -/
theorem readName_importType (id : Nat) (name : String) (core : CoreTypes)
    (before after : List Module.Event) (type : TypeRef) :
    let start := Module.new id name core
    let m := start.after before
    NamesAgree (type :: start.typesImported before) →
    Defines id m.definedName? (type :: start.typesImported before) →
    ((m.importType type).2.after after).readName (m.importType type).1 = some type.fullName := by
  intro start m hagree hdefines
  have hbefore : start.Took (start.importLog before) m := start.took_after before
  have hnow : m.Took [.type type] (m.importType type).2 := .importType m type
  have hlater := (m.importType type).2.took_after after
  have himports : m.imports = importAll id (start.importLog before) .empty := hbefore.imports
  have hstep : importType m.id type m.imports =
      importType id type (importAll id (start.importLog before) .empty) := by
    rw [himports, show m.id = id from hbefore.id]
  have hkeyed : Keyed (m.importType type).2.imports := by
    refine ((imports_importType m.id type).grows m.imports ?_).1
    rw [himports]
    exact (Recorded.of_log id _).keyed
  change typeName? _ _ (importType m.id type m.imports).1 = _
  rw [hstep]
  refine typeName?_importType hagree hdefines ?_ fun _ _ h => (hnow.trans hlater).definedName? h
  rw [← hstep]
  exact hlater.keepsRows hkeyed

/-! ### Lists of a module's own type -/

/-- An interface is defined. It has no base, so nothing is imported. -/
def definePanel : Module.Event :=
  .build .empty (.type "Gen" "Panel" none .interfaceType .publicType)

/-- A handle that claims the first definition of the first module. -/
def firstType (name : String) : TypeRef :=
  .named (.ofString name) .interfaceType (.construction 0 0) false none none 0

def listOf (t : TypeRef) : TypeRef := .generic (libraryType "Lib.List") [t] 0

/-- A list of the module's own type is imported after a list of another type, and read back after
another definition. -/
theorem readName_importType_listOf :
    let before := [definePanel, .importing (.type (listOf (libraryType "Lib.Item")))]
    let start := Module.new 0 "Gen" default
    let m := start.after before
    let list := listOf (firstType "Gen.Panel")
    NamesAgree (list :: start.typesImported before) ∧
      Defines 0 m.definedName? (list :: start.typesImported before) ∧
      ((m.importType list).2.after [definePanel]).readName (m.importType list).1 =
        some "Lib.List<Gen.Panel>" := by
  intro before start m list
  have hagree : NamesAgree (list :: start.typesImported before) := by decide +kernel
  have hdefines : Defines 0 m.definedName? (list :: start.typesImported before) := by
    decide +kernel
  exact ⟨hagree, hdefines,
    readName_importType 0 "Gen" default before [definePanel] list hagree hdefines⟩

/-- A type of another name claims the definition, and a list of it is imported. -/
def importClaim : Module.Event := .importing (.type (listOf (firstType "Lib.Item")))

theorem importType_claim :
    importType 0 (listOf (firstType "Lib.Item")) .empty =
      addTypeSpec ⟨.typeRef 0, [.typeDef 0], (listOf (firstType "Lib.Item")).identity⟩
        (addTypeRef ⟨"Lib", "Lib.List", (libraryType "Lib.List").identity⟩ .empty).2 := by
  rw [listOf, importType_generic_new 0 (token?_empty rfl), libraryType,
    importType_named_new 0 (token?_empty rfl)]
  rfl

/-- A type of a finished assembly does not always read back as what it is, even if identities tell
names apart: the list shares its row with an earlier list, of a type that had the same name but
claimed to be a definition of the module. -/
theorem readName_not_always :
    ¬ ∀ (before : List Module.Event) (type : TypeRef),
      let start := Module.new 0 "Gen" default
      let m := start.after before
      (∀ c ∈ type.components, c.unit? = none) →
      NamesAgree (type :: start.typesImported before) →
      (m.importType type).2.readName (m.importType type).1 = some type.fullName := by
  intro hall
  have hread := hall [definePanel, importClaim] (listOf (libraryType "Lib.Item")) (by decide)
    (by decide +kernel)
  have himports : ((Module.new 0 "Gen" default).after [definePanel, importClaim]).imports =
      (importType 0 (listOf (firstType "Lib.Item")) .empty).2 := rfl
  -- both lists are looked up by one identity
  have htoken : ((Module.new 0 "Gen" default).after [definePanel, importClaim]).imports.token? 0
      (listOf (libraryType "Lib.Item")) = some (.typeSpec 0) := by
    have hclaim := (imports_importType 0 (listOf (firstType "Lib.Item"))).token? .empty keyed_empty
    rw [himports]
    rw [importType_claim] at hclaim ⊢
    rw [token?_congr (show TypeRef.keyIn 0 _ = TypeRef.keyIn 0 _ from rfl)]
    exact hclaim
  rw [Module.importType_of_token? htoken, Module.readName, himports, importType_claim] at hread
  exact absurd hread (by decide +kernel)

end MarkupLowering
