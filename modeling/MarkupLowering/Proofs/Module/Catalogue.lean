import MarkupLowering.Proofs.Module.Definitions

/-!
# MarkupLowering.Proofs.Module.Catalogue

**The definition tables of a module are in order**, whatever its builders and emitters do.

* `Listed`: each type lists the rows that it owns, in the order they were added. The argument is
  the same for fields, methods, properties and nested types, so it is made once, about the lists
  of all types and the owners of all rows.
* `Module.Declared`: what the row of a type and its handle say about each other.
* `Implemented`: a type's row and its handle have the same interfaces, unless someone adds to the
  type behind the module's back.

The main statement is `definitions_in_order`.
-/

namespace MarkupLowering

/-! ### Lists of rows -/

/-- There is a list for each type and an owner for each row that has one. The lists hold the rows
that belong to their types, in increasing order, and every owner has a list. -/
structure Listed (lists : Array (Array Nat)) (owners : Array (Option Nat)) : Prop where
  sorted : ∀ (i : Nat) (list : Array Nat), lists[i]? = some list → list.toList.Pairwise (· < ·)
  mem_iff : ∀ (i : Nat) (list : Array Nat), lists[i]? = some list →
    ∀ k, k ∈ list ↔ owners[k]? = some (some i)
  bound : ∀ (k i : Nat), owners[k]? = some (some i) → i < lists.size

namespace Listed

variable {lists : Array (Array Nat)} {owners : Array (Option Nat)}

theorem empty : Listed #[] #[] where
  sorted i list h := by simp at h
  mem_iff i list h := by simp at h
  bound k i h := by simp at h

/-- A new type owns nothing. -/
theorem newType (h : Listed lists owners) : Listed (lists.push #[]) owners where
  sorted i list hi := by
    rcases ImportTables.getElem?_push_inv hi with hold | ⟨-, rfl⟩
    · exact h.sorted i list hold
    · exact .nil
  mem_iff i list hi k := by
    rcases ImportTables.getElem?_push_inv hi with hold | ⟨rfl, rfl⟩
    · exact h.mem_iff i list hold k
    · refine ⟨fun hk => by simp at hk, fun hk => ?_⟩
      exact absurd (h.bound k _ hk) (Nat.lt_irrefl _)
  bound k i hk := by
    rw [Array.size_push]
    exact Nat.lt_succ_of_lt (h.bound k i hk)

/-- A new row that nobody owns. -/
theorem ownerless (h : Listed lists owners) : Listed lists (owners.push none) where
  sorted := h.sorted
  mem_iff i list hi k := by
    rw [h.mem_iff i list hi k]
    constructor
    · exact ImportTables.getElem?_push_of_some
    · intro hk
      rcases ImportTables.getElem?_push_inv hk with hold | ⟨-, heq⟩
      · exact hold
      · cases heq
  bound k i hk := by
    rcases ImportTables.getElem?_push_inv hk with hold | ⟨-, heq⟩
    · exact h.bound k i hold
    · cases heq

/-- A new row is entered at the end of its owner's list. -/
theorem enter (h : Listed lists owners) {o : Nat} (ho : o < lists.size) :
    Listed (lists.modify o fun list => list.push owners.size) (owners.push (some o)) where
  sorted i list hi := by
    rw [Array.getElem?_modify] at hi
    split at hi
    · obtain ⟨old, hold, rfl⟩ := Option.map_eq_some_iff.mp hi
      rw [Array.toList_push, List.pairwise_append]
      refine ⟨h.sorted i old hold, List.pairwise_singleton _ _, fun k hk n hn => ?_⟩
      -- what is listed has a row, and the new row is behind it
      obtain rfl := List.mem_singleton.mp hn
      have howner := (h.mem_iff i old hold k).mp (Array.mem_toList_iff.mp hk)
      exact (Array.getElem?_eq_some_iff.mp howner).1
    · exact h.sorted i list hi
  mem_iff i list hi k := by
    rw [Array.getElem?_modify] at hi
    rw [Array.getElem?_push]
    split at hi
    · rename_i hoi
      obtain ⟨old, hold, rfl⟩ := Option.map_eq_some_iff.mp hi
      rw [Array.mem_push, h.mem_iff i old hold k]
      by_cases hk : k = owners.size
      · simp [hk, hoi]
      · simp [hk]
    · rename_i hoi
      rw [h.mem_iff i list hi k]
      by_cases hk : k = owners.size
      · simp [hk, hoi]
      · simp [hk]
  bound k i hk := by
    rw [Array.size_modify]
    rcases ImportTables.getElem?_push_inv hk with hold | ⟨-, heq⟩
    · exact h.bound k i hold
    · cases heq
      exact ho

end Listed

/-! ### Types and their members -/

/-- The list holds the rows that are owned, in increasing order. -/
def Enumerates {α : Type} (list : Array Nat) (rows : Array α) (owned : α → Prop) : Prop :=
  list.toList.Pairwise (· < ·) ∧ ∀ k, k ∈ list ↔ ∃ row, rows[k]? = some row ∧ owned row

/-- Exactly one type lists the row. -/
def ListedOnce (types : Array TypeRow) (list : TypeRow → Array Nat) (k : Nat) : Prop :=
  ∃! i : Nat, ∃ r, types[i]? = some r ∧ k ∈ list r

namespace Listed

variable {α : Type} {types : Array TypeRow} {list : TypeRow → Array Nat}
  {owners : Array (Option Nat)}

/-- Changes to a type's row that are none to its list. -/
theorem modify (h : Listed (types.map list) owners) (i : Nat) {f : TypeRow → TypeRow}
    (hf : ∀ r, list (f r) = list r) : Listed ((types.modify i f).map list) owners := by
  rw [map_modify_eq hf]
  exact h

/-- A new member is entered in the list of its type. -/
theorem addMember {rows : Array α} {owner : α → Nat}
    (h : Listed (types.map list) (rows.map fun a => some (owner a))) {row : α}
    (ho : owner row < types.size) {f : TypeRow → TypeRow}
    (hf : ∀ r, list (f r) = (list r).push rows.size) :
    Listed ((types.modify (owner row) f).map list)
      ((rows.push row).map fun a => some (owner a)) := by
  have henter := h.enter (o := owner row) (by rwa [Array.size_map])
  rw [Array.size_map] at henter
  rw [map_modify (fun l => l.push rows.size) hf, Array.map_push]
  exact henter

/-- The list of a type holds the rows that it owns. -/
theorem enumerates {rows : Array α} {owner : α → Option Nat}
    (h : Listed (types.map list) (rows.map owner)) {i : Nat} {r : TypeRow}
    (hr : types[i]? = some r) : Enumerates (list r) rows (owner · = some i) := by
  have hlist : (types.map list)[i]? = some (list r) := by
    rw [Array.getElem?_map, hr, Option.map_some]
  refine ⟨h.sorted i _ hlist, fun k => ?_⟩
  rw [h.mem_iff i _ hlist, Array.getElem?_map, Option.map_eq_some_iff]

theorem enumerates_members {rows : Array α} {owner : α → Nat}
    (h : Listed (types.map list) (rows.map fun a => some (owner a))) {i : Nat} {r : TypeRow}
    (hr : types[i]? = some r) : Enumerates (list r) rows (owner · = i) := by
  simpa only [Option.some.injEq] using h.enumerates hr

/-- A row that has an owner is in one list. -/
theorem listedOnce {rows : Array α} {owner : α → Option Nat}
    (h : Listed (types.map list) (rows.map owner)) {k o : Nat} {row : α}
    (hk : rows[k]? = some row) (ho : owner row = some o) : ListedOnce types list k := by
  have howner : (rows.map owner)[k]? = some (some o) := by
    rw [Array.getElem?_map, hk, Option.map_some, ho]
  have hlt : o < types.size := by
    have hbound := h.bound k o howner
    rwa [Array.size_map] at hbound
  have hr := Array.getElem?_eq_getElem hlt
  refine ⟨o, ⟨_, hr, ((h.enumerates hr).2 k).mpr ⟨row, hk, ho⟩⟩, ?_⟩
  rintro j ⟨r, hj, hmem⟩
  obtain ⟨row', hk', ho'⟩ := ((h.enumerates hj).2 k).mp hmem
  obtain rfl := Option.some.inj (hk.symm.trans hk')
  exact Option.some.inj (ho'.symm.trans ho)

theorem listedOnce_members {rows : Array α} {owner : α → Nat}
    (h : Listed (types.map list) (rows.map fun a => some (owner a))) {k : Nat}
    (hk : k < rows.size) : ListedOnce types list k :=
  h.listedOnce (Array.getElem?_eq_getElem hk) rfl

end Listed

namespace Module

/-- What the row of a type says, and its handle. -/
structure Declared (m : Module) (i : Nat) (r : TypeRow) : Prop where
  origin : r.handle.origin = .construction m.id i
  notGeneric : r.handle.isGeneric = false
  /-- A nested type comes after the type around it, and extends its name. -/
  outer : ∀ o, r.declaring = some o → o < i ∧ ∃ around, m.types[o]? = some around ∧
    r.handle.declaring = some around.handle ∧
    r.handle.fullName = around.handle.fullName ++ "+" ++ r.name
  outermost : r.declaring = none → r.handle.declaring = none ∧
    r.handle.fullName = Construction.qualify r.namespaceName r.name none
  visibility : r.visibility.isNested = r.declaring.isSome
  kind : r.handle.isInterface = r.attributes.contains .interfaceType
  base : r.handle.base = r.base
  baseless : r.base = none → r.handle.isInterface = true

/-- What a row declares stays, and so does what it says of the row of the type around it. -/
theorem Declared.mono {m m' : Module} (hkeeps : m.KeepsDefinitions m') {i : Nat} {r r' : TypeRow}
    (hheader : r'.header = r.header) (h : m.Declared i r) : m'.Declared i r' := by
  -- a row agrees with its header in all that is declared
  have hhandle : r'.handle = r.handle := (congrArg TypeRow.handle hheader :)
  have hdeclaring : r'.declaring = r.declaring := (congrArg TypeRow.declaring hheader :)
  have hname : r'.name = r.name := (congrArg TypeRow.name hheader :)
  have hnamespace : r'.namespaceName = r.namespaceName :=
    (congrArg TypeRow.namespaceName hheader :)
  have hbase : r'.base = r.base := (congrArg TypeRow.base hheader :)
  have hattributes : r'.attributes = r.attributes := (congrArg TypeRow.attributes hheader :)
  have hvisibility : r'.visibility = r.visibility := (congrArg TypeRow.visibility hheader :)
  refine ⟨?_, ?_, fun o ho => ?_, fun ho => ?_, ?_, ?_, ?_, fun hnone => ?_⟩
  · rw [hhandle, hkeeps.id]
    exact h.origin
  · rw [hhandle]
    exact h.notGeneric
  · obtain ⟨hlt, around, haround, hdecl, hfull⟩ := h.outer o (hdeclaring ▸ ho)
    obtain ⟨around', haround', heq⟩ := hkeeps.types o around haround
    have hsame : around'.handle = around.handle := (congrArg TypeRow.handle heq :)
    refine ⟨hlt, around', haround', ?_, ?_⟩
    · rw [hhandle, hsame, hdecl]
    · rw [hhandle, hsame, hname, hfull]
  · rw [hhandle, hnamespace, hname]
    exact h.outermost (hdeclaring ▸ ho)
  · rw [hvisibility, hdeclaring]
    exact h.visibility
  · rw [hhandle, hattributes]
    exact h.kind
  · rw [hhandle, hbase]
    exact h.base
  · rw [hhandle]
    exact h.baseless (hbase ▸ hnone)

/-- The tables of definitions are in order. -/
structure Catalogued (m : Module) : Prop where
  fields : Listed (m.types.map TypeRow.fields) (m.fields.map fun r => some r.declaring)
  methods : Listed (m.types.map TypeRow.methods) (m.methods.map fun r => some r.declaring)
  properties : Listed (m.types.map TypeRow.properties) (m.properties.map fun r => some r.declaring)
  nested : Listed (m.types.map TypeRow.nested) (m.types.map TypeRow.declaring)
  declared : ∀ (i : Nat) (r : TypeRow), m.types[i]? = some r → m.Declared i r

theorem catalogued_new (id : Nat) (name : String) (core : CoreTypes) :
    (Module.new id name core).Catalogued where
  fields := by simpa [Module.new] using Listed.empty
  methods := by simpa [Module.new] using Listed.empty
  properties := by simpa [Module.new] using Listed.empty
  nested := by simpa [Module.new] using Listed.empty
  declared i r h := by simp [Module.new] at h

theorem KeepsDefinitions.declared {m m' : Module} (hkeeps : m.KeepsDefinitions m')
    (hsize : m'.types.size = m.types.size)
    (h : ∀ (i : Nat) (r : TypeRow), m.types[i]? = some r → m.Declared i r) :
    ∀ (i : Nat) (r : TypeRow), m'.types[i]? = some r → m'.Declared i r := by
  intro i r' hr'
  have hlt := (Array.getElem?_eq_some_iff.mp hr').1
  rw [hsize] at hlt
  obtain ⟨r₁, hr₁, heq⟩ := hkeeps.types i _ (Array.getElem?_eq_getElem hlt)
  obtain rfl := Option.some.inj (hr₁.symm.trans hr')
  exact (h i _ (Array.getElem?_eq_getElem hlt)).mono hkeeps heq

namespace Catalogued

variable {m : Module}

/-- A step that changes one type's row, but neither its owner nor its nested types. -/
theorem of_modify {m' : Module} (h : m.Catalogued) (hkeeps : m.KeepsDefinitions m') {i : Nat}
    {f : TypeRow → TypeRow} (htypes : m'.types = m.types.modify i f)
    (hfields : Listed ((m.types.modify i f).map TypeRow.fields)
      (m'.fields.map fun r => some r.declaring))
    (hmethods : Listed ((m.types.modify i f).map TypeRow.methods)
      (m'.methods.map fun r => some r.declaring))
    (hproperties : Listed ((m.types.modify i f).map TypeRow.properties)
      (m'.properties.map fun r => some r.declaring))
    (hnested : ∀ r, (f r).nested = r.nested) (hdeclaring : ∀ r, (f r).declaring = r.declaring) :
    m'.Catalogued := by
  rw [← htypes] at hfields hmethods hproperties
  refine ⟨hfields, hmethods, hproperties, ?_, hkeeps.declared ?_ h.declared⟩
  · rw [htypes, map_modify_eq hnested, map_modify_eq hdeclaring]
    exact h.nested
  · rw [htypes, Array.size_modify]

/-- A type is complete. -/
theorem complete (h : m.Catalogued) (i : Nat) :
    (m.modifyType i fun r => { r with created := true }).Catalogued :=
  h.of_modify (.modifyType m i fun _ => rfl) (types_modifyType m i _)
    (h.fields.modify i fun _ => rfl) (h.methods.modify i fun _ => rfl)
    (h.properties.modify i fun _ => rfl) (fun _ => rfl) fun _ => rfl

theorem addInterface (h : m.Catalogued) (row : Nat) (i : TypeRef) :
    (m.addInterface row i).Catalogued :=
  h.of_modify (.addInterface m row i) (types_addInterface m row i)
    (h.fields.modify row fun _ => rfl) (h.methods.modify row fun _ => rfl)
    (h.properties.modify row fun _ => rfl) (fun _ => rfl) fun _ => rfl

theorem addField (h : m.Catalogued) (row : FieldRow) (ho : row.declaring < m.types.size) :
    (m.addField row).2.Catalogued :=
  h.of_modify (.addField m row) (types_addField m row) (h.fields.addMember ho fun _ => rfl)
    (h.methods.modify _ fun _ => rfl) (h.properties.modify _ fun _ => rfl) (fun _ => rfl)
    fun _ => rfl

theorem addMethod (h : m.Catalogued) (row : MethodRow) (ho : row.declaring < m.types.size) :
    (m.addMethod row).2.Catalogued :=
  h.of_modify (.addMethod m row) (types_addMethod m row) (h.fields.modify _ fun _ => rfl)
    (h.methods.addMember ho fun _ => rfl) (h.properties.modify _ fun _ => rfl) (fun _ => rfl)
    fun _ => rfl

theorem addProperty (h : m.Catalogued) (row : PropertyRow) (ho : row.declaring < m.types.size) :
    (m.addProperty row).2.Catalogued :=
  h.of_modify (.addProperty m row) (types_addProperty m row) (h.fields.modify _ fun _ => rfl)
    (h.methods.modify _ fun _ => rfl) (h.properties.addMember ho fun _ => rfl) (fun _ => rfl)
    fun _ => rfl

theorem of_sameRows {m' : Module} (h : m.Catalogued) (hsame : m.SameRows m') : m'.Catalogued := by
  have hkeeps := KeepsDefinitions.of_sameRows hsame
  rw [hsame] at hkeeps ⊢
  exact ⟨h.fields, h.methods, h.properties, h.nested, fun i r hr => (h.declared i r hr).mono
    hkeeps rfl⟩

theorem setBody (h : m.Catalogued) (row : Nat) (body : Body) : (m.setBody row body).Catalogued where
  fields := h.fields
  methods := by
    rw [map_setBody fun _ _ => rfl]
    exact h.methods
  properties := h.properties
  nested := h.nested
  declared := (KeepsDefinitions.setBody m row body).declared rfl h.declared

/-- A new type, which has no members yet, is entered in the list of the type around it. -/
theorem addType (h : m.Catalogued) {row : TypeRow} (hfields : row.fields = #[])
    (hmethods : row.methods = #[]) (hproperties : row.properties = #[])
    (hnested : row.nested = #[]) (hdeclared : m.Declared m.types.size row) :
    (m.addType row).2.Catalogued where
  fields := by
    rw [map_addType (fun _ _ => rfl), fields_addType, hfields]
    exact h.fields.newType
  methods := by
    rw [map_addType (fun _ _ => rfl), methods_addType, hmethods]
    exact h.methods.newType
  properties := by
    rw [map_addType (fun _ _ => rfl), properties_addType, hproperties]
    exact h.properties.newType
  nested := by
    have hlists : (m.types.push row).map TypeRow.nested =
        (m.types.map TypeRow.nested).push #[] := by
      rw [Array.map_push, hnested]
    rw [map_addType (g := TypeRow.declaring) (fun _ _ => rfl), types_addType]
    cases ho : row.declaring with
    | none =>
      rw [hlists]
      exact h.nested.newType.ownerless
    | some o =>
      obtain ⟨hlt, -⟩ := hdeclared.outer o ho
      have hentered := h.nested.newType.enter (o := o) (by simp; omega)
      rw [Array.size_map] at hentered
      have hmodified : ((m.types.push row).modify o fun r =>
          { r with nested := r.nested.push m.types.size }).map TypeRow.nested =
          ((m.types.map TypeRow.nested).push #[]).modify o fun list =>
            list.push m.types.size := by
        rw [← hlists]
        refine map_modify _ ?_ _ o
        exact fun _ => rfl
      rw [← hmodified] at hentered
      exact hentered
  declared i r hi := by
    have hkeeps := KeepsDefinitions.addType m row
    have hheader := congrArg (Option.map TypeRow.header) hi
    rw [← Array.getElem?_map, map_addType (fun _ _ => rfl)] at hheader
    rcases ImportTables.getElem?_push_inv hheader with hold | ⟨rfl, heq⟩
    · rw [Array.getElem?_map] at hold
      obtain ⟨old, hold, heq⟩ := Option.map_eq_some_iff.mp hold
      exact (h.declared i old hold).mono hkeeps heq.symm
    · rw [Array.size_map]
      exact hdeclared.mono hkeeps heq

end Catalogued

end Module

/-! ### Builders -/

/-- A new type says what it was asked to say, if the builder around it is at its row. -/
theorem Construction.declared_typeRow (s : Construction) (namespaceName name : String)
    (base : Option TypeRef) (attributes : TypeAttributes) {visibility : Visibility}
    {outer : Option TypeBuilder} (hvisibility : visibility.isNested = outer.isSome)
    (houter : ∀ b, outer = some b →
      ∃ r, s.module.types[b.row]? = some r ∧ r.handle = b.type) :
    s.module.Declared s.module.types.size
      (s.typeRow namespaceName name base attributes visibility outer) where
  origin := rfl
  notGeneric := rfl
  outer o ho := by
    obtain ⟨b, rfl, rfl⟩ := Option.map_eq_some_iff.mp ho
    obtain ⟨r, hr, hhandle⟩ := houter b rfl
    refine ⟨(Array.getElem?_eq_some_iff.mp hr).1, r, hr, ?_, ?_⟩
    · rw [hhandle]
      rfl
    · rw [hhandle]
      rfl
  outermost ho := by
    obtain rfl := Option.map_eq_none_iff.mp ho
    exact ⟨rfl, rfl⟩
  visibility := by
    rw [typeRow, Option.isSome_map]
    exact hvisibility
  kind := by
    dsimp only [typeRow, TypeRef.isInterface, TypeRef.kind]
    split <;> simp_all
  base := rfl
  baseless hnone := by
    have hinterface : attributes.contains .interfaceType = true := by
      dsimp only [typeRow, baseOf] at hnone
      split at hnone
      · cases hnone
      · split at hnone
        · assumption
        · cases hnone
    simp only [typeRow, TypeRef.isInterface, TypeRef.kind, hinterface]
    rfl

/-- Builders keep the tables in order. -/
theorem BuildRequest.Granted.catalogued {r : BuildRequest} {s s' : Construction}
    {g : Option Handle} (h : r.Granted s g s')
    (hbuilder : ∀ b, r.builder? = some b → s.module.Holds (.type b)) (hs : s.module.Catalogued) :
    s'.module.Catalogued := by
  have hbound : ∀ {i : Nat} {b : TypeBuilder}, r.builder? = some b → i = b.row →
      i < s.module.types.size := by
    rintro i b hb rfl
    obtain ⟨owner, howner, -⟩ := hbuilder b hb
    exact (Array.getElem?_eq_some_iff.mp howner).1
  cases h with
  | type hvisibility hadd =>
    obtain ⟨rfl, rfl⟩ := Construction.addType_row hadd
    exact hs.addType rfl rfl rfl rfl (s.declared_typeRow _ _ _ _ hvisibility hbuilder)
  | complete _ => exact hs.complete _
  | field row hb hrow => exact hs.addField row (hbound hb hrow)
  | method row hb hrow _ _ => exact hs.addMethod row (hbound hb hrow)
  | constructor row hb hrow _ _ _ _ => exact hs.addMethod row (hbound hb hrow)
  | property row hb hrow => exact hs.addProperty row (hbound hb hrow)
  | implement i _ _ => exact hs.addInterface _ i

/-- The tables of the module are in order, and every handle that was returned holds. -/
structure Session.Orderly (s : Session) : Prop where
  catalogued : s.module.Catalogued
  holds : ∀ g ∈ s.handles, s.module.Holds g

namespace Session.Orderly

variable {s s' : Session}

theorem start (h : Hierarchy) (id : Nat) (name : String) (core : CoreTypes) :
    (Session.start h id name core).Orderly := ⟨Module.catalogued_new id name core, fun _ => nofun⟩

/-- Builders are the ones that matter, and a builder may only be used if it was returned before, so
there is a row behind it. What was returned earlier holds because rows keep what they declare. -/
theorem changes {a : Action} (hs : s.Orderly) (ha : s.Permits a) (h : s.Changes a s') :
    s'.Orderly := by
  have hkeeps := h.keepsDefinitions
  have hheld : ∀ g ∈ s.handles, s'.module.Holds g := fun g hg => (hs.holds g hg).mono hkeeps
  cases h with
  | @built r g c hgrant =>
    have hbuilder : ∀ b, r.builder? = some b → s.module.Holds (.type b) :=
      fun b hb => hs.holds _ (ha b hb)
    refine ⟨hgrant.catalogued hbuilder hs.catalogued, fun g' hg' => ?_⟩
    rcases List.mem_append.mp hg' with hold | hnew
    · exact hheld g' hold
    · rw [Option.mem_toList] at hnew
      cases hnew
      exact hgrant.holds hbuilder
  | requested _ hr => exact ⟨hs.catalogued.of_sameRows (Request.sameRows hr), hheld⟩
  | finished _ hm =>
    refine ⟨?_, hheld⟩
    obtain ⟨body, -, rfl⟩ := Emitter.finish_inv hm
    exact hs.catalogued.setBody _ body
  | imported i => exact ⟨hs.catalogued.of_sameRows rfl, hheld⟩
  | documented file => exact ⟨hs.catalogued.of_sameRows rfl, hheld⟩
  | idle | opened _ | closed _ _ | allotted _ | extended _ _ => exact ⟨hs.catalogued, hheld⟩

end Session.Orderly

theorem History.orderly {s₀ s : Session} {log : List Turn} (h : History s₀ log s)
    (h₀ : s₀.Orderly) : s.Orderly :=
  h.keeps (fun _ _ _ hs ha hchange => hs.changes ha hchange) h₀

/-! ### Interfaces -/

/-- A type's handle and its interfaces, by its row. -/
def TypeRow.implemented (r : TypeRow) : TypeRef × List TypeRef := (r.handle, r.interfaces)

/-- The rows of types have interface lists of their own, which are the lists that the rows hold,
but for those that somebody else has added to. -/
structure Implemented (h : Hierarchy) (rows : Array (TypeRef × List TypeRef))
    (touched : Nat → Prop) : Prop where
  allotted : ∀ (k : Nat) (row : TypeRef × List TypeRef), rows[k]? = some row →
    row.1.id < h.lists.size
  distinct : ∀ (k j : Nat) (row row' : TypeRef × List TypeRef), rows[k]? = some row →
    rows[j]? = some row' → row.1.id = row'.1.id → k = j
  once : ∀ (k : Nat) (row : TypeRef × List TypeRef), rows[k]? = some row →
    row.2.Pairwise fun a b => a.identity ≠ b.identity
  same : ∀ (k : Nat) (row : TypeRef × List TypeRef), rows[k]? = some row → ¬ touched row.1.id →
    h.interfaces row.1 = row.2

/-- An interface is entered once. -/
theorem Hierarchy.insertInterface_once {i : TypeRef} {list : List TypeRef}
    (h : list.Pairwise fun a b => a.identity ≠ b.identity) :
    (insertInterface i list).Pairwise fun a b => a.identity ≠ b.identity := by
  unfold insertInterface
  split
  · exact h
  · rename_i hnew
    rw [List.pairwise_append]
    refine ⟨h, List.pairwise_singleton _ _, fun a ha b hb heq => ?_⟩
    obtain rfl := List.mem_singleton.mp hb
    exact hnew (List.any_eq_true.mpr ⟨a, ha, TypeRef.beq_iff.mpr heq⟩)

namespace Implemented

variable {h : Hierarchy} {rows : Array (TypeRef × List TypeRef)} {touched : Nat → Prop}

theorem new (h : Hierarchy) (id : Nat) (name : String) (core : CoreTypes)
    (touched : Nat → Prop) :
    Implemented h ((Module.new id name core).types.map TypeRow.implemented) touched where
  allotted _ _ hk := by simp [Module.new] at hk
  distinct _ _ _ _ hk := by simp [Module.new] at hk
  once _ _ hk := by simp [Module.new] at hk
  same _ _ hk := by simp [Module.new] at hk

/-- A type is made elsewhere. -/
theorem allot (hi : Implemented h rows touched) (interfaces : List TypeRef) :
    Implemented (h.allot interfaces) rows touched where
  allotted k row hk := by
    rw [Hierarchy.allot, Array.size_push]
    exact Nat.lt_succ_of_lt (hi.allotted k row hk)
  distinct := hi.distinct
  once := hi.once
  same k row hk huntouched := by
    rw [h.interfaces_allot_of_lt _ (hi.allotted k row hk)]
    exact hi.same k row hk huntouched

/-- The module gets a new type. -/
theorem newType (hi : Implemented h rows touched) {t : TypeRef} (ht : t.id = h.lists.size) :
    Implemented (h.allot []) (rows.push (t, [])) touched where
  allotted k row hk := by
    rw [Hierarchy.allot, Array.size_push]
    rcases ImportTables.getElem?_push_inv hk with hold | ⟨-, rfl⟩
    · exact Nat.lt_succ_of_lt (hi.allotted k row hold)
    · exact Nat.lt_succ_of_le (Nat.le_of_eq ht)
  distinct k j row row' hk hj heq := by
    rcases ImportTables.getElem?_push_inv hk with hk | ⟨rfl, rfl⟩
    · rcases ImportTables.getElem?_push_inv hj with hj | ⟨rfl, rfl⟩
      · exact hi.distinct k j row row' hk hj heq
      · exact absurd (hi.allotted k row hk) (by rw [heq, ht]; exact Nat.lt_irrefl _)
    · rcases ImportTables.getElem?_push_inv hj with hj | ⟨rfl, -⟩
      · exact absurd (hi.allotted j row' hj) (by rw [← heq, ht]; exact Nat.lt_irrefl _)
      · rfl
  once k row hk := by
    rcases ImportTables.getElem?_push_inv hk with hold | ⟨-, rfl⟩
    · exact hi.once k row hold
    · exact .nil
  same k row hk huntouched := by
    rcases ImportTables.getElem?_push_inv hk with hold | ⟨-, rfl⟩
    · rw [h.interfaces_allot_of_lt _ (hi.allotted k row hold)]
      exact hi.same k row hold huntouched
    · simp [Hierarchy.interfaces, Hierarchy.allot, Array.getD_eq_getD_getElem?, ht]

/-- A builder adds an interface to its type. -/
theorem implement (hi : Implemented h rows touched) {k : Nat} {t : TypeRef} {list : List TypeRef}
    (hk : rows[k]? = some (t, list)) (i : TypeRef) :
    Implemented (h.addInterface t i)
      (rows.modify k fun row => (row.1, Hierarchy.insertInterface i row.2)) touched := by
  have hinv : ∀ (j : Nat) (row : TypeRef × List TypeRef),
      (rows.modify k fun row => (row.1, Hierarchy.insertInterface i row.2))[j]? = some row →
      j = k ∧ row = (t, Hierarchy.insertInterface i list) ∨ j ≠ k ∧ rows[j]? = some row := by
    intro j row hj
    rw [Array.getElem?_modify] at hj
    split at hj
    · rename_i heq
      subst heq
      rw [hk] at hj
      cases hj
      exact Or.inl ⟨rfl, rfl⟩
    · rename_i hne
      exact Or.inr ⟨Ne.symm hne, hj⟩
  -- the handles of the rows are what they were
  have hhandle : ∀ (j : Nat) (row : TypeRef × List TypeRef),
      (rows.modify k fun row => (row.1, Hierarchy.insertInterface i row.2))[j]? = some row →
      ∃ old, rows[j]? = some (row.1, old) := by
    intro j row hj
    rcases hinv j row hj with ⟨rfl, rfl⟩ | ⟨-, hold⟩
    · exact ⟨list, hk⟩
    · exact ⟨row.2, hold⟩
  refine ⟨fun j row hj => ?_, fun j j' row row' hj hj' heq => ?_, fun j row hj => ?_,
    fun j row hj huntouched => ?_⟩
  · obtain ⟨old, hold⟩ := hhandle j row hj
    rw [Hierarchy.size_addInterface]
    exact hi.allotted j (row.1, old) hold
  · obtain ⟨old, hold⟩ := hhandle j row hj
    obtain ⟨old', hold'⟩ := hhandle j' row' hj'
    exact hi.distinct j j' _ _ hold hold' heq
  · rcases hinv j row hj with ⟨-, rfl⟩ | ⟨-, hold⟩
    · exact Hierarchy.insertInterface_once (hi.once k _ hk)
    · exact hi.once j row hold
  · rw [Hierarchy.interfaces_addInterface]
    rcases hinv j row hj with ⟨-, rfl⟩ | ⟨hne, hold⟩
    · rw [if_pos ⟨rfl, hi.allotted k _ hk⟩, hi.same k _ hk huntouched]
    · rw [if_neg fun hid => hne (hi.distinct j k _ _ hold hk hid.1)]
      exact hi.same j row hold huntouched

/-- Somebody else adds an interface to a type. -/
theorem touch (hi : Implemented h rows touched) (t i : TypeRef) :
    Implemented (h.addInterface t i) rows fun id => touched id ∨ t.id = id := by
  refine ⟨fun k row hk => ?_, hi.distinct, hi.once, fun k row hk huntouched => ?_⟩
  · rw [Hierarchy.size_addInterface]
    exact hi.allotted k row hk
  · rw [not_or] at huntouched
    rw [Hierarchy.interfaces_addInterface, if_neg fun hid => huntouched.2 hid.1.symm]
    exact hi.same k row hk huntouched.1

theorem mono (hi : Implemented h rows touched) {touched' : Nat → Prop}
    (hle : ∀ id, touched id → touched' id) : Implemented h rows touched' where
  allotted := hi.allotted
  distinct := hi.distinct
  once := hi.once
  same k row hk huntouched := hi.same k row hk fun ht => huntouched (hle _ ht)

end Implemented

/-- Somebody other than a builder has added to an interface list. -/
def Touched (log : List Turn) (id : Nat) : Prop :=
  ∃ turn ∈ log, ∃ t i, turn.action = .addInterface t i ∧ t.id = id

/-- Builders keep rows and interface lists together. -/
theorem BuildRequest.Granted.implemented {r : BuildRequest} {s s' : Construction}
    {g : Option Handle} (h : r.Granted s g s')
    (hbuilder : ∀ b, r.builder? = some b → s.module.Holds (.type b)) {touched : Nat → Prop}
    (hs : Implemented s.hierarchy (s.module.types.map TypeRow.implemented) touched) :
    Implemented s'.hierarchy (s'.module.types.map TypeRow.implemented) touched := by
  have hmember : ∀ (i : Nat) {f : TypeRow → TypeRow},
      (∀ r, (f r).implemented = r.implemented) →
      Implemented s.hierarchy ((s.module.types.modify i f).map TypeRow.implemented) touched := by
    intro i f hf
    rw [map_modify_eq hf]
    exact hs
  cases h with
  | type _ hadd =>
    obtain ⟨-, rfl⟩ := Construction.addType_row hadd
    rw [Module.map_addType fun _ _ => rfl]
    exact hs.newType rfl
  | complete _ =>
    rw [Module.types_modifyType]
    exact hmember _ fun _ => rfl
  | field row _ _ =>
    rw [Module.types_addField]
    exact hmember _ fun _ => rfl
  | method row _ _ _ _ =>
    rw [Module.types_addMethod]
    exact hmember _ fun _ => rfl
  | constructor row _ _ _ _ _ _ =>
    rw [Module.types_addMethod]
    exact hmember _ fun _ => rfl
  | property row _ _ =>
    rw [Module.types_addProperty]
    exact hmember _ fun _ => rfl
  | @implement b i hb _ =>
    obtain ⟨owner, howner, hhandle⟩ := hbuilder b hb
    have hrow : (s.module.types.map TypeRow.implemented)[b.row]? =
        some (b.type, owner.interfaces) := by
      rw [Array.getElem?_map, howner, ← hhandle]
      rfl
    rw [Module.types_addInterface,
      map_modify (fun row => (row.1, Hierarchy.insertInterface i row.2)) fun _ => rfl]
    exact hs.implement hrow i

/-- Rows and interface lists stay together. -/
theorem Session.Changes.implemented {s s' : Session} {a : Action} {log : List Turn}
    (h : s.Changes a s') (hs : s.Orderly) (ha : s.Permits a)
    (hi : Implemented s.hierarchy (s.module.types.map TypeRow.implemented) (Touched log)) :
    Implemented s'.hierarchy (s'.module.types.map TypeRow.implemented)
      (Touched (log ++ [⟨s, a⟩])) := by
  have hi' : Implemented s.hierarchy (s.module.types.map TypeRow.implemented)
      (Touched (log ++ [⟨s, a⟩])) :=
    hi.mono fun _ ⟨turn, hturn, ht⟩ => ⟨turn, List.mem_append_left _ hturn, ht⟩
  cases h with
  | built hgrant => exact hgrant.implemented (fun b hb => hs.holds _ (ha b hb)) hi'
  | requested _ hr =>
    have htypes := congrArg Module.types (Request.sameRows hr)
    rw [setEmitter_module, setEmitter_hierarchy, htypes]
    exact hi'
  | finished _ hm =>
    obtain ⟨body, -, rfl⟩ := Emitter.finish_inv hm
    exact hi'
  | allotted interfaces => exact hi'.allot interfaces
  | extended t i =>
    refine (hi'.touch t i).mono ?_
    rintro id (ht | rfl)
    · exact ht
    · exact ⟨⟨s, .addInterface t i⟩, by simp, t, i, rfl, rfl⟩
  | idle | opened _ | closed _ _ | imported _ | documented _ => exact hi'

theorem History.implemented {s₀ s : Session} {log : List Turn} (h : History s₀ log s)
    (h₀ : s₀.Orderly)
    (hi : Implemented s₀.hierarchy (s₀.module.types.map TypeRow.implemented) (Touched [])) :
    Implemented s.hierarchy (s.module.types.map TypeRow.implemented) (Touched log) := by
  induction h with
  | start => exact hi
  | turn a h ha ih => exact (Session.changes_after _ a).implemented (h.orderly h₀) ha ih

/-! ### The tables are in order -/

/-- Whatever builders and emitters do, in any order, the definition tables are in order: the lists
of a type's row are the rows that it declares, so that each has one owner; the row and the handle
of a type agree; and its interfaces are those that the handle sees, each of them once, as long as
only builders add to them. Rows and what handles say about them are the same for good. -/
theorem definitions_in_order {h : Hierarchy} {id : Nat} {name : String} {core : CoreTypes}
    {log log' : List Turn} {s s' : Session} (hs : History (.start h id name core) log s)
    (hs' : History s log' s') :
    s.module.id = id ∧
      (∀ (i : Nat) (r : TypeRow), s.module.types[i]? = some r →
        s.module.Declared i r ∧
        Enumerates r.fields s.module.fields (·.declaring = i) ∧
        Enumerates r.methods s.module.methods (·.declaring = i) ∧
        Enumerates r.properties s.module.properties (·.declaring = i) ∧
        Enumerates r.nested s.module.types (·.declaring = some i) ∧
        r.interfaces.Pairwise (fun a b => a.identity ≠ b.identity) ∧
        (¬ Touched log r.handle.id → s.hierarchy.interfaces r.handle = r.interfaces)) ∧
      (∀ k < s.module.fields.size, ListedOnce s.module.types TypeRow.fields k) ∧
      (∀ k < s.module.methods.size, ListedOnce s.module.types TypeRow.methods k) ∧
      (∀ k < s.module.properties.size, ListedOnce s.module.types TypeRow.properties k) ∧
      (∀ (k : Nat) (r : TypeRow), s.module.types[k]? = some r → r.declaring.isSome →
        ListedOnce s.module.types TypeRow.nested k) ∧
      (∀ g ∈ s.handles, s'.module.Holds g) ∧
      s.module.KeepsDefinitions s'.module := by
  obtain ⟨htables, hholds⟩ := hs.orderly (.start h id name core)
  have hinterfaces := hs.implemented (.start h id name core) (.new h id name core _)
  refine ⟨hs.module_id, fun i r hr => ?_, fun k hk => htables.fields.listedOnce_members hk,
    fun k hk => htables.methods.listedOnce_members hk,
    fun k hk => htables.properties.listedOnce_members hk, fun k r hr ho => ?_,
    fun g hg => (hholds g hg).mono hs'.keepsDefinitions, hs'.keepsDefinitions⟩
  · have himplemented : (s.module.types.map TypeRow.implemented)[i]? =
        some (r.handle, r.interfaces) := by
      rw [Array.getElem?_map, hr]
      rfl
    exact ⟨htables.declared i r hr, htables.fields.enumerates_members hr,
      htables.methods.enumerates_members hr, htables.properties.enumerates_members hr,
      htables.nested.enumerates hr, hinterfaces.once i _ himplemented,
      hinterfaces.same i _ himplemented⟩
  · obtain ⟨o, ho⟩ := Option.isSome_iff_exists.mp ho
    exact htables.nested.listedOnce hr ho

/-- An interface from elsewhere. -/
def someInterface : TypeRef :=
  .named (.ofString "I") .interfaceType (.assembly "library") false none none 1

/-- A type is defined, with a field, an interface and a type nested in it. -/
def firstSession : Session :=
  let s := oneType.after (.build (.field firstBuilder default "f" true false))
  let s := s.after (.build (.implement firstBuilder someInterface))
  s.after (.build (.nested firstBuilder default "D" true))

/-- The first type lists its field, its nested type and its interface, and its builder still holds
after it was declared complete. -/
theorem definitions_in_order_firstSession :
    ∃ r, firstSession.module.types[0]? = some r ∧
      Enumerates r.fields firstSession.module.fields (·.declaring = 0) ∧ 0 ∈ r.fields ∧
      Enumerates r.nested firstSession.module.types (·.declaring = some 0) ∧ 1 ∈ r.nested ∧
      firstSession.hierarchy.interfaces r.handle = [someInterface] ∧
      (firstSession.after (.build (.complete firstBuilder))).module.Holds (.type firstBuilder) := by
  have hs := ((history_oneType.turn (.build (.field firstBuilder default "f" true false))
    (permits_firstBuilder rfl)).turn (.build (.implement firstBuilder someInterface))
    (permits_firstBuilder rfl)).turn (.build (.nested firstBuilder default "D" true))
    (permits_firstBuilder rfl)
  have hs' : History firstSession _ (firstSession.after (.build (.complete firstBuilder))) :=
    History.start.turn (.build (.complete firstBuilder)) (permits_firstBuilder rfl)
  obtain ⟨-, htypes, -, -, -, -, hholds, -⟩ := definitions_in_order hs hs'
  obtain ⟨-, hfields, -, -, hnested, -, hinterfaces⟩ := htypes 0 _ rfl
  refine ⟨_, rfl, hfields, ?_, hnested, ?_, hinterfaces ?_, hholds _ ?_⟩
  · exact Array.mem_of_getElem? (i := 0) rfl
  · exact Array.mem_of_getElem? (i := 0) rfl
  · rintro ⟨turn, hturn, t, i, h, -⟩
    simp only [List.nil_append, List.cons_append, List.mem_cons, List.not_mem_nil,
      or_false] at hturn
    rcases hturn with rfl | rfl | rfl | rfl <;> cases h
  · exact List.mem_cons_self

end MarkupLowering
