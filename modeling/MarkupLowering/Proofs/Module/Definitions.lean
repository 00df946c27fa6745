import MarkupLowering.Proofs.Emitter.Outcome
import MarkupLowering.Proofs.Import.Rows
import MarkupLowering.Proofs.Module.Sessions

/-!
# MarkupLowering.Proofs.Module.Definitions

**Rows of definitions stay where they are**, whatever builders and emitters do.

* `Module.KeepsDefinitions`: only the lists of a type's row grow, and only the body of a method's
  row is ever filled in.
* `Module.Holds`: the row behind a handle says what the handle says. What a builder returns holds
  (`BuildRequest.Granted.holds`), and goes on to hold (`Module.Holds.mono`).
-/

namespace MarkupLowering

/-! ### Changing one row -/

theorem map_modify {α β : Type} {g : α → β} {f : α → α} (f' : β → β)
    (h : ∀ a, g (f a) = f' (g a)) (xs : Array α) (i : Nat) :
    (xs.modify i f).map g = (xs.map g).modify i f' := by
  apply Array.ext_getElem?
  intro j
  rw [Array.getElem?_map, Array.getElem?_modify, Array.getElem?_modify, Array.getElem?_map]
  split
  · cases xs[j]? with
    | none => rfl
    | some a => exact congrArg some (h a)
  · rfl

/-- What a change to one row keeps is kept in all rows. -/
theorem map_modify_eq {α β : Type} {g : α → β} {f : α → α} (h : ∀ a, g (f a) = g a)
    (xs : Array α) (i : Nat) : (xs.modify i f).map g = xs.map g := by
  rw [map_modify id h]
  apply Array.ext_getElem?
  intro j
  simp [Array.getElem?_modify]

/-- Where images agree, there is an element with the image. -/
theorem getElem?_of_map_eq {α β : Type} {g : α → β} {xs ys : Array α} (h : ys.map g = xs.map g)
    {i : Nat} {a : α} (ha : xs[i]? = some a) : ∃ b, ys[i]? = some b ∧ g b = g a := by
  have hmap : ys[i]?.map g = some (g a) := by
    rw [← Array.getElem?_map, h, Array.getElem?_map, ha, Option.map_some]
  obtain ⟨b, hb, hgb⟩ := Option.map_eq_some_iff.mp hmap
  exact ⟨b, hb, hgb⟩

/-! ### Tables after a step -/

namespace Module

theorem types_modifyType (m : Module) (row : Nat) (f : TypeRow → TypeRow) :
    (m.modifyType row f).types = m.types.modify row f := rfl

theorem types_addField (m : Module) (row : FieldRow) :
    (m.addField row).2.types =
      m.types.modify row.declaring fun r => { r with fields := r.fields.push m.fields.size } := rfl

theorem types_addMethod (m : Module) (row : MethodRow) :
    (m.addMethod row).2.types =
      m.types.modify row.declaring fun r => { r with methods := r.methods.push m.methods.size } :=
  rfl

theorem types_addProperty (m : Module) (row : PropertyRow) :
    (m.addProperty row).2.types = m.types.modify row.declaring fun r =>
      { r with properties := r.properties.push m.properties.size } := rfl

theorem types_addInterface (m : Module) (row : Nat) (i : TypeRef) :
    (m.addInterface row i).types = m.types.modify row fun r =>
      { r with interfaces := Hierarchy.insertInterface i r.interfaces } := rfl

/-- Apart from the list of the type around it, a new type is a new row. -/
theorem types_addType (m : Module) (row : TypeRow) :
    (m.addType row).2.types =
      match row.declaring with
      | some o => (m.types.push row).modify o fun r =>
          { r with nested := r.nested.push m.types.size }
      | none => m.types.push row := by
  unfold addType
  dsimp only
  cases row.declaring <;> rfl

theorem map_addType {β : Type} {g : TypeRow → β} (hg : ∀ r nested, g { r with nested } = g r)
    (m : Module) (row : TypeRow) :
    (m.addType row).2.types.map g = (m.types.map g).push (g row) := by
  rw [types_addType, ← Array.map_push]
  split
  · exact map_modify_eq (fun r => hg r _) _ _
  · rfl

theorem handle_addType (m : Module) (row : TypeRow) :
    ∃ r, (m.addType row).2.types[m.types.size]? = some r ∧ r.handle = row.handle := by
  have hmap : ((m.addType row).2.types.map TypeRow.handle)[m.types.size]? = some row.handle := by
    rw [map_addType fun _ _ => rfl, Array.getElem?_push, Array.size_map, if_pos rfl]
  rw [Array.getElem?_map] at hmap
  exact Option.map_eq_some_iff.mp hmap

theorem fields_addField (m : Module) (row : FieldRow) :
    (m.addField row).2.fields = m.fields.push row := rfl

theorem properties_addProperty (m : Module) (row : PropertyRow) :
    (m.addProperty row).2.properties = m.properties.push row := rfl

theorem methods_setBody (m : Module) (row : Nat) (body : Body) :
    (m.setBody row body).methods =
      m.methods.modify row fun r => { r with body := some body } := rfl

theorem map_setBody {β : Type} {g : MethodRow → β} (hg : ∀ r body, g { r with body } = g r)
    (m : Module) (row : Nat) (body : Body) :
    (m.setBody row body).methods.map g = m.methods.map g := by
  rw [methods_setBody]
  exact map_modify_eq (fun r => hg r _) _ _

theorem fields_addType (m : Module) (row : TypeRow) : (m.addType row).2.fields = m.fields := by
  unfold addType
  dsimp only
  split <;> rfl

theorem properties_addType (m : Module) (row : TypeRow) :
    (m.addType row).2.properties = m.properties := by
  unfold addType
  dsimp only
  split <;> rfl

end Module

/-! ### Rows stay -/

/-- What stays of a type's row: all but its lists, and whether it is complete. -/
def TypeRow.header (r : TypeRow) : TypeRow :=
  { r with interfaces := [], fields := #[], methods := #[], properties := #[], nested := #[]
           created := false }

/-- What stays of a method's row: all but its body. -/
def MethodRow.signature (r : MethodRow) : MethodRow := { r with body := none }

namespace Module

/-- Rows stay where they are, and are what they were, but for the lists of types and the bodies of
methods. -/
structure KeepsDefinitions (m m' : Module) : Prop where
  id : m'.id = m.id
  core : m'.core = m.core
  types : ∀ (i : Nat) (r : TypeRow), m.types[i]? = some r →
    ∃ r', m'.types[i]? = some r' ∧ r'.header = r.header
  fields : ∀ (k : Nat) (r : FieldRow), m.fields[k]? = some r → m'.fields[k]? = some r
  methods : ∀ (k : Nat) (r : MethodRow), m.methods[k]? = some r →
    ∃ r', m'.methods[k]? = some r' ∧ r'.signature = r.signature
  properties : ∀ (k : Nat) (r : PropertyRow), m.properties[k]? = some r →
    m'.properties[k]? = some r

namespace KeepsDefinitions

variable {m m₁ m₂ : Module}

theorem refl (m : Module) : m.KeepsDefinitions m :=
  ⟨rfl, rfl, fun _ r h => ⟨r, h, rfl⟩, fun _ _ h => h, fun _ r h => ⟨r, h, rfl⟩, fun _ _ h => h⟩

theorem trans (h₁ : m.KeepsDefinitions m₁) (h₂ : m₁.KeepsDefinitions m₂) :
    m.KeepsDefinitions m₂ where
  id := h₂.id.trans h₁.id
  core := h₂.core.trans h₁.core
  types i r h := by
    obtain ⟨r₁, hr₁, heq₁⟩ := h₁.types i r h
    obtain ⟨r₂, hr₂, heq₂⟩ := h₂.types i r₁ hr₁
    exact ⟨r₂, hr₂, heq₂.trans heq₁⟩
  fields k r h := h₂.fields k r (h₁.fields k r h)
  methods k r h := by
    obtain ⟨r₁, hr₁, heq₁⟩ := h₁.methods k r h
    obtain ⟨r₂, hr₂, heq₂⟩ := h₂.methods k r₁ hr₁
    exact ⟨r₂, hr₂, heq₂.trans heq₁⟩
  properties k r h := h₂.properties k r (h₁.properties k r h)

/-- A step on imports and documents. -/
theorem of_sameRows (h : m.SameRows m₁) : m.KeepsDefinitions m₁ := by
  rw [h]
  exact { refl m with }

theorem modifyType (m : Module) (row : Nat) {f : TypeRow → TypeRow}
    (hf : ∀ r, (f r).header = r.header) : m.KeepsDefinitions (m.modifyType row f) :=
  { refl m with types := fun _ _ h => getElem?_of_map_eq (map_modify_eq hf m.types row) h }

theorem setBody (m : Module) (row : Nat) (body : Body) :
    m.KeepsDefinitions (m.setBody row body) :=
  { refl m with
    methods := fun _ _ h => getElem?_of_map_eq (map_setBody (fun _ _ => rfl) m row body) h }

theorem addType (m : Module) (row : TypeRow) : m.KeepsDefinitions (m.addType row).2 := by
  have hpush : m.KeepsDefinitions
      { (m.importing fun unit => ImportTables.importType? unit row.base).2 with
        types := m.types.push row } :=
    { refl m with types := fun _ r h => ⟨r, ImportTables.getElem?_push_of_some h, rfl⟩ }
  unfold Module.addType
  dsimp only
  split
  · exact hpush.trans (modifyType _ _ fun _ => rfl)
  · exact hpush

theorem addField (m : Module) (row : FieldRow) : m.KeepsDefinitions (m.addField row).2 := by
  refine trans ?_ (modifyType { (m.importType row.type).2 with fields := m.fields.push row }
    row.declaring fun _ => rfl)
  exact { refl m with fields := fun _ _ h => ImportTables.getElem?_push_of_some h }

theorem addMethod (m : Module) (row : MethodRow) : m.KeepsDefinitions (m.addMethod row).2 := by
  have hpush : m.KeepsDefinitions
      { m with methods := m.methods.push row, imports := (m.addMethod row).2.imports } :=
    { refl m with methods := fun _ r h => ⟨r, ImportTables.getElem?_push_of_some h, rfl⟩ }
  exact hpush.trans (modifyType _ row.declaring fun _ => rfl)

theorem addProperty (m : Module) (row : PropertyRow) :
    m.KeepsDefinitions (m.addProperty row).2 := by
  refine trans ?_ (modifyType { (m.importType row.type).2 with
    properties := m.properties.push row } row.declaring fun _ => rfl)
  exact { refl m with properties := fun _ _ h => ImportTables.getElem?_push_of_some h }

theorem addInterface (m : Module) (row : Nat) (i : TypeRef) :
    m.KeepsDefinitions (m.addInterface row i) := by
  have himport : m.KeepsDefinitions (m.importType i).2 := of_sameRows rfl
  exact himport.trans (modifyType _ row fun _ => rfl)

end KeepsDefinitions

end Module

/-- Builders keep the rows that are there. -/
theorem BuildRequest.Granted.keepsDefinitions {r : BuildRequest} {s s' : Construction}
    {g : Option Handle} (h : r.Granted s g s') : s.module.KeepsDefinitions s'.module := by
  cases h with
  | type _ hadd =>
    obtain ⟨row, hmodule, -⟩ := Construction.addType_inv hadd
    rw [hmodule]
    exact .addType _ row
  | complete _ => exact .modifyType _ _ fun _ => rfl
  | field row _ _ => exact .addField _ row
  | method row _ _ _ _ => exact .addMethod _ row
  | constructor row _ _ _ _ _ _ => exact .addMethod _ row
  | property row _ _ => exact .addProperty _ row
  | implement i _ _ => exact .addInterface _ _ i

/-- Rows stay, whatever is done. -/
theorem Session.Changes.keepsDefinitions {s s' : Session} {a : Action} (h : s.Changes a s') :
    s.module.KeepsDefinitions s'.module := by
  cases h with
  | built hgrant => exact hgrant.keepsDefinitions
  | requested _ hr => exact .of_sameRows (Request.sameRows hr)
  | @finished _ e _ _ hm =>
    obtain ⟨body, -, rfl⟩ := Emitter.finish_inv hm
    exact .setBody s.module e.row body
  | imported i => exact .of_sameRows rfl
  | documented file => exact .of_sameRows rfl
  | idle | opened _ | closed _ _ | allotted _ | extended _ _ => exact .refl _

theorem History.keepsDefinitions {s₀ s : Session} {log : List Turn} (h : History s₀ log s) :
    s₀.module.KeepsDefinitions s.module :=
  h.keeps (P := fun s => s₀.module.KeepsDefinitions s.module)
    (fun _ _ _ hs _ hchange => hs.trans hchange.keepsDefinitions) (.refl _)

theorem History.module_id {h : Hierarchy} {id : Nat} {name : String} {core : CoreTypes}
    {log : List Turn} {s : Session} (hs : History (.start h id name core) log s) :
    s.module.id = id := hs.keepsDefinitions.id

/-! ### Handles of new types -/

/-- The row of a new type. -/
def Construction.typeRow (s : Construction) (namespaceName name : String) (base : Option TypeRef)
    (attributes : TypeAttributes) (visibility : Visibility) (outer : Option TypeBuilder) :
    TypeRow where
  handle := .named (.ofString (qualify namespaceName name outer))
    (if attributes.contains .interfaceType then .interfaceType else .classType)
    (.construction s.module.id s.module.types.size) false
    (baseOf s.module.core base (attributes.contains .interfaceType))
    (outer.map TypeBuilder.type) s.hierarchy.lists.size
  namespaceName := if outer.isSome then "" else namespaceName
  name := name
  attributes := attributes
  visibility := visibility
  base := baseOf s.module.core base (attributes.contains .interfaceType)
  declaring := outer.map TypeBuilder.row

theorem Construction.addType_row {namespaceName name : String} {base : Option TypeRef}
    {attributes : TypeAttributes} {visibility : Visibility} {outer : Option TypeBuilder}
    {s s' : Construction} {b : TypeBuilder}
    (h : addType namespaceName name base attributes visibility outer s = .ok b s') :
    let row := s.typeRow namespaceName name base attributes visibility outer
    b = ⟨s.module.types.size, row.handle⟩ ∧
      s' = ⟨s.hierarchy.allot [], (s.module.addType row).2⟩ := by
  unfold addType at h
  split at h
  · cases h
  · cases h
    exact ⟨rfl, rfl⟩

/-! ### Handles -/

/-- There is a row behind the handle, and it says what the handle says. -/
def Module.Holds (m : Module) : Handle → Prop
  | .type b => ∃ r, m.types[b.row]? = some r ∧ r.handle = b.type
  | .field f => ∃ (k : Nat) (row : FieldRow) (owner : TypeRow), m.fields[k]? = some row ∧
      m.types[row.declaring]? = some owner ∧ f = row.ref owner.handle ⟨m.id, k⟩
  | .method f => ∃ (k : Nat) (row : MethodRow) (owner : TypeRow), m.methods[k]? = some row ∧
      m.types[row.declaring]? = some owner ∧ row.isConstructor = false ∧
      f = row.ref owner.handle ⟨m.id, k⟩
  | .constructor c => ∃ (k : Nat) (row : MethodRow) (owner : TypeRow), m.methods[k]? = some row ∧
      m.types[row.declaring]? = some owner ∧ row.isConstructor = true ∧ row.name = c.name ∧
      row.returns = m.core.void ∧ c = row.constructorRef owner.handle ⟨m.id, k⟩
  | .property p => ∃ (k : Nat) (row : PropertyRow) (owner : TypeRow), m.properties[k]? = some row ∧
      m.types[row.declaring]? = some owner ∧ p = row.ref owner.handle ⟨m.id, k⟩

namespace Module

variable {m m' : Module}

/-- The type that declares a row is still there, with its handle. -/
theorem KeepsDefinitions.owner (hkeeps : m.KeepsDefinitions m') {i : Nat} {owner : TypeRow}
    (h : m.types[i]? = some owner) :
    ∃ owner', m'.types[i]? = some owner' ∧ owner'.handle = owner.handle := by
  obtain ⟨owner', howner', hheader⟩ := hkeeps.types i owner h
  exact ⟨owner', howner', (congrArg TypeRow.handle hheader :)⟩

/-- A method is still there, and so is the type that declares it. -/
theorem KeepsDefinitions.method (hkeeps : m.KeepsDefinitions m') {k : Nat} {row : MethodRow}
    {owner : TypeRow} (hrow : m.methods[k]? = some row)
    (howner : m.types[row.declaring]? = some owner) :
    ∃ row' owner', m'.methods[k]? = some row' ∧ m'.types[row'.declaring]? = some owner' ∧
      row'.signature = row.signature ∧ owner'.handle = owner.handle := by
  obtain ⟨row', hrow', hsame⟩ := hkeeps.methods k row hrow
  obtain ⟨owner', howner', heq⟩ := hkeeps.owner howner
  have hdeclaring : row'.declaring = row.declaring := (congrArg MethodRow.declaring hsame :)
  exact ⟨row', owner', hrow', by rw [hdeclaring, howner'], hsame, heq⟩

/-- Handles hold for good. -/
theorem Holds.mono (hkeeps : m.KeepsDefinitions m') {g : Handle} (h : m.Holds g) : m'.Holds g := by
  cases g with
  | type b =>
    obtain ⟨r, hr, hhandle⟩ := h
    obtain ⟨r', hr', heq⟩ := hkeeps.owner hr
    exact ⟨r', hr', heq.trans hhandle⟩
  | field f =>
    obtain ⟨k, row, owner, hrow, howner, rfl⟩ := h
    obtain ⟨owner', howner', heq⟩ := hkeeps.owner howner
    refine ⟨k, row, owner', hkeeps.fields k row hrow, howner', ?_⟩
    rw [heq, hkeeps.id]
  | method f =>
    obtain ⟨k, row, owner, hrow, howner, hkind, rfl⟩ := h
    obtain ⟨row', owner', hrow', howner', hsame, heq⟩ := hkeeps.method hrow howner
    refine ⟨k, row', owner', hrow', howner', ?_, ?_⟩
    · exact (congrArg MethodRow.isConstructor hsame :).trans hkind
    · rw [heq, hkeeps.id]
      exact (congrArg (MethodRow.ref · owner.handle ⟨m.id, k⟩) hsame.symm :)
  | constructor c =>
    obtain ⟨k, row, owner, hrow, howner, hkind, hname, hreturns, rfl⟩ := h
    obtain ⟨row', owner', hrow', howner', hsame, heq⟩ := hkeeps.method hrow howner
    refine ⟨k, row', owner', hrow', howner', ?_, ?_, ?_, ?_⟩
    · exact (congrArg MethodRow.isConstructor hsame :).trans hkind
    · exact (congrArg MethodRow.name hsame :).trans hname
    · rw [hkeeps.core]
      exact (congrArg MethodRow.returns hsame :).trans hreturns
    · rw [heq, hkeeps.id]
      exact (congrArg (MethodRow.constructorRef · owner.handle ⟨m.id, k⟩) hsame.symm :)
  | property p =>
    obtain ⟨k, row, owner, hrow, howner, rfl⟩ := h
    obtain ⟨owner', howner', heq⟩ := hkeeps.owner howner
    refine ⟨k, row, owner', hkeeps.properties k row hrow, howner', ?_⟩
    rw [heq, hkeeps.id]

end Module

/-- What a builder returns holds. -/
theorem BuildRequest.Granted.holds {r : BuildRequest} {s s' : Construction} {g : Handle}
    (h : r.Granted s (some g) s') (hbuilder : ∀ b, r.builder? = some b → s.module.Holds (.type b)) :
    s'.module.Holds g := by
  have hkeeps := h.keepsDefinitions
  cases h with
  | type _ hadd =>
    obtain ⟨rfl, rfl⟩ := Construction.addType_row hadd
    exact Module.handle_addType _ _
  | complete hb => exact (hbuilder _ hb).mono hkeeps
  | field row hb hrow =>
    obtain ⟨owner, howner, hhandle⟩ := (hbuilder _ hb).mono hkeeps
    refine ⟨_, row, owner, Array.getElem?_push_size, ?_, ?_⟩
    · rw [hrow, howner]
    · rw [hhandle, hkeeps.id]
  | method row hb hrow _ hkind =>
    obtain ⟨owner, howner, hhandle⟩ := (hbuilder _ hb).mono hkeeps
    refine ⟨_, row, owner, Array.getElem?_push_size, ?_, hkind, ?_⟩
    · rw [hrow, howner]
    · rw [hhandle, hkeeps.id]
  | constructor row hb hrow _ hkind hname hreturns =>
    obtain ⟨owner, howner, hhandle⟩ := (hbuilder _ hb).mono hkeeps
    refine ⟨_, row, owner, Array.getElem?_push_size, ?_, hkind, hname, hreturns, ?_⟩
    · rw [hrow, howner]
    · rw [hhandle, hkeeps.id]
  | property row hb hrow =>
    obtain ⟨owner, howner, hhandle⟩ := (hbuilder _ hb).mono hkeeps
    refine ⟨_, row, owner, Array.getElem?_push_size, ?_, ?_⟩
    · rw [hrow, howner]
    · rw [hhandle, hkeeps.id]

end MarkupLowering
