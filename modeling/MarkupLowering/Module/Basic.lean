import MarkupLowering.Body.Basic
import MarkupLowering.Error
import MarkupLowering.Hierarchy
import MarkupLowering.Import.Tables

/-!
# MarkupLowering.Module.Basic

A **module under construction**: its definition tables, its import tables and its debug
documents. Rows of the tables refer to each other by index, and rows are only ever added.
-/

namespace MarkupLowering

/-! ### Definition rows -/

/-- A type of the module. -/
structure TypeRow where
  handle : TypeRef
  namespaceName : String
  name : String
  attributes : TypeAttributes
  visibility : Visibility
  base : Option TypeRef
  /-- The row of the type that this one is nested in. -/
  declaring : Option Nat
  interfaces : List TypeRef := []
  fields : Array Nat := #[]
  methods : Array Nat := #[]
  properties : Array Nat := #[]
  nested : Array Nat := #[]
  /-- Whether the type was declared complete. -/
  created : Bool := false
  deriving Inhabited

/-- A field of the module. -/
structure FieldRow where
  declaring : Nat
  name : String
  type : TypeRef
  attributes : FieldAttributes
  deriving Inhabited

/-- A method or constructor of the module. -/
structure MethodRow where
  declaring : Nat
  name : String
  returns : TypeRef
  params : List TypeRef
  attributes : MethodAttributes
  /-- The methods that this one overrides explicitly. -/
  overrides : List MethodRef
  isConstructor : Bool
  body : Option Body := none
  deriving Inhabited

def MethodRow.isStatic (m : MethodRow) : Bool := m.attributes.contains .staticMember

/-- A property of the module. -/
structure PropertyRow where
  declaring : Nat
  name : String
  type : TypeRef
  getter : Option MethodRef
  setter : Option MethodRef
  deriving Inhabited

/-! ### Modules -/

/-- A module under construction. -/
structure Module where
  /-- The number that tells the module from all others. -/
  id : Nat
  name : String
  core : CoreTypes
  types : Array TypeRow := #[]
  fields : Array FieldRow := #[]
  methods : Array MethodRow := #[]
  properties : Array PropertyRow := #[]
  imports : ImportTables := .empty
  documents : DocumentCache := .empty
  deriving Inhabited

namespace Module

/-- A module without definitions. -/
def new (id : Nat) (name : String) (core : CoreTypes) : Module := { id, name, core }

/-! ### Imports -/

/-- Runs an import step, which sees the module's number, on the import tables. -/
def importing {α : Type} (m : Module) (step : Nat → ImportM α) : α × Module :=
  let unit := m.id
  let (a, imports) := step unit m.imports
  (a, { m with imports })

/-- The token of a type. -/
def importType (m : Module) (t : TypeRef) : Token × Module :=
  m.importing fun unit => ImportTables.importType unit t

/-- The token of a field. -/
def importField (m : Module) (f : FieldRef) : Token × Module :=
  m.importing fun unit => ImportTables.importField unit f

/-- The token of a method. -/
def importMethod (m : Module) (r : MethodRef) : Token × Module :=
  m.importing fun unit => ImportTables.importMethod unit r

/-- The token of a constructor. -/
def importConstructor (m : Module) (c : ConstructorRef) : Token × Module :=
  m.importing fun unit => ImportTables.importConstructor unit c

/-- The token of a string literal. -/
def internString (m : Module) (text : String) : Token × Module :=
  m.importing fun _ => ImportTables.internString text

/-- The document of a file. -/
def document (m : Module) (file : SourceFile) : Document × Module :=
  let (d, documents) := m.documents.findOrCreate file
  (d, { m with documents })

/-! ### Adding rows -/

/-- Changes one row of the type table. -/
def modifyType (m : Module) (row : Nat) (f : TypeRow → TypeRow) : Module :=
  { m with types := m.types.modify row f }

/-- Imports what a type row mentions and appends the row. -/
def addType (m : Module) (row : TypeRow) : Nat × Module :=
  let index := m.types.size
  let (_, m) := m.importing fun unit => ImportTables.importType? unit row.base
  let m := { m with types := m.types.push row }
  (index, match row.declaring with
    | some outer => m.modifyType outer fun r => { r with nested := r.nested.push index }
    | none => m)

/-- Imports what a field row mentions and appends the row. -/
def addField (m : Module) (row : FieldRow) : Nat × Module :=
  let index := m.fields.size
  let (_, m) := m.importType row.type
  let m := { m with fields := m.fields.push row }
  (index, m.modifyType row.declaring fun r => { r with fields := r.fields.push index })

/-- Imports methods in order. -/
def importMethods (unit : Nat) : List MethodRef → ImportM Unit
  | [] => pure ()
  | r :: rs => do
    let _ ← ImportTables.importMethod unit r
    importMethods unit rs

/-- Imports what a method row mentions and appends the row. -/
def addMethod (m : Module) (row : MethodRow) : Nat × Module :=
  let index := m.methods.size
  let (_, m) := m.importing fun unit => do
    let _ ← ImportTables.importType unit row.returns
    let _ ← ImportTables.importTypes unit row.params
    importMethods unit row.overrides
  let m := { m with methods := m.methods.push row }
  (index, m.modifyType row.declaring fun r => { r with methods := r.methods.push index })

/-- Imports the type of a property row and appends the row. Accessors are methods of the same
module. -/
def addProperty (m : Module) (row : PropertyRow) : Nat × Module :=
  let index := m.properties.size
  let (_, m) := m.importType row.type
  let m := { m with properties := m.properties.push row }
  (index, m.modifyType row.declaring fun r => { r with properties := r.properties.push index })

/-- Imports an interface and records it in a type's row, once. -/
def addInterface (m : Module) (row : Nat) (i : TypeRef) : Module :=
  let (_, m) := m.importType i
  m.modifyType row fun r => { r with interfaces := Hierarchy.insertInterface i r.interfaces }

/-! ### Bodies -/

/-- The row of a method or constructor that the module defines. -/
def ownRow (m : Module) (owner : BodyOwner) : Except EmitError Nat :=
  match ImportTables.rowIn? m.id owner.definition with
  | some row => .ok row
  | none => .error (.foreignMember owner.render m.name)

/-- The method row behind a handle. -/
def methodRow? (m : Module) (owner : BodyOwner) : Option MethodRow := do
  let row ← (m.ownRow owner).toOption
  m.methods[row]?

/-- The body of a method or constructor. -/
def body? (m : Module) (owner : BodyOwner) : Option Body :=
  m.methodRow? owner >>= MethodRow.body

/-- Whether two methods or constructors have the same body, or both none. -/
def sameBody (m : Module) (a b : BodyOwner) : Bool :=
  match m.body? a, m.body? b with
  | none, none => true
  | some a, some b => a.same b
  | _, _ => false

/-- Gives a method its body. -/
def setBody (m : Module) (row : Nat) (body : Body) : Module :=
  { m with methods := m.methods.modify row fun r => { r with body := some body } }

end Module

end MarkupLowering
