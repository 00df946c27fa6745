import MarkupLowering.Module.Basic

/-!
# MarkupLowering.Module.Builder

**Defining types and members.** A `TypeBuilder` names a type row of a module under construction;
its operations add members to the row and return ordinary handles to them.

The operations run on a `Construction`: the module and the hierarchy that knows the interface
lists of all types. An operation that fails says why and changes nothing.
-/

namespace MarkupLowering

/-- A module under construction and the hierarchy its types live in. -/
structure Construction where
  hierarchy : Hierarchy
  module : Module
  deriving Inhabited

/-- A step of construction. State that a failing step has changed stays changed. -/
abbrev BuildM := EStateM EmitError Construction

/-- A type row under construction. -/
structure TypeBuilder where
  row : Nat
  type : TypeRef
  deriving Inhabited

/-- What a method to be defined looks like. -/
structure MethodDecl where
  name : String
  returns : TypeRef
  params : List TypeRef := []
  isPublic : Bool := false
  isStatic : Bool := false
  /-- Whether the method implements an interface method, for which it gets a slot of its own. -/
  isInterfaceImpl : Bool := false
  overrides : Option MethodRef := none

/-- The attributes that a declaration implies. -/
def MethodDecl.attributes (d : MethodDecl) : MethodAttributes :=
  let access : MethodAttributes := if d.isPublic then .publicAccess else .privateAccess
  let access := if d.isStatic then access ||| .staticMember else access
  if d.isInterfaceImpl then access ||| .newSlot ||| .virtualMember else access

/-- Attributes of a field. -/
def fieldAttributes (isPublic isStatic : Bool) : FieldAttributes :=
  let access : FieldAttributes := if isPublic then .publicAccess else .privateAccess
  if isStatic then access ||| .staticMember else access

/-- Attributes of a constructor; constructors of objects are public. -/
def constructorAttributes (isStatic : Bool) : MethodAttributes :=
  .hideBySig ||| .specialName ||| .runtimeSpecialName |||
    (if isStatic then .staticMember else .publicAccess)

namespace Construction

/-- Applies a step that only concerns the module. -/
def onModule {α : Type} (f : Module → α × Module) : BuildM α := fun s =>
  let (a, m) := f s.module
  .ok a { s with module := m }

/-- Fails because the module cannot hold a definition. -/
def reject {α : Type} (fault : DefinitionFault) : BuildM α := throw (.invalidDefinition fault)

/-! ### Types -/

/-- The full name of a type: nested types extend the name of the type around them. -/
def qualify (namespaceName name : String) (outer : Option TypeBuilder) : String :=
  match outer with
  | some b => b.type.fullName ++ "+" ++ name
  | none => if namespaceName.isEmpty then name else namespaceName ++ "." ++ name

/-- The base of a new type: the root type if none is given, but interfaces need none. -/
def baseOf (core : CoreTypes) (base : Option TypeRef) (isInterface : Bool) : Option TypeRef :=
  match base with
  | some b => some b
  | none => if isInterface then none else some core.object

/-- Adds a type row and makes the handle that goes with it. -/
def addType (namespaceName name : String) (base : Option TypeRef) (attributes : TypeAttributes)
    (visibility : Visibility) (outer : Option TypeBuilder) : BuildM TypeBuilder := fun s =>
  if name.isEmpty then .error (.invalidDefinition .unnamedType) s
  else
    let isInterface := attributes.contains .interfaceType
    let base := baseOf s.module.core base isInterface
    let (handle, hierarchy) := s.hierarchy.declareType
      { fullName := qualify namespaceName name outer
        kind := if isInterface then .interfaceType else .classType
        origin := .construction s.module.id s.module.types.size
        base
        declaring := outer.map TypeBuilder.type
        interfaces := [] }
    let (row, module) := s.module.addType
      { handle
        namespaceName := if outer.isSome then "" else namespaceName
        name, attributes, visibility, base
        declaring := outer.map TypeBuilder.row }
    .ok ⟨row, handle⟩ { hierarchy, module }

/-- Defines a type that is nested in no other. -/
def defineType (namespaceName name : String) (base : Option TypeRef)
    (attributes : TypeAttributes) (visibility : Visibility) : BuildM TypeBuilder :=
  if visibility.isNested then reject (.nestedVisibility name visibility)
  else addType namespaceName name base attributes visibility none

end Construction

namespace TypeBuilder

open Construction

/-- Defines a type nested in this one. -/
def defineNested (b : TypeBuilder) (base : TypeRef) (name : String) (isPublic : Bool) :
    BuildM TypeBuilder :=
  addType "" name (some base) .none (if isPublic then .nestedPublic else .nestedPrivate) (some b)

/-- Declares the type complete. -/
def complete (b : TypeBuilder) : BuildM TypeRef := do
  onModule fun m => ((), m.modifyType b.row fun r => { r with created := true })
  pure b.type

/-! ### Members -/

/-- The definition of a member at a row of the module. -/
def definitionAt (row : Nat) : BuildM (Option Definition) := do
  pure (some ⟨(← get).module.id, row⟩)

/-- Fails if a member of the given kind has no name. -/
def checkName (b : TypeBuilder) (kind name : String) : BuildM Unit :=
  if name.isEmpty then reject (.unnamedMember kind b.type.fullName) else pure ()

/-- Defines a field. -/
def defineField (b : TypeBuilder) (type : TypeRef) (name : String) (isPublic isStatic : Bool) :
    BuildM FieldRef := do
  b.checkName "field" name
  let attributes := fieldAttributes isPublic isStatic
  let row ← onModule (·.addField { declaring := b.row, name, type, attributes })
  pure { declaring := b.type, name := .ofString name, type, attributes,
         definition := ← definitionAt row }

/-- Defines a method. -/
def defineMethod (b : TypeBuilder) (d : MethodDecl) : BuildM MethodRef := do
  b.checkName "method" d.name
  let row ← onModule (·.addMethod
    { declaring := b.row, name := d.name, returns := d.returns, params := d.params
      attributes := d.attributes, overrides := d.overrides.toList, isConstructor := false })
  pure { declaring := b.type, name := .ofString d.name, returns := d.returns, params := d.params,
         attributes := d.attributes, definition := ← definitionAt row }

/-- Fails if an accessor is declared on another type. -/
def checkAccessor (b : TypeBuilder) (property : String) : Option MethodRef → BuildM Unit
  | none => pure ()
  | some accessor =>
    if accessor.declaring == b.type then pure ()
    else reject (.foreignAccessor accessor.render property b.type.fullName)

/-- Defines a property. -/
def defineProperty (b : TypeBuilder) (type : TypeRef) (name : String)
    (setter getter : Option MethodRef) : BuildM PropertyRef := do
  b.checkName "property" name
  b.checkAccessor name setter
  b.checkAccessor name getter
  let row ← onModule (·.addProperty { declaring := b.row, name, type, getter, setter })
  pure { declaring := b.type, name := .ofString name, type, getter, setter,
         definition := ← definitionAt row }

/-- Defines a constructor, or the initializer of the type, which takes no parameters. -/
def defineConstructor (b : TypeBuilder) (isStatic : Bool) (params : List TypeRef) :
    BuildM ConstructorRef :=
  if isStatic && !params.isEmpty then reject (.initializerParameters b.type.fullName)
  else do
    let row ← onModule fun m => m.addMethod
      { declaring := b.row, name := ConstructorRef.nameOf isStatic, returns := m.core.void, params
        attributes := constructorAttributes isStatic, overrides := [], isConstructor := true }
    pure { declaring := b.type, params, isStatic, definition := ← definitionAt row }

/-- Records that the type implements an interface, in its row and for every handle to it. -/
def implement (b : TypeBuilder) (i : TypeRef) : BuildM Unit :=
  if i.isInterface then do
    onModule fun m => ((), m.addInterface b.row i)
    modify fun s => { s with hierarchy := s.hierarchy.addInterface b.type i }
  else reject (.notAnInterface i.fullName)

end TypeBuilder

end MarkupLowering
