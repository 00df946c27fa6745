import MarkupLowering.Attributes
import MarkupLowering.TypeRef.Basic

/-!
# MarkupLowering.Member

Handles to **fields, methods, constructors and properties**.

A member of a module under construction knows its row there (`Definition`); apart from that it
reads like a member of a finished assembly. Equality of handles (`==`) is equality of identities,
and an identity covers less than a handle holds: a field's type, a method's return type, the
attributes and the definition are not part of it.
-/

namespace MarkupLowering

/-- The row of a member in a module under construction. -/
structure Definition where
  unit : Nat
  row : Nat
  deriving DecidableEq, Inhabited

/-! ### Fields -/

/-- A handle to a field. -/
structure FieldRef where
  declaring : TypeRef
  name : Ident
  type : TypeRef
  attributes : FieldAttributes
  definition : Option Definition
  deriving Inhabited

namespace FieldRef

def isStatic (f : FieldRef) : Bool := f.attributes.contains .staticMember

def isPublic (f : FieldRef) : Bool := f.attributes.contains .publicAccess

def identity (f : FieldRef) : Identity := .ofField f.declaring.identity f.name

/-- Owner and name. -/
def render (f : FieldRef) : String := f.declaring.fullName ++ "::" ++ f.name.text

instance : BEq FieldRef := ⟨fun a b => a.identity == b.identity⟩

end FieldRef

/-! ### Methods -/

/-- A handle to a method. -/
structure MethodRef where
  declaring : TypeRef
  name : Ident
  returns : TypeRef
  params : List TypeRef
  attributes : MethodAttributes
  definition : Option Definition
  deriving Inhabited

namespace MethodRef

def isStatic (m : MethodRef) : Bool := m.attributes.contains .staticMember

def isVirtual (m : MethodRef) : Bool := m.attributes.contains .virtualMember

def isPublic (m : MethodRef) : Bool := m.attributes.contains .publicAccess

def identity (m : MethodRef) : Identity :=
  .ofMethod m.declaring.identity m.name (m.params.map TypeRef.identity)

/-- Owner, name and parameter types. -/
def render (m : MethodRef) : String :=
  m.declaring.fullName ++ "::" ++ m.name.text ++ "(" ++
    String.intercalate ", " (m.params.map TypeRef.fullName) ++ ")"

instance : BEq MethodRef := ⟨fun a b => a.identity == b.identity⟩

end MethodRef

/-! ### Constructors -/

/-- A handle to a constructor, or to the initializer of a type (`isStatic`). -/
structure ConstructorRef where
  declaring : TypeRef
  params : List TypeRef
  isStatic : Bool
  definition : Option Definition
  deriving Inhabited

namespace ConstructorRef

/-- The name that constructors have. -/
def nameOf (isStatic : Bool) : String := if isStatic then ".cctor" else ".ctor"

def name (c : ConstructorRef) : String := nameOf c.isStatic

def identity (c : ConstructorRef) : Identity :=
  .ofConstructor c.declaring.identity (c.params.map TypeRef.identity) c.isStatic

/-- Owner and name. -/
def render (c : ConstructorRef) : String := c.declaring.fullName ++ "::" ++ c.name

instance : BEq ConstructorRef := ⟨fun a b => a.identity == b.identity⟩

end ConstructorRef

/-! ### Properties -/

/-- A handle to a property and its accessors. -/
structure PropertyRef where
  declaring : TypeRef
  name : Ident
  type : TypeRef
  getter : Option MethodRef
  setter : Option MethodRef
  definition : Option Definition
  deriving Inhabited

namespace PropertyRef

def identity (p : PropertyRef) : Identity := .ofProperty p.declaring.identity p.name

instance : BEq PropertyRef := ⟨fun a b => a.identity == b.identity⟩

end PropertyRef

/-! ### Owners of bodies -/

/-- What has a body: a method or a constructor. -/
inductive BodyOwner
  | method (m : MethodRef)
  | constructor (c : ConstructorRef)
  deriving Inhabited

namespace BodyOwner

def definition : BodyOwner → Option Definition
  | .method m => m.definition
  | .constructor c => c.definition

def render : BodyOwner → String
  | .method m => m.render
  | .constructor c => c.render

end BodyOwner

end MarkupLowering
