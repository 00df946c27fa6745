import MarkupLowering.Identity

/-!
# MarkupLowering.TypeRef.Basic

**Type handles**: types of finished assemblies, types of a module under construction, and
instances of generic types read the same.

Design points:

* A handle is a plain value. What may still change about a type, its list of implemented
  interfaces, is not part of the handle but kept by the `Hierarchy` under the handle's `id`.
* A generic instance stores its definition and arguments only. Kind, origin, base and declaring
  type are the definition's; the full name and the identity are computed.
* Equality of handles (`==`) is equality of identities. Handles with different `id` may be equal.
-/

namespace MarkupLowering

/-- What values of a type are. -/
inductive TypeKind
  /-- References to objects. -/
  | classType
  /-- Values held in place; they are boxed to be seen as objects. -/
  | valueType
  | interfaceType
  deriving DecidableEq, Inhabited

/-- The name of a kind of type. -/
def TypeKind.name : TypeKind → String
  | .classType => "Class"
  | .valueType => "ValueType"
  | .interfaceType => "Interface"

/-- Where a type is defined. -/
inductive Origin
  /-- In a finished assembly. -/
  | assembly (name : String)
  /-- In a module under construction, at a row of its type table. -/
  | construction (unit : Nat) (row : Nat)
  deriving DecidableEq, Inhabited

/-- A handle to a type. -/
inductive TypeRef
  /-- A type that is known by its full name. The root type, of which there should be one, is the
  type that every value has. -/
  | named (name : Ident) (kind : TypeKind) (origin : Origin) (isRoot : Bool)
      (base : Option TypeRef) (declaring : Option TypeRef) (id : Nat)
  /-- An instance of a generic type. -/
  | generic (definition : TypeRef) (arguments : List TypeRef) (id : Nat)

namespace TypeRef

instance : Inhabited TypeRef := ⟨.named default default default false none none 0⟩

/-! ### Parts -/

/-- The key of the type's interface list. -/
def id : TypeRef → Nat
  | .named _ _ _ _ _ _ id => id
  | .generic _ _ id => id

def kind : TypeRef → TypeKind
  | .named _ kind _ _ _ _ _ => kind
  | .generic definition _ _ => definition.kind

def origin : TypeRef → Origin
  | .named _ _ origin _ _ _ _ => origin
  | .generic definition _ _ => definition.origin

/-- Whether the type is the root of the hierarchy. An instance never is. -/
def isRoot : TypeRef → Bool
  | .named _ _ _ isRoot _ _ _ => isRoot
  | .generic _ _ _ => false

/-- The type that this one derives from. -/
def base : TypeRef → Option TypeRef
  | .named _ _ _ _ base _ _ => base
  | .generic definition _ _ => definition.base

/-- The type that this one is nested in. -/
def declaring : TypeRef → Option TypeRef
  | .named _ _ _ _ _ declaring _ => declaring
  | .generic definition _ _ => definition.declaring

/-- The generic type that this one is an instance of. -/
def definition? : TypeRef → Option TypeRef
  | .named .. => none
  | .generic definition _ _ => some definition

/-- The arguments of a generic instance. -/
def arguments : TypeRef → List TypeRef
  | .named .. => []
  | .generic _ arguments _ => arguments

def isGeneric (t : TypeRef) : Bool := t.definition?.isSome

def isValueType (t : TypeRef) : Bool := t.kind == .valueType

def isInterface (t : TypeRef) : Bool := t.kind == .interfaceType

/-- The module under construction that the type belongs to. -/
def unit? (t : TypeRef) : Option Nat :=
  match t.origin with
  | .construction unit _ => some unit
  | .assembly _ => none

/-- The types that this one derives from, the nearest first. -/
def bases : TypeRef → List TypeRef
  | .named _ _ _ _ none _ _ => []
  | .named _ _ _ _ (some base) _ _ => base :: base.bases
  | .generic definition _ _ => definition.bases

/-! ### Identity -/

mutual

/-- The identity of a type: of its name, or of its definition and arguments. -/
def identity : TypeRef → Identity
  | .named name _ _ _ _ _ _ => Identity.ofName name
  | .generic definition arguments _ =>
      Identity.ofInstance definition.identity (identities arguments)

/-- The identities of a list of types. -/
def identities : List TypeRef → List Identity
  | [] => []
  | t :: ts => t.identity :: identities ts

end

@[simp] theorem identities_eq_map (ts : List TypeRef) : identities ts = ts.map identity := by
  induction ts with
  | nil => rfl
  | cons t ts ih => simp [identities, ih]

/-- Types are equal when their identities are. -/
instance : BEq TypeRef := ⟨fun a b => a.identity == b.identity⟩

theorem beq_def (a b : TypeRef) : (a == b) = (a.identity == b.identity) := rfl

@[simp] theorem beq_iff {a b : TypeRef} : (a == b) = true ↔ a.identity = b.identity := by
  simp [beq_def]

instance : EquivBEq TypeRef where
  rfl := by simp
  symm h := by simp_all
  trans h₁ h₂ := by simp_all

instance : Hashable TypeRef := ⟨fun t => hash t.identity⟩

instance : LawfulHashable TypeRef where
  hash_eq a b h := by simp_all [hash]

/-! ### Names -/

mutual

/-- The full name: of an instance, its definition's name and the arguments in angle brackets. -/
def fullName : TypeRef → String
  | .named name _ _ _ _ _ _ => name.text
  | .generic definition arguments _ =>
    definition.fullName ++ "<" ++ String.intercalate "," (fullNames arguments) ++ ">"

/-- The full names of a list of types. -/
def fullNames : List TypeRef → List String
  | [] => []
  | t :: ts => t.fullName :: fullNames ts

end

@[simp] theorem fullNames_eq_map (ts : List TypeRef) : fullNames ts = ts.map fullName := by
  induction ts with
  | nil => rfl
  | cons t ts ih => simp [fullNames, ih]

/-- The part of a full name before its arguments. -/
def beforeArguments (name : List Char) : List Char := name.takeWhile (· != '<')

/-- What follows the last character that satisfies `p`; all of the text if none does. -/
def afterLast (p : Char → Bool) (text : List Char) : List Char :=
  (text.reverse.takeWhile fun c => !p c).reverse

/-- What precedes the last character that satisfies `p`; nothing if none does. -/
def beforeLast (p : Char → Bool) (text : List Char) : List Char :=
  ((text.reverse.dropWhile fun c => !p c).drop 1).reverse

/-- The name without namespace, declaring type and arguments. -/
def simpleName (t : TypeRef) : String :=
  String.ofList (afterLast (fun c => c == '.' || c == '+') (beforeArguments t.fullName.toList))

/-- The namespace; a nested type has none of its own. -/
def namespaceName (t : TypeRef) : String :=
  if t.declaring.isSome then ""
  else String.ofList (beforeLast (· == '.') (beforeArguments t.fullName.toList))

end TypeRef

end MarkupLowering
