import MarkupLowering.TypeRef.Basic

/-!
# MarkupLowering.Hierarchy

The **type hierarchy**: which interfaces each type implements, and which types a value may be
assigned to.

A type's interface list may grow after the type was created, and every handle to the type sees
the growth. The lists are therefore kept here, one for each `TypeRef.id`, and each handle is made
by allotting it a list. An instance of a generic type gets a list of its own, which starts as a
copy of the definition's.
-/

namespace MarkupLowering

/-- The interface lists of all types, by `TypeRef.id`. -/
structure Hierarchy where
  lists : Array (List TypeRef)
  deriving Inhabited

/-- What a type is made from. -/
structure TypeDescriptor where
  fullName : String
  kind : TypeKind
  origin : Origin
  base : Option TypeRef
  declaring : Option TypeRef
  interfaces : List TypeRef

namespace Hierarchy

def empty : Hierarchy := ⟨#[]⟩

/-! ### Interface lists -/

/-- The interfaces that a type implements itself, in the order they were added. -/
def interfaces (h : Hierarchy) (t : TypeRef) : List TypeRef := h.lists.getD t.id []

/-- Adds an interface at the end of a list that does not hold an equal one. -/
def insertInterface (i : TypeRef) (list : List TypeRef) : List TypeRef :=
  if list.any (· == i) then list else list ++ [i]

/-- Records that a type implements an interface. -/
def addInterface (h : Hierarchy) (t i : TypeRef) : Hierarchy :=
  ⟨h.lists.modify t.id (insertInterface i)⟩

/-! ### Making types -/

/-- Allots the next list. -/
def allot (h : Hierarchy) (interfaces : List TypeRef) : Hierarchy := ⟨h.lists.push interfaces⟩

/-- A new type as described. -/
def declareType (h : Hierarchy) (d : TypeDescriptor) : TypeRef × Hierarchy :=
  (.named (Ident.ofString d.fullName) d.kind d.origin false d.base d.declaring h.lists.size,
    h.allot d.interfaces)

/-- A new type of an assembly, without base and interfaces. -/
def external (h : Hierarchy) (assembly name : String) (kind : TypeKind) : TypeRef × Hierarchy :=
  h.declareType ⟨name, kind, .assembly assembly, none, none, []⟩

/-- A new root type. -/
def root (h : Hierarchy) (assembly name : String) : TypeRef × Hierarchy :=
  (.named (Ident.ofString name) .classType (.assembly assembly) true none none h.lists.size,
    h.allot [])

/-- A new instance of a generic type. It implements what its definition implements now. -/
def instantiate (h : Hierarchy) (definition : TypeRef) (arguments : List TypeRef) :
    TypeRef × Hierarchy :=
  (.generic definition arguments h.lists.size, h.allot (h.interfaces definition))

/-! ### Assignability -/

/-- Whether a type reaches an interface through at most `depth` interface lists. -/
def implementsWithin (h : Hierarchy) (target : TypeRef) : Nat → TypeRef → Bool
  | 0, _ => false
  | depth + 1, t => (h.interfaces t).any fun i => i == target || h.implementsWithin target depth i

/-- Whether a type reaches an interface through interface lists. Without a cycle no path passes
through one list twice, so the number of lists bounds its length. -/
def reaches (h : Hierarchy) (t target : TypeRef) : Bool :=
  h.implementsWithin target h.lists.size t

/-- Whether a value of type `source` can be stored where `target` is declared.

Everything goes where the root is declared. Interfaces accept types that reach them, themselves
or through a type they derive from; other types accept the types that derive from them. -/
def assignable (h : Hierarchy) (target source : TypeRef) : Bool :=
  target == source || target.isRoot ||
    if target.isInterface then (source :: source.bases).any (h.reaches · target)
    else source.bases.any (· == target)

/-! ### Basic lemmas -/

@[simp] theorem size_addInterface (h : Hierarchy) (t i : TypeRef) :
    (h.addInterface t i).lists.size = h.lists.size := by
  simp [addInterface]

theorem interfaces_addInterface (h : Hierarchy) (t i u : TypeRef) :
    (h.addInterface t i).interfaces u =
      if u.id = t.id ∧ t.id < h.lists.size then insertInterface i (h.interfaces t)
      else h.interfaces u := by
  simp only [interfaces, addInterface, Array.getD_eq_getD_getElem?, Array.getElem?_modify]
  by_cases hu : u.id = t.id
  · by_cases ht : t.id < h.lists.size
    · simp [hu, ht]
    · simp [hu, ht]
  · simp [hu, Ne.symm hu]

theorem interfaces_allot_of_lt (h : Hierarchy) (is : List TypeRef) {t : TypeRef}
    (ht : t.id < h.lists.size) : (h.allot is).interfaces t = h.interfaces t := by
  simp [interfaces, allot, Array.getD_eq_getD_getElem?, Array.getElem?_push, ht, Nat.ne_of_lt ht]

@[simp] theorem assignable_self (h : Hierarchy) (t : TypeRef) : h.assignable t t = true := by
  simp [assignable]

end Hierarchy

/-! ### Runtime types -/

/-- The types of the runtime library that generated code refers to by itself. -/
structure CoreTypes where
  /-- The root type; what boxed values are. -/
  object : TypeRef
  /-- What constructors and procedures return. -/
  void : TypeRef
  valueType : TypeRef
  string : TypeRef
  int32 : TypeRef
  boolean : TypeRef
  deriving Inhabited

/-- The runtime types that a runtime assembly exports. -/
def Hierarchy.coreTypes (h : Hierarchy) (assembly : String) : CoreTypes × Hierarchy :=
  let derived (h : Hierarchy) (name : String) (kind : TypeKind) (base : TypeRef) :=
    h.declareType ⟨name, kind, .assembly assembly, some base, none, []⟩
  let (object, h) := h.root assembly "System.Object"
  let (valueType, h) := derived h "System.ValueType" .classType object
  let (void, h) := derived h "System.Void" .valueType valueType
  let (int32, h) := derived h "System.Int32" .valueType valueType
  let (boolean, h) := derived h "System.Boolean" .valueType valueType
  let (string, h) := derived h "System.String" .classType object
  ({ object, void, valueType, string, int32, boolean }, h)

end MarkupLowering
