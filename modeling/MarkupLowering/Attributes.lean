/-!
# MarkupLowering.Attributes

Attribute words of definitions, and the visibility of types.

An attribute word is a set of bits. Some bits have names (`Flag`); a word may hold others, and
they are kept. A flag may have several bits, and it is **set** when all of them are.
-/

namespace MarkupLowering

/-! ### Flags -/

/-- A named group of bits. -/
structure Flag where
  name : String
  mask : Nat
  deriving DecidableEq

namespace Flag

/-- The bits that some flag names. -/
def union (flags : List Flag) : Nat := flags.foldl (fun bits f => bits ||| f.mask) 0

/-- The part of a word that the flags account for. -/
def truncate (flags : List Flag) (bits : Nat) : Nat := bits &&& union flags

/-- The word itself if the flags account for all of it. -/
def whole? (flags : List Flag) (bits : Nat) : Option Nat :=
  if truncate flags bits = bits then some bits else none

/-- The names of the flags set in `bits`, in order. A flag is passed over when flags named before
it cover all of it; `left` holds the bits that none of them covers. -/
def namesFrom (bits : Nat) : Nat → List Flag → List String
  | _, [] => []
  | left, f :: fs =>
    if bits &&& f.mask = f.mask ∧ left &&& f.mask ≠ 0 then
      f.name :: namesFrom bits (left ^^^ (left &&& f.mask)) fs
    else namesFrom bits left fs

/-- The names of the flags set in a word. -/
def names (flags : List Flag) (bits : Nat) : List String :=
  namesFrom (truncate flags bits) (truncate flags bits) flags

end Flag

/-! ### Methods -/

/-- The attribute word of a method or constructor. -/
structure MethodAttributes where
  bits : UInt16
  deriving DecidableEq, Inhabited

namespace MethodAttributes

def privateAccess : MethodAttributes := ⟨0x0001⟩
def publicAccess : MethodAttributes := ⟨0x0006⟩
def staticMember : MethodAttributes := ⟨0x0010⟩
def finalMember : MethodAttributes := ⟨0x0020⟩
def virtualMember : MethodAttributes := ⟨0x0040⟩
def hideBySig : MethodAttributes := ⟨0x0080⟩
/-- The method takes a fresh slot of the dispatch table. -/
def newSlot : MethodAttributes := ⟨0x0100⟩
def abstractMember : MethodAttributes := ⟨0x0400⟩
def specialName : MethodAttributes := ⟨0x0800⟩
def runtimeSpecialName : MethodAttributes := ⟨0x1000⟩

/-- The named bits. -/
def flags : List Flag := [
  ⟨"PRIVATE", 0x0001⟩, ⟨"PUBLIC", 0x0006⟩, ⟨"STATIC", 0x0010⟩, ⟨"FINAL", 0x0020⟩,
  ⟨"VIRTUAL", 0x0040⟩, ⟨"HIDE_BY_SIG", 0x0080⟩, ⟨"NEW_SLOT", 0x0100⟩, ⟨"ABSTRACT", 0x0400⟩,
  ⟨"SPECIAL_NAME", 0x0800⟩, ⟨"RT_SPECIAL_NAME", 0x1000⟩]

/-- The bits of both words. -/
def union (a b : MethodAttributes) : MethodAttributes := ⟨a.bits ||| b.bits⟩

instance : OrOp MethodAttributes := ⟨union⟩

/-- Whether every bit of `b` is set in `a`. -/
def contains (a b : MethodAttributes) : Bool := a.bits &&& b.bits == b.bits

end MethodAttributes

/-! ### Fields -/

/-- The attribute word of a field. -/
structure FieldAttributes where
  bits : UInt16
  deriving DecidableEq, Inhabited

namespace FieldAttributes

def privateAccess : FieldAttributes := ⟨0x0001⟩
def publicAccess : FieldAttributes := ⟨0x0006⟩
def staticMember : FieldAttributes := ⟨0x0010⟩
def initOnly : FieldAttributes := ⟨0x0020⟩

/-- The named bits. -/
def flags : List Flag := [
  ⟨"PRIVATE", 0x0001⟩, ⟨"PUBLIC", 0x0006⟩, ⟨"STATIC", 0x0010⟩, ⟨"INIT_ONLY", 0x0020⟩]

/-- The bits of both words. -/
def union (a b : FieldAttributes) : FieldAttributes := ⟨a.bits ||| b.bits⟩

instance : OrOp FieldAttributes := ⟨union⟩

/-- Whether every bit of `b` is set in `a`. -/
def contains (a b : FieldAttributes) : Bool := a.bits &&& b.bits == b.bits

end FieldAttributes

/-! ### Types -/

/-- The attribute word of a type. Visibility is kept apart from it (`Visibility`), since its
encodings overlap. -/
structure TypeAttributes where
  bits : UInt32
  deriving DecidableEq, Inhabited

namespace TypeAttributes

def none : TypeAttributes := ⟨0⟩
def interfaceType : TypeAttributes := ⟨0x0020⟩
def abstractType : TypeAttributes := ⟨0x0080⟩
def sealedType : TypeAttributes := ⟨0x0100⟩
def beforeFieldInit : TypeAttributes := ⟨0x00100000⟩

/-- The named bits. -/
def flags : List Flag := [
  ⟨"INTERFACE", 0x0020⟩, ⟨"ABSTRACT", 0x0080⟩, ⟨"SEALED", 0x0100⟩,
  ⟨"BEFORE_FIELD_INIT", 0x00100000⟩]

/-- Whether every bit of `b` is set in `a`. -/
def contains (a b : TypeAttributes) : Bool := a.bits &&& b.bits == b.bits

end TypeAttributes

/-- Who sees a type. -/
inductive Visibility
  | notPublic
  | publicType
  | nestedPublic
  | nestedPrivate
  deriving DecidableEq, Inhabited

namespace Visibility

/-- The encoding of a visibility. -/
def bits : Visibility → Nat
  | .notPublic => 0
  | .publicType => 1
  | .nestedPublic => 2
  | .nestedPrivate => 3

/-- Whether the visibility is one of nested types. -/
def isNested : Visibility → Bool
  | .nestedPublic | .nestedPrivate => true
  | _ => false

/-- The name of a visibility. -/
def name : Visibility → String
  | .notPublic => "NotPublic"
  | .publicType => "Public"
  | .nestedPublic => "NestedPublic"
  | .nestedPrivate => "NestedPrivate"

/-- The visibility with a given name. -/
def ofName? (name : String) : Option Visibility :=
  [.notPublic, .publicType, .nestedPublic, .nestedPrivate].find? fun v => v.name == name

end Visibility

end MarkupLowering
