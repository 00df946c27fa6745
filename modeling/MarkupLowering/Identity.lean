import MarkupLowering.Digest.Xxh64
import MarkupLowering.Text.Hex

/-!
# MarkupLowering.Identity

The **64-bit identities** of types and members.

Two handles denote the same type or member exactly when their identities are equal, whichever
assembly or module they came from; import tables deduplicate on them.

* A name enters through its XXH64 digest (`Ident` keeps the digest beside the text).
* Each kind of handle has a seed of its own (`Domain`), which is xored in.
* A signature is folded in component by component (`foldSignature`); each component is first
  marked with its position.
-/

namespace MarkupLowering

/-- A text with its digest, so that taking part in an identity costs no second walk over it. -/
structure Ident where
  text : String
  digest : UInt64
  digest_eq : digest = Digest.Xxh64.ofString text

namespace Ident

/-- A text as an identifier. -/
def ofString (text : String) : Ident := ⟨text, Digest.Xxh64.ofString text, rfl⟩

@[simp] theorem text_ofString (text : String) : (ofString text).text = text := rfl

@[ext] theorem ext {a b : Ident} (h : a.text = b.text) : a = b := by
  obtain ⟨s, d, rfl⟩ := a
  obtain ⟨t, e, rfl⟩ := b
  cases h
  rfl

@[simp] theorem ofString_text (a : Ident) : ofString a.text = a :=
  ext (text_ofString a.text)

instance : DecidableEq Ident := fun _ _ => decidable_of_iff' _ Ident.ext_iff

instance : Inhabited Ident := ⟨ofString ""⟩

end Ident

/-- The identity of a type or member. -/
structure Identity where
  bits : UInt64
  deriving DecidableEq, Hashable, Inhabited

namespace Identity

/-! ### Seeds -/

/-- The kinds of handle, each with an identity space of its own. A type initializer is kept apart
from the constructors, so that it differs from a constructor without parameters. -/
inductive Domain
  | type
  | field
  | property
  | method
  | constructor
  | typeInitializer
  deriving DecidableEq

/-- The seed of a kind of handle. -/
def Domain.seed : Domain → UInt64
  | .type => 0x6a09e667f3bcc908
  | .field => 0xbb67ae8584caa73b
  | .property => 0x3c6ef372fe94f82b
  | .method => 0xa54ff53a5f1d36f1
  | .constructor => 0x510e527fade682d1
  | .typeInitializer => 0x9b05688c2b3e6c1f

/-! ### Signatures -/

/-- The factor between two components of a signature. -/
def step : UInt64 := 0x1f83d9abfb41bd6b

/-- The mark of the component at position `i`. -/
def marker (i : Nat) : UInt64 :=
  let z := (i + 1).toUInt64 * 0x9e3779b97f4a7c15
  let z := (z ^^^ (z >>> 30)) * 0xbf58476d1ce4e5b9
  z ^^^ (z >>> 31)

/-- Folds in the components of a signature, the first of which stands at position `i`. -/
def foldFrom (i : Nat) (acc : UInt64) : List Identity → UInt64
  | [] => acc
  | c :: cs => foldFrom (i + 1) (acc * step + (marker i ^^^ c.bits)) cs

/-- Folds the components of a signature into a seed, in order. -/
def foldSignature (seed : UInt64) (components : List Identity) : UInt64 :=
  foldFrom 0 seed components

@[simp] theorem foldFrom_nil (i : Nat) (acc : UInt64) : foldFrom i acc [] = acc := rfl

@[simp] theorem foldFrom_cons (i : Nat) (acc : UInt64) (c : Identity) (cs : List Identity) :
    foldFrom i acc (c :: cs) = foldFrom (i + 1) (acc * step + (marker i ^^^ c.bits)) cs := rfl

theorem foldFrom_append (i : Nat) (acc : UInt64) (cs ds : List Identity) :
    foldFrom i acc (cs ++ ds) = foldFrom (i + cs.length) (foldFrom i acc cs) ds := by
  induction cs generalizing i acc with
  | nil => rfl
  | cons c cs ih => simp [ih, Nat.add_assoc, Nat.add_comm 1]

@[simp] theorem foldSignature_nil (seed : UInt64) : foldSignature seed [] = seed := rfl

/-! ### The identities -/

/-- The identity that stands for "none yet". -/
def empty : Identity := ⟨0⟩

/-- A type that is no generic instance, by its full name. -/
def ofName (name : Ident) : Identity := ⟨Domain.type.seed ^^^ name.digest⟩

/-- A field of `owner`. -/
def ofField (owner : Identity) (name : Ident) : Identity :=
  ⟨Domain.field.seed ^^^ owner.bits ^^^ name.digest⟩

/-- A property of `owner`. -/
def ofProperty (owner : Identity) (name : Ident) : Identity :=
  ⟨Domain.property.seed ^^^ owner.bits ^^^ name.digest⟩

/-- A method of `owner` with the given parameter types. -/
def ofMethod (owner : Identity) (name : Ident) (params : List Identity) : Identity :=
  ⟨foldSignature (Domain.method.seed ^^^ owner.bits ^^^ name.digest) params⟩

/-- A constructor of `owner`, or its type initializer. -/
def ofConstructor (owner : Identity) (params : List Identity) (isStatic : Bool) : Identity :=
  let domain := if isStatic then Domain.typeInitializer else Domain.constructor
  ⟨foldSignature (domain.seed ^^^ owner.bits) params⟩

/-- An instance of the generic type `definition`. Without arguments it is the definition's own
identity. -/
def ofInstance (definition : Identity) (args : List Identity) : Identity :=
  ⟨foldSignature definition.bits args⟩

@[simp] theorem ofInstance_nil (definition : Identity) : ofInstance definition [] = definition :=
  rfl

/-- Sixteen hexadecimal digits. -/
def render (id : Identity) : String := "0x" ++ Text.Hex.render 16 id.bits.toNat

end Identity

end MarkupLowering
