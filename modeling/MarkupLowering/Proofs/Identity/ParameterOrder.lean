import MarkupLowering.Proofs.Identity.Signatures

/-!
# MarkupLowering.Proofs.Identity.ParameterOrder

**Which neighbours in a signature can change places** without a change of identity.

A component takes the mark of its position by exclusive or, and is then folded in. Two neighbours
that change places also exchange their marks. Where the two marks agree, a bit counts the same in
both places, but the first place weighs more by the factor of the fold; where they differ, the bit
is flipped on the way.

* `foldSignature_exchange_iff` is the exact condition: the differences of the two components at
  the flipped bits and at the others cancel out, with weights that belong to the factor alone
  (`Interchangeable`).
* It always holds for two components that differ in nothing but the top bit. A factor that is odd
  cannot weigh the top bit, so the order of such components is lost, whatever the marks are.
* It never holds if the lowest bit in which they differ is another one, and is not flipped.
-/

namespace MarkupLowering

/-! ### Words, bit by bit -/

/-- The highest bit of a word. -/
def topBit : UInt64 := 0x8000000000000000

/-- Bits inside a mask and bits outside of it are added without carries. -/
theorem masked_add (x y mask : UInt64) :
    (x &&& mask) + (y &&& ~~~mask) = (x &&& mask) ||| (y &&& ~~~mask) := by
  rw [← UInt64.toBitVec_inj, UInt64.toBitVec_add, UInt64.toBitVec_or,
    BitVec.add_eq_or_of_and_eq_zero]
  ext i
  simp only [UInt64.toBitVec_and, UInt64.toBitVec_not, BitVec.getElem_and, BitVec.getElem_not]
  cases mask.toBitVec[i] <;> simp

/-- A word is the sum of its bits inside and outside of a mask. -/
theorem and_add_and_not (x mask : UInt64) : (x &&& mask) + (x &&& ~~~mask) = x := by
  rw [masked_add, ← UInt64.toBitVec_inj]
  ext i
  simp only [UInt64.toBitVec_and, UInt64.toBitVec_or, UInt64.toBitVec_not, BitVec.getElem_or,
    BitVec.getElem_and, BitVec.getElem_not]
  cases mask.toBitVec[i] <;> simp

/-- The bits of a mask that a word leaves unset. -/
theorem not_and_eq_sub (x mask : UInt64) : ~~~x &&& mask = mask - (x &&& mask) := by
  have hmask := and_add_and_not mask x
  rw [UInt64.and_comm mask x, UInt64.and_comm mask (~~~x)] at hmask
  grind

/-- Flipping bits takes away those that were set, and adds those that were not. -/
theorem xor_eq_add_sub (x mask : UInt64) :
    x ^^^ mask = (x &&& ~~~mask) + (mask - (x &&& mask)) := by
  rw [← not_and_eq_sub, UInt64.add_comm, masked_add, ← UInt64.toBitVec_inj]
  ext i
  simp only [UInt64.toBitVec_and, UInt64.toBitVec_or, UInt64.toBitVec_not, UInt64.toBitVec_xor,
    BitVec.getElem_or, BitVec.getElem_and, BitVec.getElem_not, BitVec.getElem_xor]
  cases mask.toBitVec[i] <;> simp

theorem toBitVec_topBit : topBit.toBitVec = BitVec.twoPow 64 63 := by decide

/-- To flip the top bit is to add it. -/
theorem xor_topBit (x : UInt64) : x ^^^ topBit = x + topBit := by
  have htwice : 2 * (x &&& topBit) = 0 := by
    rw [← UInt64.toBitVec_inj, UInt64.toBitVec_mul, UInt64.toBitVec_and, toBitVec_topBit,
      BitVec.and_twoPow]
    split <;> rfl
  have hsplit := and_add_and_not x topBit
  rw [xor_eq_add_sub]
  grind

theorem xor_toBitVec_topBit (z : BitVec 64) : z ^^^ topBit.toBitVec = z + topBit.toBitVec :=
  congrArg UInt64.toBitVec (xor_topBit (UInt64.ofBitVec z))

/-- To add the top bit is to take it away. -/
theorem sub_add_topBit (x : UInt64) : x - (x + topBit) = topBit := by
  have htwice : 2 * topBit = 0 := by decide
  grind

/-- The lowest bit at which two words differ. -/
def LowestDifference (k : Nat) (x y : UInt64) : Prop :=
  (x ^^^ y).toBitVec.getLsbD k = true ∧ ∀ j < k, (x ^^^ y).toBitVec.getLsbD j = false

section Shifts

variable {x y t : BitVec 64} {k n : Nat}

/-- The lowest bit that is set moves to the top. -/
theorem shiftLeft_eq_topBit (hk : k < 64) (h : x.getLsbD k = true)
    (hbelow : ∀ j < k, x.getLsbD j = false) : x <<< (63 - k) = topBit.toBitVec := by
  rw [toBitVec_topBit]
  refine BitVec.eq_of_getLsbD_eq fun j hj => ?_
  rw [BitVec.getLsbD_shiftLeft, BitVec.getLsbD_twoPow]
  by_cases htop : j = 63
  · subst htop
    have hmoved : 63 - (63 - k) = k := by omega
    rw [hmoved, h]
    simp
  · rcases (by omega : j < 63 - k ∨ j - (63 - k) < k) with hout | hmoved
    · simp [hout, Ne.symm htop]
    · rw [hbelow _ hmoved]
      simp [Ne.symm htop]

/-- Bits that are not set leave nothing. -/
theorem shiftLeft_eq_zero (hupto : ∀ j ≤ k, x.getLsbD j = false) : x <<< (63 - k) = 0#64 := by
  refine BitVec.eq_of_getLsbD_eq fun j hj => ?_
  rw [BitVec.getLsbD_shiftLeft, hupto (j - (63 - k)) (by omega)]
  simp

/-- If the bits at which two words differ are shifted out, or out but for the top bit, then so is
the difference of the words. -/
theorem shiftLeft_sub_of_xor (h : (x ^^^ y) <<< n = t) (ht : ∀ z, z ^^^ t = z + t) :
    (x - y) <<< n = t := by
  have hx : x <<< n = y <<< n + t := by
    rw [← ht, ← h, BitVec.shiftLeft_xor_distrib]
    grind
  simp only [BitVec.shiftLeft_eq_mul_twoPow] at hx ⊢
  grind

/-- A bit below the top survives doubling, and what lies above it does not matter. -/
theorem two_mul_ne_zero {kept flipped weight : UInt64} (hk : k < 63)
    (hlast : kept.toBitVec <<< (63 - k) = topBit.toBitVec)
    (hnone : flipped.toBitVec <<< (63 - k) = 0#64) : 2 * (kept + weight * flipped) ≠ 0 := by
  intro hzero
  have hdouble : 2 * (kept.toBitVec + weight.toBitVec * flipped.toBitVec) = 0 :=
    congrArg UInt64.toBitVec hzero
  have hshift : BitVec.twoPow 64 (63 - k) = 2 * BitVec.twoPow 64 (62 - k) := by
    have hpow : 63 - k = 1 + (62 - k) := by omega
    rw [hpow, ← BitVec.twoPow_mul_twoPow_eq]
    rfl
  rw [BitVec.shiftLeft_eq_mul_twoPow, hshift] at hlast hnone
  have htop : topBit.toBitVec = 0#64 := by
    rw [← hlast]
    grind
  exact absurd htop (by decide)

end Shifts

namespace Identity

/-! ### Components that change places -/

/-- The bits at which the marks of a position and the next differ. -/
def flips (i : Nat) : UInt64 := marker i ^^^ marker (i + 1)

/-- What two components differ by, at some of the bits, when they carry the mark of a position. -/
def apart (i : Nat) (mask : UInt64) (a b : Identity) : UInt64 :=
  ((marker i ^^^ a.bits) &&& mask) - ((marker i ^^^ b.bits) &&& mask)

/-- What a difference at a flipped bit weighs, if one at another bit weighs one. -/
def ratio : UInt64 := 0x9359212ec0119f9e

/-- Components may change places with their neighbours: what they differ by at the flipped bits
and at the others cancels out, but for the top bit. -/
def Interchangeable (i : Nat) (a b : Identity) : Prop :=
  2 * (apart i (~~~flips i) a b + ratio * apart i (flips i) a b) = 0

instance (i : Nat) (a b : Identity) : Decidable (Interchangeable i a b) :=
  inferInstanceAs (Decidable (2 * _ = 0))

/-- A component carries the mark of the next position if the flipped bits are flipped. -/
theorem marker_succ_xor (i : Nat) (c : Identity) :
    marker (i + 1) ^^^ c.bits = (marker i ^^^ c.bits) ^^^ flips i := by
  rw [flips, UInt64.xor_comm (marker i) c.bits, UInt64.xor_assoc, ← UInt64.xor_assoc (marker i),
    UInt64.xor_self, UInt64.zero_xor, UInt64.xor_comm]

/-- At the first of two positions all differences count alike. -/
theorem marked_sub (i : Nat) (a b : Identity) :
    (marker i ^^^ a.bits) - (marker i ^^^ b.bits) =
      apart i (~~~flips i) a b + apart i (flips i) a b := by
  have ha := and_add_and_not (marker i ^^^ a.bits) (flips i)
  have hb := and_add_and_not (marker i ^^^ b.bits) (flips i)
  rw [apart, apart]
  grind

/-- At the second, those at the flipped bits are reversed. -/
theorem marked_sub_succ (i : Nat) (a b : Identity) :
    (marker (i + 1) ^^^ a.bits) - (marker (i + 1) ^^^ b.bits) =
      apart i (~~~flips i) a b - apart i (flips i) a b := by
  rw [marker_succ_xor, marker_succ_xor, xor_eq_add_sub _ (flips i), xor_eq_add_sub _ (flips i),
    apart, apart]
  grind

theorem step_sub_one_mul_ratio : (step - 1) * ratio = step + 1 := by decide

/-- One less than the factor is even, but a multiple of two by a unit. -/
theorem step_sub_one_mul_eq_zero_iff (z : UInt64) : (step - 1) * z = 0 ↔ 2 * z = 0 := by
  constructor
  · intro h
    have htwo : 0x9359212ec0119f9d * (step - 1) = 2 := by decide
    rw [← htwo, UInt64.mul_assoc, h, UInt64.mul_zero]
  · intro h
    have hhalf : step - 1 = 0xfc1ecd5fda0deb5 * 2 := by decide
    rw [hhalf, UInt64.mul_assoc, h, UInt64.mul_zero]

/-- The equation that two components satisfy if they can change places. -/
theorem interchangeable_iff {i : Nat} {a b : Identity} :
    Interchangeable i a b ↔
      ((marker i ^^^ a.bits) - (marker i ^^^ b.bits)) * step =
        (marker (i + 1) ^^^ a.bits) - (marker (i + 1) ^^^ b.bits) := by
  rw [marked_sub, marked_sub_succ, Interchangeable, ← step_sub_one_mul_eq_zero_iff]
  generalize apart i (~~~flips i) a b = kept
  generalize apart i (flips i) a b = flipped
  have hweigh : (step - 1) * (kept + ratio * flipped) =
      (kept + flipped) * step - (kept - flipped) := by
    have hratio := step_sub_one_mul_ratio
    grind
  rw [hweigh, UInt64.sub_eq_iff_eq_add, UInt64.zero_add]

/-- Neighbours can change places exactly if they are interchangeable, whatever stands around them
and whatever is folded into. -/
theorem foldSignature_exchange_iff (seed : UInt64) (before after : List Identity)
    (a b : Identity) :
    foldSignature seed (before ++ a :: b :: after) =
      foldSignature seed (before ++ b :: a :: after) ↔ Interchangeable before.length a b := by
  simp only [foldSignature, foldFrom_append, foldFrom_cons, foldFrom_inj, interchangeable_iff,
    Nat.zero_add]
  constructor <;> intro h <;> grind

/-! ### Components that always can, and components that never can -/

/-- The factor cannot weigh the top bit. -/
theorem interchangeable_topBit (i : Nat) (a : Identity) :
    Interchangeable i a ⟨a.bits ^^^ topBit⟩ := by
  have hweigh : topBit * step = topBit := by decide
  have hmarked (j : Nat) : marker j ^^^ (a.bits ^^^ topBit) = (marker j ^^^ a.bits) + topBit := by
    rw [← UInt64.xor_assoc, xor_topBit]
  rw [interchangeable_iff, hmarked, hmarked, sub_add_topBit, sub_add_topBit, hweigh]

theorem apart_shiftLeft {i n : Nat} {mask : UInt64} {a b : Identity} {t : BitVec 64}
    (h : ((a.bits ^^^ b.bits) &&& mask).toBitVec <<< n = t) (ht : ∀ z, z ^^^ t = z + t) :
    (apart i mask a b).toBitVec <<< n = t := by
  rw [apart, UInt64.toBitVec_sub]
  refine shiftLeft_sub_of_xor ?_ ht
  rw [← h]
  congr 1
  ext j
  simp only [UInt64.toBitVec_and, UInt64.toBitVec_xor, BitVec.getElem_xor, BitVec.getElem_and]
  cases (marker i).toBitVec[j] <;> cases mask.toBitVec[j] <;> simp

/-- A lowest difference below the top bit counts for itself, if it is not flipped. -/
theorem not_interchangeable {i k : Nat} {a b : Identity} (hk : k < 63)
    (h : LowestDifference k a.bits b.bits) (hkept : (flips i).toBitVec.getLsbD k = false) :
    ¬ Interchangeable i a b := by
  intro hzero
  have hlast : (apart i (~~~flips i) a b).toBitVec <<< (63 - k) = topBit.toBitVec := by
    refine apart_shiftLeft (shiftLeft_eq_topBit (by omega) ?_ fun j hj => ?_) xor_toBitVec_topBit
    · rw [UInt64.toBitVec_and, BitVec.getLsbD_and, h.1, UInt64.toBitVec_not, BitVec.getLsbD_not,
        hkept]
      simp [Nat.lt_succ_of_lt hk]
    · rw [UInt64.toBitVec_and, BitVec.getLsbD_and, h.2 j hj, Bool.false_and]
  have hnone : (apart i (flips i) a b).toBitVec <<< (63 - k) = 0#64 := by
    refine apart_shiftLeft (shiftLeft_eq_zero fun j hj => ?_) fun z => by simp
    rw [UInt64.toBitVec_and, BitVec.getLsbD_and]
    rcases Nat.lt_or_eq_of_le hj with hlt | rfl
    · rw [h.2 j hlt, Bool.false_and]
    · rw [hkept, Bool.and_false]
  exact two_mul_ne_zero hk hlast hnone hzero

end Identity

/-! ### The main statement -/

open Identity

/-- When the order of two neighbours in a signature is lost. The first three parts say that it is
lost exactly if they are interchangeable at their positions, for methods, constructors and generic
instances alike, whatever owner and name are and whatever stands before and after them. The other
parts give components for which it is always lost, and components for which it never is. -/
theorem order_lost_iff (before after : List Identity) (a b : Identity) :
    (∀ owner name,
      ofMethod owner name (before ++ a :: b :: after) =
        ofMethod owner name (before ++ b :: a :: after) ↔
      Interchangeable before.length a b) ∧
    (∀ owner isStatic,
      ofConstructor owner (before ++ a :: b :: after) isStatic =
        ofConstructor owner (before ++ b :: a :: after) isStatic ↔
      Interchangeable before.length a b) ∧
    (∀ definition,
      ofInstance definition (before ++ a :: b :: after) =
        ofInstance definition (before ++ b :: a :: after) ↔
      Interchangeable before.length a b) ∧
    Interchangeable before.length a ⟨a.bits ^^^ topBit⟩ ∧
    ∀ k < 63, LowestDifference k a.bits b.bits →
      (flips before.length).toBitVec.getLsbD k = false → ¬ Interchangeable before.length a b := by
  have hexchange (seed : UInt64) := foldSignature_exchange_iff seed before after a b
  refine ⟨fun owner name => ?_, fun owner isStatic => ?_, fun definition => ?_,
    interchangeable_topBit _ a, fun k hk => not_interchangeable hk⟩
  · rw [ofMethod, ofMethod, Identity.mk.injEq, hexchange]
  · rw [ofConstructor, ofConstructor, Identity.mk.injEq, hexchange]
  · rw [ofInstance, ofInstance, Identity.mk.injEq, hexchange]

/-- Readers and writers differ in the lowest bit, so their order is kept. -/
theorem order_lost_iff_readerWriter :
    let reader := ofName (.ofString "Lib.Reader")
    let writer := ofName (.ofString "Lib.Writer")
    LowestDifference 0 reader.bits writer.bits ∧ (flips 0).toBitVec.getLsbD 0 = false ∧
      ∀ owner name,
        ofMethod owner name [reader, writer] ≠ ofMethod owner name [writer, reader] := by
  intro reader writer
  have hlowest : LowestDifference 0 reader.bits writer.bits :=
    ⟨by decide +kernel, fun j hj => absurd hj (Nat.not_lt_zero j)⟩
  have hkept : (flips 0).toBitVec.getLsbD 0 = false := by decide
  obtain ⟨hmethod, -, -, -, hkeeps⟩ := order_lost_iff [] [] reader writer
  refine ⟨hlowest, hkept, fun owner name hsame => ?_⟩
  exact hkeeps 0 (by decide) hlowest hkept ((hmethod owner name).mp hsame)

/-- The order is not always kept: these two types, whose digests differ in the top bit alone, can
change places in every method, every constructor and every generic instance. -/
theorem order_not_always_kept :
    let reader := ofName (.ofString "Lib.Reader")
    let page := ofName (.ofString "Lib.PageMAAjLUiNHR48su9i")
    reader ≠ page ∧
      (∀ owner name, ofMethod owner name [reader, page] = ofMethod owner name [page, reader]) ∧
      (∀ owner isStatic,
        ofConstructor owner [reader, page] isStatic = ofConstructor owner [page, reader] isStatic) ∧
      ∀ definition,
        ofInstance definition [reader, page] = ofInstance definition [page, reader] := by
  intro reader page
  have hsame (seed : UInt64) :
      foldSignature seed [reader, page] = foldSignature seed [page, reader] :=
    (foldSignature_exchange_iff seed [] [] reader page).mpr (by decide +kernel)
  exact ⟨by decide +kernel, fun _ _ => congrArg Identity.mk (hsame _),
    fun _ _ => congrArg Identity.mk (hsame _), fun _ => congrArg Identity.mk (hsame _)⟩

end MarkupLowering
