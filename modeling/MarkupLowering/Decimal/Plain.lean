import MarkupLowering.Decimal.Shortest

/-!
# MarkupLowering.Decimal.Plain

The text of binary floating-point numbers in listings: **positional, shortest, no exponent**. The
sign of zero is shown, that of a not-a-number is not, and a whole number has no point.
-/

namespace MarkupLowering.Decimal

/-! ### Positional notation -/

/-- Digits without trailing zeros, which move into the exponent; `n` bounds the zeros taken
away. -/
def Digits.trim : Nat → Digits → Digits
  | 0, d => d
  | n + 1, d =>
    if d.digits ≠ 0 ∧ d.digits % 10 = 0 then Digits.trim n ⟨d.digits / 10, d.exponent + 1⟩ else d

/-- The decimal written out: whole part, and a point and the fraction if there is one. -/
def Digits.plain (d : Digits) : String :=
  let d := d.trim (digitCount d.digits)
  let ds := Nat.toDigits 10 d.digits
  match d.exponent with
  | .ofNat n => String.ofList (ds ++ List.replicate n '0')
  | .negSucc n =>
    let places := n + 1
    let ds := List.replicate (places + 1 - ds.length) '0' ++ ds
    let whole := ds.length - places
    String.ofList (ds.take whole ++ '.' :: ds.drop whole)

/-! ### Binary formats -/

/-- A binary interchange format: the stored bits of the mantissa and the bits of the exponent. -/
structure Format where
  fractionBits : Nat
  exponentBits : Nat

def single : Format := ⟨23, 8⟩

def double : Format := ⟨52, 11⟩

namespace Format

/-- The stored exponent of infinities and not-a-numbers. -/
def topExponent (f : Format) : Nat := (1 <<< f.exponentBits) - 1

/-- The stored mantissa of an encoding. -/
def fraction (f : Format) (bits : Nat) : Nat := bits % (1 <<< f.fractionBits)

/-- The stored exponent of an encoding. -/
def storedExponent (f : Format) (bits : Nat) : Nat :=
  (bits >>> f.fractionBits) % (1 <<< f.exponentBits)

/-- Whether the sign bit is set. -/
def isNegative (f : Format) (bits : Nat) : Bool :=
  (bits >>> (f.fractionBits + f.exponentBits)) % 2 = 1

/-- Whether an encoding is no number. -/
def isNaN (f : Format) (bits : Nat) : Bool :=
  f.storedExponent bits = f.topExponent && f.fraction bits ≠ 0

/-- Whether an encoding is a zero of either sign. -/
def isZero (f : Format) (bits : Nat) : Bool :=
  f.storedExponent bits = 0 && f.fraction bits = 0

/-- Whether two encodings are equal as numbers: a not-a-number equals nothing, and the zeros are
equal. -/
def sameNumber (f : Format) (a b : Nat) : Bool :=
  !f.isNaN a && !f.isNaN b && (a == b || (f.isZero a && f.isZero b))

/-- The exponent of the last place of the numbers with stored exponent one or zero. -/
def leastExponent (f : Format) : Int :=
  2 - ((1 <<< (f.exponentBits - 1) : Nat) : Int) - f.fractionBits

/-- The size of a finite non-zero number. -/
def binary (f : Format) (bits : Nat) : Binary :=
  let e := f.storedExponent bits
  let m := f.fraction bits
  if e = 0 then ⟨m, f.leastExponent, false⟩
  else ⟨(1 <<< f.fractionBits) + m, f.leastExponent + (e - 1), m = 0 && 1 < e⟩

/-- The text of an encoding. -/
def render (f : Format) (bits : Nat) : String :=
  if f.isNaN bits then "NaN"
  else
    let size :=
      if f.storedExponent bits = f.topExponent then "inf"
      else if f.isZero bits then "0"
      else (shortest (f.binary bits)).plain
    if f.isNegative bits then "-" ++ size else size

end Format

end MarkupLowering.Decimal
