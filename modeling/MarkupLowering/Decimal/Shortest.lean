/-!
# MarkupLowering.Decimal.Shortest

The **shortest decimal** that reads back as a given binary floating-point number.

A positive finite number is `m · 2^q`. The reals that round to it form an interval around it,
whose ends belong to it exactly when `m` is even. For one digit, two digits, and so on, the two
neighbours of the number on the grid of decimals with that many digits are tried; the first grid
with a neighbour in the interval wins. Of two neighbours in the interval the nearer is taken, and
the upper one if both are equally near. All arithmetic is exact.
-/

namespace MarkupLowering.Decimal

/-- The positive number `mantissa · 2^exponent`. -/
structure Binary where
  mantissa : Nat
  exponent : Int
  /-- Whether the next smaller number is only half as far away as the next larger one. -/
  lowerGapIsHalf : Bool

/-- The decimal `digits · 10^exponent`. -/
structure Digits where
  digits : Nat
  exponent : Int
  deriving DecidableEq, Inhabited

/-- A number and the ends of its interval, over a common denominator. -/
structure Scaled where
  value : Nat
  lower : Nat
  upper : Nat
  denominator : Nat

/-- `b^e` split into numerator and denominator. -/
def powerParts (b : Nat) : Int → Nat × Nat
  | .ofNat n => (b.pow n, 1)
  | .negSucc n => (1, b.pow (n + 1))

/-- Number and interval in quarters of the gap to the next larger number. -/
def Binary.scaled (x : Binary) : Scaled :=
  let (num, den) := powerParts 2 x.exponent
  { value := 4 * x.mantissa * num
    lower := (4 * x.mantissa - (if x.lowerGapIsHalf then 1 else 2)) * num
    upper := (4 * x.mantissa + 2) * num
    denominator := 4 * den }

/-- Whether `n / d` lies in the interval. -/
def Scaled.covers (s : Scaled) (closed : Bool) (n d : Nat) : Bool :=
  let a := n * s.denominator
  if closed then s.lower * d ≤ a && a ≤ s.upper * d else s.lower * d < a && a < s.upper * d

/-- The neighbour of the number on the grid of multiples of `10^e` that reads back, if one
does. -/
def Scaled.onGrid (s : Scaled) (closed : Bool) (e : Int) : Option Nat :=
  let (num, den) := powerParts 10 e
  -- the number is `below + rest / unit` steps of the grid
  let unit := s.denominator * num
  let below := s.value * den / unit
  let rest := s.value * den % unit
  let fits (k : Nat) := s.covers closed (k * num) den
  match fits below, fits (below + 1) with
  | true, true => some (if 2 * rest < unit then below else below + 1)
  | true, false => some below
  | false, true => some (below + 1)
  | false, false => none

/-- The number of decimal digits of `n`. -/
def digitCount (n : Nat) : Nat := (Nat.toDigits 10 n).length

/-- The exponent `p` with `10^p ≤ value < 10^(p+1)`. -/
def Scaled.magnitude (s : Scaled) : Int :=
  if s.denominator ≤ s.value then (digitCount (s.value / s.denominator) : Int) - 1
  else
    let k := digitCount (s.denominator / s.value)
    if s.denominator ≤ s.value * Nat.pow 10 (k - 1) then 1 - (k : Int) else -(k : Int)

/-- Tries up to a given number of grids, from exponent `e` downwards. -/
def Scaled.search (s : Scaled) (closed : Bool) : Nat → Int → Digits
  | 0, e => ⟨s.value / s.denominator, e⟩
  | n + 1, e =>
    match s.onGrid closed e with
    | some digits => ⟨digits, e⟩
    | none => s.search closed n (e - 1)

/-- The fewest digits that read back as `x`. A number of 53 bits never needs more than
seventeen. -/
def shortest (x : Binary) : Digits :=
  let s := x.scaled
  s.search (x.mantissa % 2 = 0) 20 s.magnitude

end MarkupLowering.Decimal
