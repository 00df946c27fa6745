/-!
# MarkupLowering.Text.Hex

Hexadecimal text in lower case, filled with zeros to a least width.
-/

namespace MarkupLowering.Text.Hex

/-- Fills `digits` with leading zeros up to `width`; longer texts stay as they are. -/
def fill (width : Nat) (digits : List Char) : List Char :=
  List.replicate (width - digits.length) '0' ++ digits

/-- The hexadecimal digits of `n`, at least `width` of them. -/
def digits (width n : Nat) : List Char := fill width (Nat.toDigits 16 n)

/-- The hexadecimal text of `n`, at least `width` digits long. -/
def render (width n : Nat) : String := String.ofList (digits width n)

/-- Two digits for each byte. -/
def ofBytes (bytes : List UInt8) : String :=
  String.ofList (bytes.flatMap fun b => digits 2 b.toNat)

/-- The value of a digit; other characters count as zero. -/
def digitValue (c : Char) : Nat :=
  if c.isDigit then c.toNat - '0'.toNat
  else if 'a' ≤ c ∧ c ≤ 'f' then c.toNat - 'a'.toNat + 10
  else if 'A' ≤ c ∧ c ≤ 'F' then c.toNat - 'A'.toNat + 10
  else 0

/-- The number that digits denote. -/
def value (ds : List Char) : Nat := ds.foldl (fun n c => n * 16 + digitValue c) 0

/-- The bytes that pairs of digits denote. -/
def toBytes : List Char → List UInt8
  | a :: b :: ds => (value [a, b]).toUInt8 :: toBytes ds
  | _ => []

@[simp] theorem toList_render (width n : Nat) : (render width n).toList = digits width n := by
  simp [render]

end MarkupLowering.Text.Hex
