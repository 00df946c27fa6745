import MarkupLowering.Digest.Bytes

/-!
# MarkupLowering.Digest.Xxh64

The 64-bit xxHash of a byte string, with seed zero.

Input is taken in **stripes** of 32 bytes, each spread over four lanes; what is left over is
taken in words of eight bytes, at most one of four, and single bytes. All arithmetic is modulo
2^64.
-/

namespace MarkupLowering.Digest.Xxh64

def prime1 : UInt64 := 0x9E3779B185EBCA87
def prime2 : UInt64 := 0xC2B2AE3D27D4EB4F
def prime3 : UInt64 := 0x165667B19E3779F9
def prime4 : UInt64 := 0x85EBCA77C2B2AE63
def prime5 : UInt64 := 0x27D4EB2F165667C5

/-- Rotation to the left by `n` bits, for `0 < n < 64`. -/
def rotl (x n : UInt64) : UInt64 := (x <<< n) ||| (x >>> (64 - n))

/-- One lane takes in one word. -/
def round (acc word : UInt64) : UInt64 := rotl (acc + word * prime2) 31 * prime1

/-- The four accumulators of the stripe loop. -/
structure Lanes where
  a : UInt64
  b : UInt64
  c : UInt64
  d : UInt64

/-- Lanes before the first stripe. -/
def Lanes.start : Lanes := ⟨prime1 + prime2, prime2, 0, 0 - prime1⟩

/-- The lanes take in the stripe that begins at position `i`. -/
def Lanes.absorb (data : ByteArray) (lanes : Lanes) (i : Nat) : Lanes where
  a := round lanes.a (littleEndian data i 8)
  b := round lanes.b (littleEndian data (i + 8) 8)
  c := round lanes.c (littleEndian data (i + 16) 8)
  d := round lanes.d (littleEndian data (i + 24) 8)

/-- Folds one lane into the joint accumulator. -/
def mergeLane (acc lane : UInt64) : UInt64 := (acc ^^^ round 0 lane) * prime1 + prime4

/-- The joint accumulator of the four lanes. -/
def Lanes.join (lanes : Lanes) : UInt64 :=
  [lanes.a, lanes.b, lanes.c, lanes.d].foldl mergeLane
    (rotl lanes.a 1 + rotl lanes.b 7 + rotl lanes.c 12 + rotl lanes.d 18)

/-- A left-over word of eight bytes. -/
def mixWord (data : ByteArray) (acc : UInt64) (i : Nat) : UInt64 :=
  rotl (acc ^^^ round 0 (littleEndian data i 8)) 27 * prime1 + prime4

/-- A left-over word of four bytes. -/
def mixHalf (data : ByteArray) (acc : UInt64) (i : Nat) : UInt64 :=
  rotl (acc ^^^ (littleEndian data i 4 * prime1)) 23 * prime2 + prime3

/-- A left-over byte. -/
def mixByte (data : ByteArray) (acc : UInt64) (i : Nat) : UInt64 :=
  rotl (acc ^^^ ((byteAt data i).toUInt64 * prime5)) 11 * prime1

/-- The final scrambling. -/
def avalanche (acc : UInt64) : UInt64 :=
  let acc := (acc ^^^ (acc >>> 33)) * prime2
  let acc := (acc ^^^ (acc >>> 29)) * prime3
  acc ^^^ (acc >>> 32)

/-- The positions `start`, `start + step`, …, `count` of them. -/
def positions (start step count : Nat) : List Nat :=
  (List.range count).map fun k => start + step * k

/-- The accumulator after all whole stripes. -/
def stripes (data : ByteArray) : UInt64 :=
  if data.size < 32 then prime5
  else ((positions 0 32 (data.size / 32)).foldl (Lanes.absorb data) Lanes.start).join

/-- What follows the last whole stripe is mixed in word by word, then byte by byte. -/
def tail (data : ByteArray) (acc : UInt64) : UInt64 :=
  let start := data.size / 32 * 32
  let left := data.size % 32
  let acc := (positions start 8 (left / 8)).foldl (mixWord data) acc
  let start := start + left / 8 * 8
  let left := left % 8
  let acc := (positions start 4 (left / 4)).foldl (mixHalf data) acc
  (positions (start + left / 4 * 4) 1 (left % 4)).foldl (mixByte data) acc

/-- The digest of a byte string. -/
def digest (data : ByteArray) : UInt64 :=
  avalanche (tail data (stripes data + data.size.toUInt64))

/-- The digest of a text's UTF-8 bytes. -/
def ofString (text : String) : UInt64 := digest text.toUTF8

end MarkupLowering.Digest.Xxh64
