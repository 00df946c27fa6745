/-!
# MarkupLowering.Digest.Bytes

Reading words out of a byte string. Digests walk their input by position, so the readers here
are total: a position past the end reads as zero.
-/

namespace MarkupLowering.Digest

/-- The byte at position `i`, zero past the end. -/
def byteAt (data : ByteArray) (i : Nat) : UInt8 :=
  if h : i < data.size then data[i] else 0

/-- The `n` bytes from position `i` on as one word, least significant byte first. -/
def littleEndian (data : ByteArray) (i : Nat) : Nat → UInt64
  | 0 => 0
  | n + 1 => (byteAt data i).toUInt64 ||| (littleEndian data (i + 1) n <<< 8)

/-- The four bytes from position `i` on as one word, most significant byte first. -/
def bigEndian32 (data : ByteArray) (i : Nat) : UInt32 :=
  ((byteAt data i).toUInt32 <<< 24) ||| ((byteAt data (i + 1)).toUInt32 <<< 16) |||
    ((byteAt data (i + 2)).toUInt32 <<< 8) ||| (byteAt data (i + 3)).toUInt32

end MarkupLowering.Digest
