import MarkupLowering.Digest.Bytes

/-!
# MarkupLowering.Digest.Sha256

SHA-256 of a byte string, as 32 bytes.

The message is padded to whole **blocks** of 64 bytes; each block is expanded to a schedule of 64
words and folded into a state of eight words.
-/

namespace MarkupLowering.Digest.Sha256

/-- The eight working words. -/
structure State where
  a : UInt32
  b : UInt32
  c : UInt32
  d : UInt32
  e : UInt32
  f : UInt32
  g : UInt32
  h : UInt32

/-- The state before the first block. -/
def State.start : State :=
  ⟨0x6a09e667, 0xbb67ae85, 0x3c6ef372, 0xa54ff53a, 0x510e527f, 0x9b05688c, 0x1f83d9ab, 0x5be0cd19⟩

/-- Addition word by word. -/
def State.add (s t : State) : State :=
  ⟨s.a + t.a, s.b + t.b, s.c + t.c, s.d + t.d, s.e + t.e, s.f + t.f, s.g + t.g, s.h + t.h⟩

/-- The words of a state in order. -/
def State.words (s : State) : List UInt32 := [s.a, s.b, s.c, s.d, s.e, s.f, s.g, s.h]

/-- The constants of the 64 rounds. -/
def constants : Array UInt32 := #[
  0x428a2f98, 0x71374491, 0xb5c0fbcf, 0xe9b5dba5, 0x3956c25b, 0x59f111f1, 0x923f82a4, 0xab1c5ed5,
  0xd807aa98, 0x12835b01, 0x243185be, 0x550c7dc3, 0x72be5d74, 0x80deb1fe, 0x9bdc06a7, 0xc19bf174,
  0xe49b69c1, 0xefbe4786, 0x0fc19dc6, 0x240ca1cc, 0x2de92c6f, 0x4a7484aa, 0x5cb0a9dc, 0x76f988da,
  0x983e5152, 0xa831c66d, 0xb00327c8, 0xbf597fc7, 0xc6e00bf3, 0xd5a79147, 0x06ca6351, 0x14292967,
  0x27b70a85, 0x2e1b2138, 0x4d2c6dfc, 0x53380d13, 0x650a7354, 0x766a0abb, 0x81c2c92e, 0x92722c85,
  0xa2bfe8a1, 0xa81a664b, 0xc24b8b70, 0xc76c51a3, 0xd192e819, 0xd6990624, 0xf40e3585, 0x106aa070,
  0x19a4c116, 0x1e376c08, 0x2748774c, 0x34b0bcb5, 0x391c0cb3, 0x4ed8aa4a, 0x5b9cca4f, 0x682e6ff3,
  0x748f82ee, 0x78a5636f, 0x84c87814, 0x8cc70208, 0x90befffa, 0xa4506ceb, 0xbef9a3f7, 0xc67178f2]

/-- Rotation to the right by `n` bits, for `0 < n < 32`. -/
def rotr (x n : UInt32) : UInt32 := (x >>> n) ||| (x <<< (32 - n))

def smallSigma0 (x : UInt32) : UInt32 := rotr x 7 ^^^ rotr x 18 ^^^ (x >>> 3)
def smallSigma1 (x : UInt32) : UInt32 := rotr x 17 ^^^ rotr x 19 ^^^ (x >>> 10)
def bigSigma0 (x : UInt32) : UInt32 := rotr x 2 ^^^ rotr x 13 ^^^ rotr x 22
def bigSigma1 (x : UInt32) : UInt32 := rotr x 6 ^^^ rotr x 11 ^^^ rotr x 25

/-- The next schedule word from the words so far, of which there are at least sixteen. -/
def nextWord (words : Array UInt32) : UInt32 :=
  let n := words.size
  smallSigma1 (words.getD (n - 2) 0) + words.getD (n - 7) 0 +
    smallSigma0 (words.getD (n - 15) 0) + words.getD (n - 16) 0

/-- The 64 schedule words of the block that begins at position `start`. -/
def schedule (data : ByteArray) (start : Nat) : Array UInt32 :=
  (List.range 48).foldl (fun words _ => words.push (nextWord words))
    ((Array.range 16).map fun k => bigEndian32 data (start + 4 * k))

/-- One round takes in one schedule word. -/
def round (words : Array UInt32) (s : State) (k : Nat) : State :=
  let choice := (s.e &&& s.f) ^^^ ((~~~ s.e) &&& s.g)
  let majority := (s.a &&& s.b) ^^^ (s.a &&& s.c) ^^^ (s.b &&& s.c)
  let t := s.h + bigSigma1 s.e + choice + constants.getD k 0 + words.getD k 0
  ⟨t + bigSigma0 s.a + majority, s.a, s.b, s.c, s.d + t, s.e, s.f, s.g⟩

/-- The state takes in the block that begins at position `start`. -/
def absorb (data : ByteArray) (s : State) (start : Nat) : State :=
  s.add ((List.range 64).foldl (round (schedule data start)) s)

/-- The bytes of a word, most significant first. -/
def wordBytes (w : UInt32) : List UInt8 :=
  [(w >>> 24).toUInt8, (w >>> 16).toUInt8, (w >>> 8).toUInt8, w.toUInt8]

/-- The zero bytes between the closing mark and the length. -/
def zeroCount (size : Nat) : Nat := (119 - size % 64) % 64

/-- The message, a closing mark, zeros, and the length in bits as eight bytes. -/
def pad (message : ByteArray) : ByteArray :=
  let bits := message.size * 8
  let closing := 0x80 :: List.replicate (zeroCount message.size) 0 ++
    wordBytes (bits / 0x100000000).toUInt32 ++ wordBytes bits.toUInt32
  closing.foldl ByteArray.push message

/-- The digest of a byte string, 32 bytes. -/
def digest (message : ByteArray) : List UInt8 :=
  let data := pad message
  let final := ((List.range (data.size / 64)).map (64 * ·)).foldl (absorb data) State.start
  final.words.flatMap wordBytes

@[simp] theorem length_wordBytes (w : UInt32) : (wordBytes w).length = 4 := rfl

@[simp] theorem length_digest (message : ByteArray) : (digest message).length = 32 := by
  simp [digest, State.words]

end MarkupLowering.Digest.Sha256
