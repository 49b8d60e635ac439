import AtsEndpoint.Digest

/-!
# MD5

The message is closed with a one bit, zeros and its length in bits, so that it
fills whole blocks of 64 bytes. Each block is folded into a state of four words
by 64 steps, sixteen in each of four rounds; the state after the last block is
the digest.
-/

namespace AtsEndpoint.Md5

/-- The four words that a block is folded into. -/
structure State where
  /-- The first word. -/
  a : UInt32
  /-- The second word. -/
  b : UInt32
  /-- The third word. -/
  c : UInt32
  /-- The fourth word. -/
  d : UInt32
deriving DecidableEq, Repr

/-- The state before the first block. -/
def State.start : State :=
  ⟨0x67452301, 0xefcdab89, 0x98badcfe, 0x10325476⟩

/-- Add two states word by word. -/
def State.add (s t : State) : State :=
  ⟨s.a + t.a, s.b + t.b, s.c + t.c, s.d + t.d⟩

/-- The integer parts of `2 ^ 32` times the absolute sines of 1 to 64. -/
def sines : Vector UInt32 64 :=
  #v[
    0xd76aa478, 0xe8c7b756, 0x242070db, 0xc1bdceee,
    0xf57c0faf, 0x4787c62a, 0xa8304613, 0xfd469501,
    0x698098d8, 0x8b44f7af, 0xffff5bb1, 0x895cd7be,
    0x6b901122, 0xfd987193, 0xa679438e, 0x49b40821,
    0xf61e2562, 0xc040b340, 0x265e5a51, 0xe9b6c7aa,
    0xd62f105d, 0x02441453, 0xd8a1e681, 0xe7d3fbc8,
    0x21e1cde6, 0xc33707d6, 0xf4d50d87, 0x455a14ed,
    0xa9e3e905, 0xfcefa3f8, 0x676f02d9, 0x8d2a4c8a,
    0xfffa3942, 0x8771f681, 0x6d9d6122, 0xfde5380c,
    0xa4beea44, 0x4bdecfa9, 0xf6bb4b60, 0xbebfbc70,
    0x289b7ec6, 0xeaa127fa, 0xd4ef3085, 0x04881d05,
    0xd9d4d039, 0xe6db99e5, 0x1fa27cf8, 0xc4ac5665,
    0xf4292244, 0x432aff97, 0xab9423a7, 0xfc93a039,
    0x655b59c3, 0x8f0ccc92, 0xffeff47d, 0x85845dd1,
    0x6fa87e4f, 0xfe2ce6e0, 0xa3014314, 0x4e0811a1,
    0xf7537e82, 0xbd3af235, 0x2ad7d2bb, 0xeb86d391]

/-- The rotations of the four rounds, each repeated four times in its round. -/
def rotations : Vector UInt32 16 :=
  #v[7, 12, 17, 22, 5, 9, 14, 20, 4, 11, 16, 23, 6, 10, 15, 21]

/-- Rotate a word to the left by less than its width. -/
def rotateLeft (word amount : UInt32) : UInt32 :=
  word <<< amount ||| word >>> (32 - amount)

/-- The mixing function of a step and the index of the block word it takes. -/
def mix (s : State) (step : Nat) : UInt32 × Nat :=
  match step / 16 with
  | 0 => ((s.b &&& s.c) ||| (~~~s.b &&& s.d), step)
  | 1 => ((s.d &&& s.b) ||| (~~~s.d &&& s.c), 5 * step + 1)
  | 2 => (s.b ^^^ s.c ^^^ s.d, 3 * step + 5)
  | _ => (s.c ^^^ (s.b ||| ~~~s.d), 7 * step)

/-- One step over a block of sixteen words. -/
def State.step (block : Vector UInt32 16) (s : State) (step : Fin 64) : State :=
  let (mixed, index) := mix s step
  let sum := s.a + mixed + sines[step] + block[index % 16]
  let rotation := rotations[4 * (step.val / 16) + step.val % 4]
  ⟨s.d, s.b + rotateLeft sum rotation, s.b, s.c⟩

/-- Fold one block into the state. -/
def State.absorb (s : State) (block : Vector UInt32 16) : State :=
  s.add (Fin.foldl 64 (State.step block) s)

/-- The number of zero bytes that bring a closed message to whole blocks. -/
def zeroCount (size : Nat) : Nat := (119 - size % 64) % 64

/-- What is put behind a message of `size` bytes: a one bit, zeros, and the
length in bits as eight bytes, the least significant first. -/
def closing (size : Nat) : ByteArray :=
  let bits := (8 * size).toUInt64
  let lengthBytes := Array.ofFn fun i : Fin 8 => (bits >>> (8 * i.val).toUInt64).toUInt8
  ⟨#[0x80] ++ Array.replicate (zeroCount size) 0 ++ lengthBytes⟩

/-- The byte at a position, zero past the end. -/
def byteAt (message : ByteArray) (i : Nat) : UInt8 :=
  if h : i < message.size then message[i] else 0

/-- The little-endian word at a position. -/
def wordAt (message : ByteArray) (i : Nat) : UInt32 :=
  (byteAt message i).toUInt32 ||| (byteAt message (i + 1)).toUInt32 <<< 8
    ||| (byteAt message (i + 2)).toUInt32 <<< 16 ||| (byteAt message (i + 3)).toUInt32 <<< 24

/-- The sixteen words of block number `k`. -/
def blockAt (message : ByteArray) (k : Nat) : Vector UInt32 16 :=
  Vector.ofFn fun i => wordAt message (64 * k + 4 * i.val)

/-- The digest of a message. -/
def digest (message : ByteArray) : Digest :=
  let closed := message ++ closing message.size
  let final := (closed.size / 64).fold (fun k _ s => State.absorb s (blockAt closed k)) State.start
  Digest.ofWords #v[final.a, final.b, final.c, final.d]

end AtsEndpoint.Md5
