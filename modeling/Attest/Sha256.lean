import Attest.Bytes

/-! # SHA-256

    The digest of a byte string.  The message is padded to whole blocks of
    sixteen words; each block is mixed into a chain of eight words by sixty-four
    rounds.  The words that the rounds use are produced by a window that slides
    over the message schedule, so no round indexes outside its type.  The digest
    always has 32 bytes (`length_digest`). -/

namespace Attest.Sha256

/-- The additive constants of the sixty-four rounds. -/
def roundConstants : List UInt32 :=
  [0x428a2f98, 0x71374491, 0xb5c0fbcf, 0xe9b5dba5, 0x3956c25b, 0x59f111f1, 0x923f82a4, 0xab1c5ed5,
   0xd807aa98, 0x12835b01, 0x243185be, 0x550c7dc3, 0x72be5d74, 0x80deb1fe, 0x9bdc06a7, 0xc19bf174,
   0xe49b69c1, 0xefbe4786, 0x0fc19dc6, 0x240ca1cc, 0x2de92c6f, 0x4a7484aa, 0x5cb0a9dc, 0x76f988da,
   0x983e5152, 0xa831c66d, 0xb00327c8, 0xbf597fc7, 0xc6e00bf3, 0xd5a79147, 0x06ca6351, 0x14292967,
   0x27b70a85, 0x2e1b2138, 0x4d2c6dfc, 0x53380d13, 0x650a7354, 0x766a0abb, 0x81c2c92e, 0x92722c85,
   0xa2bfe8a1, 0xa81a664b, 0xc24b8b70, 0xc76c51a3, 0xd192e819, 0xd6990624, 0xf40e3585, 0x106aa070,
   0x19a4c116, 0x1e376c08, 0x2748774c, 0x34b0bcb5, 0x391c0cb3, 0x4ed8aa4a, 0x5b9cca4f, 0x682e6ff3,
   0x748f82ee, 0x78a5636f, 0x84c87814, 0x8cc70208, 0x90befffa, 0xa4506ceb, 0xbef9a3f7, 0xc67178f2]

/-- The eight chaining words. -/
structure Chain where
  a : UInt32
  b : UInt32
  c : UInt32
  d : UInt32
  e : UInt32
  f : UInt32
  g : UInt32
  h : UInt32
  deriving DecidableEq, Repr

/-- The chain before the first block. -/
def Chain.initial : Chain :=
  ⟨0x6a09e667, 0xbb67ae85, 0x3c6ef372, 0xa54ff53a, 0x510e527f, 0x9b05688c, 0x1f83d9ab, 0x5be0cd19⟩

/-- Word by word addition. -/
def Chain.add (x y : Chain) : Chain :=
  ⟨x.a + y.a, x.b + y.b, x.c + y.c, x.d + y.d, x.e + y.e, x.f + y.f, x.g + y.g, x.h + y.h⟩

/-- Rotation to the right. -/
def rotate (x : UInt32) (n : UInt32) : UInt32 :=
  (x >>> n) ||| (x <<< (32 - n))

/-- One round with a word of the schedule and the constant of the round. -/
def Chain.round (s : Chain) (word constant : UInt32) : Chain :=
  let mixE := rotate s.e 6 ^^^ rotate s.e 11 ^^^ rotate s.e 25
  let choice := (s.e &&& s.f) ^^^ (~~~ s.e &&& s.g)
  let first := s.h + mixE + choice + constant + word
  let mixA := rotate s.a 2 ^^^ rotate s.a 13 ^^^ rotate s.a 22
  let majority := (s.a &&& s.b) ^^^ (s.a &&& s.c) ^^^ (s.b &&& s.c)
  ⟨first + (mixA + majority), s.a, s.b, s.c, s.d + first, s.e, s.f, s.g⟩

/-- Sixteen consecutive words of the message schedule. -/
abbrev Window := Vector UInt32 16

/-- The window one word further: the new last word mixes four earlier ones. -/
def Window.advance (w : Window) : Window :=
  let mixLow := rotate w[1] 7 ^^^ rotate w[1] 18 ^^^ (w[1] >>> 3)
  let mixHigh := rotate w[14] 17 ^^^ rotate w[14] 19 ^^^ (w[14] >>> 10)
  let last := w[0] + mixLow + w[9] + mixHigh
  Vector.ofFn fun i => if h : i.val + 1 < 16 then w[i.val + 1] else last

/-- The word that the first four bytes spell, highest first. -/
def word : Bytes → UInt32
  | p :: q :: r :: s :: _ =>
      (p.toUInt32 <<< 24) ||| (q.toUInt32 <<< 16) ||| (r.toUInt32 <<< 8) ||| s.toUInt32
  | _ => 0

/-- The sixteen words of the block that the bytes begin with. -/
def Window.ofBlock (bytes : Bytes) : Window :=
  Vector.ofFn fun i => word (bytes.drop (4 * i.val))

/-- Mixes one block into the chain. -/
def Chain.absorb (chain : Chain) (block : Bytes) : Chain :=
  let rounds := roundConstants.foldl
    (fun (s : Chain × Window) constant => (s.1.round s.2[0] constant, Window.advance s.2))
    (chain, Window.ofBlock block)
  chain.add rounds.1

/-- Mixes the given number of blocks into the chain, from the front of the
    bytes. -/
def Chain.absorbBlocks : Nat → Chain → Bytes → Chain
  | 0, chain, _ => chain
  | blocks + 1, chain, bytes => absorbBlocks blocks (chain.absorb bytes) (bytes.drop 64)

/-- The bytes of a 64-bit number, highest first. -/
def lengthField (n : Nat) : Bytes :=
  [56, 48, 40, 32, 24, 16, 8, 0].map fun shift => UInt8.ofNat (n >>> shift)

/-- The message with its padding: a one bit, zeros up to eight bytes before the
    end of a block, and the length in bits. -/
def padded (message : Bytes) : Bytes :=
  let zeros := (119 - message.length % 64) % 64
  message ++ 0x80 :: (List.replicate zeros 0 ++ lengthField (8 * message.length))

/-- The bytes of a word, highest first. -/
def wordBytes (w : UInt32) : Bytes :=
  [(w >>> 24).toUInt8, (w >>> 16).toUInt8, (w >>> 8).toUInt8, w.toUInt8]

/-- The bytes of the chain. -/
def Chain.bytes (s : Chain) : Bytes :=
  [s.a, s.b, s.c, s.d, s.e, s.f, s.g, s.h].flatMap wordBytes

/-- The SHA-256 digest of a message. -/
def digest (message : Bytes) : Bytes :=
  let blocks := padded message
  (Chain.initial.absorbBlocks (blocks.length / 64) blocks).bytes

/-- A digest has 32 bytes. -/
@[simp] theorem length_digest (message : Bytes) : (digest message).length = 32 := rfl

end Attest.Sha256
