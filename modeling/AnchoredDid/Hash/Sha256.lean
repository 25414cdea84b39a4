import AnchoredDid.Bytes

/-!
# SHA-256

The hash of FIPS 180-4 over byte strings. The chaining value is a structure of eight words, so a
hash has thirty-two bytes by the shape of its type.
-/

namespace AnchoredDid.Sha256

/-- The chaining value. -/
structure Chain where
  (a b c d e f g h : UInt32)
  deriving DecidableEq

def Chain.initial : Chain where
  a := 0x6a09e667
  b := 0xbb67ae85
  c := 0x3c6ef372
  d := 0xa54ff53a
  e := 0x510e527f
  f := 0x9b05688c
  g := 0x1f83d9ab
  h := 0x5be0cd19

/-- One constant for each of the sixty-four rounds. -/
def roundConstants : List UInt32 :=
  [0x428a2f98, 0x71374491, 0xb5c0fbcf, 0xe9b5dba5, 0x3956c25b, 0x59f111f1, 0x923f82a4, 0xab1c5ed5,
    0xd807aa98, 0x12835b01, 0x243185be, 0x550c7dc3, 0x72be5d74, 0x80deb1fe, 0x9bdc06a7, 0xc19bf174,
    0xe49b69c1, 0xefbe4786, 0x0fc19dc6, 0x240ca1cc, 0x2de92c6f, 0x4a7484aa, 0x5cb0a9dc, 0x76f988da,
    0x983e5152, 0xa831c66d, 0xb00327c8, 0xbf597fc7, 0xc6e00bf3, 0xd5a79147, 0x06ca6351, 0x14292967,
    0x27b70a85, 0x2e1b2138, 0x4d2c6dfc, 0x53380d13, 0x650a7354, 0x766a0abb, 0x81c2c92e, 0x92722c85,
    0xa2bfe8a1, 0xa81a664b, 0xc24b8b70, 0xc76c51a3, 0xd192e819, 0xd6990624, 0xf40e3585, 0x106aa070,
    0x19a4c116, 0x1e376c08, 0x2748774c, 0x34b0bcb5, 0x391c0cb3, 0x4ed8aa4a, 0x5b9cca4f, 0x682e6ff3,
    0x748f82ee, 0x78a5636f, 0x84c87814, 0x8cc70208, 0x90befffa, 0xa4506ceb, 0xbef9a3f7, 0xc67178f2]

def rotateRight (x : UInt32) (n : UInt32) : UInt32 :=
  (x >>> n) ||| (x <<< (32 - n))

/-- The words of a block, most significant byte first. -/
def words : Bytes → List UInt32
  | b3 :: b2 :: b1 :: b0 :: rest =>
    ((b3.toUInt32 <<< 24) ||| (b2.toUInt32 <<< 16) ||| (b1.toUInt32 <<< 8) ||| b0.toUInt32)
      :: words rest
  | _ => []

/-- The word of the message schedule that comes after others, of which the latest is first. -/
def nextWord (earlier : List UInt32) : UInt32 :=
  let w1 := earlier.getD 14 0
  let w14 := earlier.getD 1 0
  let s0 := rotateRight w1 7 ^^^ rotateRight w1 18 ^^^ (w1 >>> 3)
  let s1 := rotateRight w14 17 ^^^ rotateRight w14 19 ^^^ (w14 >>> 10)
  earlier.getD 15 0 + s0 + earlier.getD 6 0 + s1

/-- The schedule with `count` more words, latest first. -/
def extend : (count : Nat) → List UInt32 → List UInt32
  | 0, earlier => earlier
  | count + 1, earlier => extend count (nextWord earlier :: earlier)

/-- The sixty-four words of the message schedule, from the sixteen of the block. -/
def schedule (block : List UInt32) : List UInt32 :=
  (extend 48 block.reverse).reverse

/-- One round, with the sum of its constant and its schedule word. -/
def Chain.round (s : Chain) (kw : UInt32) : Chain :=
  let sum1 := rotateRight s.e 6 ^^^ rotateRight s.e 11 ^^^ rotateRight s.e 25
  let choice := (s.e &&& s.f) ^^^ ((s.e ^^^ 0xffffffff) &&& s.g)
  let t1 := s.h + sum1 + choice + kw
  let sum0 := rotateRight s.a 2 ^^^ rotateRight s.a 13 ^^^ rotateRight s.a 22
  let majority := (s.a &&& s.b) ^^^ (s.a &&& s.c) ^^^ (s.b &&& s.c)
  { a := t1 + sum0 + majority, b := s.a, c := s.b, d := s.c,
    e := s.d + t1, f := s.e, g := s.f, h := s.g }

def Chain.add (s t : Chain) : Chain where
  a := s.a + t.a
  b := s.b + t.b
  c := s.c + t.c
  d := s.d + t.d
  e := s.e + t.e
  f := s.f + t.f
  g := s.g + t.g
  h := s.h + t.h

/-- The chaining value after one block of sixty-four bytes. -/
def Chain.absorb (s : Chain) (block : Bytes) : Chain :=
  let summands := roundConstants.zip (schedule (words block))
  s.add (summands.foldl (fun s kw => s.round (kw.1 + kw.2)) s)

/-- Absorbs whole blocks, `count` of them. -/
def Chain.absorbBlocks (s : Chain) : (count : Nat) → Bytes → Chain
  | 0, _ => s
  | count + 1, bytes => (s.absorb (bytes.take 64)).absorbBlocks count (bytes.drop 64)

/-- The message with a one bit, zero bits and its length in bits, filling whole blocks. -/
def padded (message : Bytes) : Bytes :=
  message ++ 0x80 :: List.replicate ((119 - message.length % 64) % 64) 0
    ++ Bytes.ofNat 8 (8 * message.length)

def wordBytes (x : UInt32) : Bytes :=
  [(x >>> 24).toUInt8, (x >>> 16).toUInt8, (x >>> 8).toUInt8, x.toUInt8]

def Chain.bytes (s : Chain) : Bytes :=
  wordBytes s.a ++ wordBytes s.b ++ wordBytes s.c ++ wordBytes s.d
    ++ wordBytes s.e ++ wordBytes s.f ++ wordBytes s.g ++ wordBytes s.h

@[simp] theorem Chain.length_bytes (s : Chain) : s.bytes.length = 32 := rfl

/-- The chaining value after the whole padded message. -/
def chain (message : Bytes) : Chain :=
  let full := padded message
  Chain.initial.absorbBlocks (full.length / 64) full

end AnchoredDid.Sha256
