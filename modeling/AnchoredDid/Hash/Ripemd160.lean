import AnchoredDid.Bytes

/-!
# RIPEMD-160

The hash of twenty bytes that shortens a key or a script in an address. Two lines of eighty steps
read the same block in different orders, and their ends are added crosswise to the chaining value.
-/

namespace AnchoredDid.Ripemd160

structure Chain where
  (a b c d e : UInt32)
  deriving DecidableEq

def Chain.initial : Chain where
  a := 0x67452301
  b := 0xefcdab89
  c := 0x98badcfe
  d := 0x10325476
  e := 0xc3d2e1f0

def rotateLeft (x : UInt32) (n : UInt32) : UInt32 :=
  (x <<< n) ||| (x >>> (32 - n))

def flipped (x : UInt32) : UInt32 := x ^^^ 0xffffffff

/-- The five mixing functions, each used in sixteen steps of a line. -/
def mix (group : Nat) (x y z : UInt32) : UInt32 :=
  match group with
  | 0 => x ^^^ y ^^^ z
  | 1 => (x &&& y) ||| (flipped x &&& z)
  | 2 => (x ||| flipped y) ^^^ z
  | 3 => (x &&& z) ||| (y &&& flipped z)
  | _ => x ^^^ (y ||| flipped z)

/-- Sixteen steps: the mixing function, the constant, and a word index and a rotation per step. -/
structure Group where
  mixing : Nat
  constant : UInt32
  steps : List (Nat × UInt32)

def leftLine : List Group :=
  [⟨0, 0x00000000, [(0, 11), (1, 14), (2, 15), (3, 12), (4, 5), (5, 8), (6, 7), (7, 9), (8, 11),
      (9, 13), (10, 14), (11, 15), (12, 6), (13, 7), (14, 9), (15, 8)]⟩,
    ⟨1, 0x5a827999, [(7, 7), (4, 6), (13, 8), (1, 13), (10, 11), (6, 9), (15, 7), (3, 15), (12, 7),
      (0, 12), (9, 15), (5, 9), (2, 11), (14, 7), (11, 13), (8, 12)]⟩,
    ⟨2, 0x6ed9eba1, [(3, 11), (10, 13), (14, 6), (4, 7), (9, 14), (15, 9), (8, 13), (1, 15),
      (2, 14), (7, 8), (0, 13), (6, 6), (13, 5), (11, 12), (5, 7), (12, 5)]⟩,
    ⟨3, 0x8f1bbcdc, [(1, 11), (9, 12), (11, 14), (10, 15), (0, 14), (8, 15), (12, 9), (4, 8),
      (13, 9), (3, 14), (7, 5), (15, 6), (14, 8), (5, 6), (6, 5), (2, 12)]⟩,
    ⟨4, 0xa953fd4e, [(4, 9), (0, 15), (5, 5), (9, 11), (7, 6), (12, 8), (2, 13), (10, 12), (14, 5),
      (1, 12), (3, 13), (8, 14), (11, 11), (6, 8), (15, 5), (13, 6)]⟩]

def rightLine : List Group :=
  [⟨4, 0x50a28be6, [(5, 8), (14, 9), (7, 9), (0, 11), (9, 13), (2, 15), (11, 15), (4, 5), (13, 7),
      (6, 7), (15, 8), (8, 11), (1, 14), (10, 14), (3, 12), (12, 6)]⟩,
    ⟨3, 0x5c4dd124, [(6, 9), (11, 13), (3, 15), (7, 7), (0, 12), (13, 8), (5, 9), (10, 11), (14, 7),
      (15, 7), (8, 12), (12, 7), (4, 6), (9, 15), (1, 13), (2, 11)]⟩,
    ⟨2, 0x6d703ef3, [(15, 9), (5, 7), (1, 15), (3, 11), (7, 8), (14, 6), (6, 6), (9, 14), (11, 12),
      (8, 13), (12, 5), (2, 14), (10, 13), (0, 13), (4, 7), (13, 5)]⟩,
    ⟨1, 0x7a6d76e9, [(8, 15), (6, 5), (4, 8), (1, 11), (3, 14), (11, 14), (15, 6), (0, 14), (5, 6),
      (12, 9), (2, 12), (13, 9), (9, 12), (7, 5), (10, 15), (14, 8)]⟩,
    ⟨0, 0x00000000, [(12, 8), (15, 5), (10, 12), (4, 9), (1, 12), (5, 5), (8, 14), (7, 6), (6, 8),
      (2, 13), (13, 6), (14, 5), (0, 15), (3, 13), (9, 11), (11, 11)]⟩]

def Chain.step (s : Chain) (mixing : Nat) (constant word rotation : UInt32) : Chain where
  a := s.e
  b := rotateLeft (s.a + mix mixing s.b s.c s.d + word + constant) rotation + s.e
  c := s.b
  d := rotateLeft s.c 10
  e := s.d

/-- A whole line over the words of a block. -/
def Chain.run (block : Array UInt32) (line : List Group) (s : Chain) : Chain :=
  line.foldl
    (fun s g => g.steps.foldl (fun s i => s.step g.mixing g.constant (block.getD i.1 0) i.2) s) s

/-- The words of a block, least significant byte first. -/
def words : Bytes → List UInt32
  | b0 :: b1 :: b2 :: b3 :: rest =>
    ((b3.toUInt32 <<< 24) ||| (b2.toUInt32 <<< 16) ||| (b1.toUInt32 <<< 8) ||| b0.toUInt32)
      :: words rest
  | _ => []

def Chain.absorb (s : Chain) (block : Bytes) : Chain :=
  let block := (words block).toArray
  let l := s.run block leftLine
  let r := s.run block rightLine
  { a := s.b + l.c + r.d, b := s.c + l.d + r.e, c := s.d + l.e + r.a, d := s.e + l.a + r.b,
    e := s.a + l.b + r.c }

def Chain.absorbBlocks (s : Chain) : (count : Nat) → Bytes → Chain
  | 0, _ => s
  | count + 1, bytes => (s.absorb (bytes.take 64)).absorbBlocks count (bytes.drop 64)

/-- The message with a one bit, zero bits and its length in bits, filling whole blocks. -/
def padded (message : Bytes) : Bytes :=
  message ++ 0x80 :: List.replicate ((119 - message.length % 64) % 64) 0
    ++ Bytes.ofNatLittle 8 (8 * message.length)

def wordBytes (x : UInt32) : Bytes :=
  [x.toUInt8, (x >>> 8).toUInt8, (x >>> 16).toUInt8, (x >>> 24).toUInt8]

def Chain.bytes (s : Chain) : Bytes :=
  wordBytes s.a ++ wordBytes s.b ++ wordBytes s.c ++ wordBytes s.d ++ wordBytes s.e

/-- The twenty bytes of the hash. -/
def hash (message : Bytes) : Bytes :=
  let full := padded message
  (Chain.initial.absorbBlocks (full.length / 64) full).bytes

@[simp] theorem length_hash (message : Bytes) : (hash message).length = 20 := rfl

end AnchoredDid.Ripemd160
