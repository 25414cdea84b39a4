import AnchoredDid.Digest

/-!
# Long runs of hashes

A path of a tree has a hash on each of its levels, and words of 32 bits are slow to evaluate in a
proof. `Numbers` does what `Chain` does with natural numbers, which are fast where their operations
are called by name. The words of the hash of two digests are found in this way from the words of the
two (`Digest.words_sha256_append`).
-/

namespace AnchoredDid

namespace Sha256

/-- A chaining value of natural numbers. -/
structure Numbers where
  (a b c d e f g h : Nat)

/-- A chaining value as numbers. -/
def Chain.numbers (s : Chain) : Numbers where
  a := s.a.toNat
  b := s.b.toNat
  c := s.c.toNat
  d := s.d.toNat
  e := s.e.toNat
  f := s.f.toNat
  g := s.g.toNat
  h := s.h.toNat

namespace Numbers

/-! ## Words as numbers -/

def plus (x y : Nat) : Nat :=
  Nat.mod (Nat.add x y) 0x100000000

def rotateRight (x n : Nat) : Nat :=
  Nat.lor (Nat.shiftRight x n) (Nat.mod (Nat.shiftLeft x (Nat.sub 32 n)) 0x100000000)

/-- The words that are read stand one, six, fourteen and fifteen places behind the latest. -/
def nextWord (earlier : List Nat) : Nat :=
  let earlier1 := earlier.tail
  let earlier6 := earlier1.tail.tail.tail.tail.tail
  let earlier14 := earlier6.tail.tail.tail.tail.tail.tail.tail.tail
  let w1 := earlier14.headD 0
  let w14 := earlier1.headD 0
  let s0 := Nat.xor (Nat.xor (rotateRight w1 7) (rotateRight w1 18)) (Nat.shiftRight w1 3)
  let s1 := Nat.xor (Nat.xor (rotateRight w14 17) (rotateRight w14 19)) (Nat.shiftRight w14 10)
  plus (plus (plus (earlier14.tail.headD 0) s0) (earlier6.headD 0)) s1

def extend : (count : Nat) → List Nat → List Nat
  | 0, earlier => earlier
  | count + 1, earlier => extend count (nextWord earlier :: earlier)

def round (s : Numbers) (kw : Nat) : Numbers :=
  let sum1 := Nat.xor (Nat.xor (rotateRight s.e 6) (rotateRight s.e 11)) (rotateRight s.e 25)
  let choice := Nat.xor (Nat.land s.e s.f) (Nat.land (Nat.xor s.e 0xffffffff) s.g)
  let t1 := plus (plus (plus s.h sum1) choice) kw
  let sum0 := Nat.xor (Nat.xor (rotateRight s.a 2) (rotateRight s.a 13)) (rotateRight s.a 22)
  let majority := Nat.xor (Nat.xor (Nat.land s.a s.b) (Nat.land s.a s.c)) (Nat.land s.b s.c)
  { a := plus (plus t1 sum0) majority, b := s.a, c := s.b, d := s.c,
    e := plus s.d t1, f := s.e, g := s.f, h := s.g }

def add (s t : Numbers) : Numbers where
  a := plus s.a t.a
  b := plus s.b t.b
  c := plus s.c t.c
  d := plus s.d t.d
  e := plus s.e t.e
  f := plus s.f t.f
  g := plus s.g t.g
  h := plus s.h t.h

/-- The chaining value after one block of sixteen words. -/
def absorb (s : Numbers) (block : List Nat) : Numbers :=
  let summands := (roundConstants.map UInt32.toNat).zip (extend 48 block.reverse).reverse
  s.add (summands.foldl (fun s kw => s.round (plus kw.1 kw.2)) s)

def toList (s : Numbers) : List Nat :=
  [s.a, s.b, s.c, s.d, s.e, s.f, s.g, s.h]

/-- The words of the hash of sixteen words. The second block is the padding of the first. -/
def hash (block : List Nat) : List Nat :=
  let padding := [0x80000000, 0, 0, 0, 0, 0, 0, 0, 0, 0, 0, 0, 0, 0, 0, 512]
  ((Chain.initial.numbers.absorb block).absorb padding).toList

end Numbers

theorem toNat_rotateRight (x n : UInt32) (hpos : 0 < n.toNat) (hlt : n.toNat < 32) :
    (rotateRight x n).toNat = Numbers.rotateRight x.toNat n.toNat := by
  have hle : n ≤ 32 := UInt32.le_iff_toNat_le.2 (Nat.le_of_lt hlt)
  have hsub : (32 - n).toNat = 32 - n.toNat := UInt32.toNat_sub_of_le _ _ hle
  rw [rotateRight, UInt32.toNat_or, UInt32.toNat_shiftRight, UInt32.toNat_shiftLeft, hsub,
    Nat.mod_eq_of_lt hlt, Nat.mod_eq_of_lt (Nat.sub_lt (by decide) hpos)]
  rfl

theorem toNat_add (x y : UInt32) : (x + y).toNat = Numbers.plus x.toNat y.toNat :=
  UInt32.toNat_add x y

theorem toNat_getD (words : List UInt32) (n : Nat) :
    (words.getD n 0).toNat = ((words.map UInt32.toNat).drop n).headD 0 := by
  rw [List.headD_eq_head?_getD, List.head?_drop, List.getElem?_map, List.getD_eq_getElem?_getD]
  cases words[n]? <;> rfl

theorem toNat_nextWord (earlier : List UInt32) :
    (nextWord earlier).toNat = Numbers.nextWord (earlier.map UInt32.toNat) := by
  simp (disch := decide) only [nextWord, toNat_add, UInt32.toNat_xor, UInt32.toNat_shiftRight,
    toNat_rotateRight, toNat_getD]
  simp only [Numbers.nextWord, ← List.drop_one, List.drop_drop]
  rfl

theorem map_toNat_extend (count : Nat) (earlier : List UInt32) :
    (extend count earlier).map UInt32.toNat =
      Numbers.extend count (earlier.map UInt32.toNat) := by
  induction count generalizing earlier with
  | zero => rfl
  | succ count ih => rw [extend, ih, List.map_cons, toNat_nextWord, Numbers.extend]

theorem numbers_round (s : Chain) (kw : UInt32) :
    (s.round kw).numbers = s.numbers.round kw.toNat := by
  simp (disch := decide) only [Chain.round, Chain.numbers, toNat_add, UInt32.toNat_xor,
    UInt32.toNat_and, toNat_rotateRight]
  rfl

theorem numbers_add (s t : Chain) : (s.add t).numbers = s.numbers.add t.numbers := by
  simp only [Chain.add, Chain.numbers, toNat_add]
  rfl

theorem numbers_rounds (summands : List (UInt32 × UInt32)) (s : Chain) :
    (summands.foldl (fun s kw => s.round (kw.1 + kw.2)) s).numbers =
      (summands.map (Prod.map UInt32.toNat UInt32.toNat)).foldl
        (fun s kw => s.round (Numbers.plus kw.1 kw.2)) s.numbers := by
  induction summands generalizing s with
  | nil => rfl
  | cons kw summands ih =>
      rw [List.foldl_cons, ih, numbers_round, toNat_add]
      rfl

theorem numbers_absorb (s : Chain) (block : Bytes) :
    (s.absorb block).numbers = s.numbers.absorb ((words block).map UInt32.toNat) := by
  rw [Chain.absorb, numbers_add, numbers_rounds, ← List.zip_map, schedule, List.map_reverse,
    map_toNat_extend, List.map_reverse]
  rfl

/-! ## Words of bytes -/

theorem words_append {bytes : Bytes} (h : 4 ∣ bytes.length) (rest : Bytes) :
    words (bytes ++ rest) = words bytes ++ words rest := by
  fun_induction words bytes with
  | case1 b3 b2 b1 b0 bytes ih =>
      have hbytes : 4 ∣ bytes.length := (Nat.dvd_add_left (Nat.dvd_refl 4)).1 h
      simp only [List.cons_append, words, ih hbytes]
  | case2 bytes hshort =>
      match bytes, h with
      | [], _ => rfl
      | [_], h | [_, _], h | [_, _, _], h =>
        exact (Nat.not_dvd_of_pos_of_lt (Nat.succ_pos _) (by simp) h).elim
      | b3 :: b2 :: b1 :: b0 :: bytes, _ => exact (hshort b3 b2 b1 b0 bytes rfl).elim

/-- The four bytes of a word spell it again, bit by bit. -/
theorem words_wordBytes (x : UInt32) : words (wordBytes x) = [x] := by
  have hbyte (n : Nat) : n % 256 = n % 2 ^ 8 := rfl
  simp only [words, wordBytes, List.cons.injEq, and_true]
  refine UInt32.toNat.inj (Nat.eq_of_testBit_eq fun i => ?_)
  have hlarge (h : 32 ≤ i) : x.toNat.testBit i = false :=
    Nat.testBit_lt_two_pow (Nat.lt_of_lt_of_le x.toNat_lt (Nat.pow_le_pow_right (by decide) h))
  simp [hbyte, Nat.testBit_mod_two_pow, -Nat.reducePow]
  grind

theorem words_bytes (s : Chain) : (words s.bytes).map UInt32.toNat = s.numbers.toList := by
  have hword (x : UInt32) (rest : Bytes) : words (wordBytes x ++ rest) = x :: words rest := by
    have hlength : 4 ∣ (wordBytes x).length := Nat.dvd_refl 4
    rw [words_append hlength, words_wordBytes, List.singleton_append]
  simp only [Chain.bytes, List.append_assoc, hword, words_wordBytes]
  rfl

/-- What fills up a message of sixty-four bytes. -/
def padding : Bytes :=
  0x80 :: List.replicate 55 0 ++ Bytes.ofNat 8 512

/-- Sixty-four bytes fill a block, and their padding fills another one. -/
theorem chain_of_length {message : Bytes} (h : message.length = 64) :
    chain message = (Chain.initial.absorb message).absorb padding := by
  have hpadded : padded message = message ++ padding := by
    rw [padded, h, List.append_assoc, padding]
  have hcount : (message ++ padding).length / 64 = 2 := by
    rw [List.length_append, h]
    rfl
  rw [chain, hpadded, hcount, Chain.absorbBlocks, List.take_left' h, List.drop_left' h]
  rfl

end Sha256

namespace Digest

open Sha256 (Numbers)

/-- The eight words of a digest. -/
def words (d : Digest) : List Nat :=
  (Sha256.words d.bytes).map UInt32.toNat

theorem words_sha256_append (d e : Digest) :
    (sha256 (d.bytes ++ e.bytes)).words = Numbers.hash (d.words ++ e.words) := by
  have hlength : (d.bytes ++ e.bytes).length = 64 := by rw [List.length_append, d.size, e.size]
  have hwords : (Sha256.words (d.bytes ++ e.bytes)).map UInt32.toNat = d.words ++ e.words := by
    rw [Sha256.words_append (by rw [d.size]; decide), List.map_append]
    rfl
  rw [words, sha256, Sha256.words_bytes, Sha256.chain_of_length hlength, Sha256.numbers_absorb,
    Sha256.numbers_absorb, hwords]
  rfl

end Digest

end AnchoredDid
