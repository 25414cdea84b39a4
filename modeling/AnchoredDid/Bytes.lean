/-!
# Byte strings

A byte string is a list of bytes. Numbers are written into it with their most significant byte
first, unless a name here says otherwise.
-/

namespace AnchoredDid

abbrev Bytes := List UInt8

namespace Bytes

/-- The number that the bytes spell in base 256. -/
def toNat (bytes : Bytes) : Nat :=
  bytes.foldl (fun n b => n * 256 + b.toNat) 0

/-- The last `width` base-256 digits of a number, most significant first. -/
def ofNat : (width : Nat) → (n : Nat) → Bytes
  | 0, _ => []
  | width + 1, n => ofNat width (n / 256) ++ [UInt8.ofNat n]

/-- The last `width` base-256 digits of a number, least significant first. -/
def ofNatLittle : (width : Nat) → (n : Nat) → Bytes
  | 0, _ => []
  | width + 1, n => UInt8.ofNat n :: ofNatLittle width (n / 256)

/-- The number that the bytes spell in base 256, least significant byte first. -/
def toNatLittle : Bytes → Nat
  | [] => 0
  | b :: rest => b.toNat + 256 * toNatLittle rest

/-- The bytes that write a text in UTF-8. -/
def ofText (text : String) : Bytes :=
  text.toUTF8.data.toList

@[simp] theorem length_ofNat (width n : Nat) : (ofNat width n).length = width := by
  induction width generalizing n with
  | zero => rfl
  | succ width ih => simp [ofNat, ih]

@[simp] theorem length_ofNatLittle (width n : Nat) : (ofNatLittle width n).length = width := by
  induction width generalizing n with
  | zero => rfl
  | succ width ih => simp [ofNatLittle, ih]

/-- The bits of a byte, most significant first. -/
def bitsOfByte (b : UInt8) : List Bool :=
  [b.toNat.testBit 7, b.toNat.testBit 6, b.toNat.testBit 5, b.toNat.testBit 4,
    b.toNat.testBit 3, b.toNat.testBit 2, b.toNat.testBit 1, b.toNat.testBit 0]

/-- The bits of a byte string, each byte from its most significant bit. -/
def bits (bytes : Bytes) : List Bool :=
  bytes.flatMap bitsOfByte

/-- One of these bits, by its number. -/
def bit (bytes : Bytes) (i : Nat) : Bool :=
  (bytes.getD (i / 8) 0).toNat.testBit (7 - i % 8)

/-- The number that bits spell, most significant first. -/
def natOfBits (bits : List Bool) : Nat :=
  bits.foldl (fun n b => 2 * n + b.toNat) 0

@[simp] theorem length_bitsOfByte (b : UInt8) : (bitsOfByte b).length = 8 := rfl

theorem length_bits (bytes : Bytes) : (bits bytes).length = 8 * bytes.length := by
  induction bytes with
  | nil => rfl
  | cons b bytes ih =>
    have : bits (b :: bytes) = bitsOfByte b ++ bits bytes := rfl
    rw [this, List.length_append, ih, length_bitsOfByte, List.length_cons]
    omega

/-- The bytes that bits spell, eight at a time; fewer than eight at the end are dropped. -/
def ofBits : List Bool → Bytes
  | b7 :: b6 :: b5 :: b4 :: b3 :: b2 :: b1 :: b0 :: rest =>
    UInt8.ofNat (natOfBits [b7, b6, b5, b4, b3, b2, b1, b0]) :: ofBits rest
  | _ => []

end Bytes

end AnchoredDid
