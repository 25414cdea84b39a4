import AnchoredDid.Bytes.Hex
import AnchoredDid.Hash.Sha256

/-!
# Digests

A digest is the SHA-256 hash of some bytes: thirty-two bytes, written as lower-case hexadecimal.
Hashes of documents and updates, announcements and tree roots are all digests.
-/

namespace AnchoredDid

structure Digest where
  bytes : Bytes
  size : bytes.length = 32
  deriving DecidableEq

namespace Digest

def ofBytes? (bytes : Bytes) : Option Digest :=
  if h : bytes.length = 32 then some ⟨bytes, h⟩ else none

/-- Thirty-two zero bytes; no preimage of it is known. -/
def zero : Digest := ⟨List.replicate 32 0, rfl⟩

def isZero (d : Digest) : Bool :=
  d = zero

def toHex (d : Digest) : String :=
  Hex.encode d.bytes

def ofHex (text : String) : Except HexError Digest :=
  match Hex.decode text with
  | .error e => .error e
  | .ok bytes => if h : bytes.length = 32 then .ok ⟨bytes, h⟩ else .error .invalidLength

/-- The digest shortened for a log. -/
def brief (d : Digest) : String :=
  "ContentHash(" ++ Hex.encode (d.bytes.take 8) ++ ")"

/-- The bits of a digest, from its first byte's most significant bit. -/
def bits (d : Digest) : List Bool :=
  Bytes.bits d.bytes

/-- One of these bits, by its number. -/
def bit (d : Digest) (i : Nat) : Bool :=
  Bytes.bit d.bytes i

@[ext] theorem ext {d e : Digest} (h : d.bytes = e.bytes) : d = e := by
  cases d; cases e; simp_all

@[simp] theorem length_bytes (d : Digest) : d.bytes.length = 32 := d.size

@[simp] theorem ofBytes?_bytes (d : Digest) : ofBytes? d.bytes = some d := by
  simp [ofBytes?]

@[simp] theorem length_bits (d : Digest) : d.bits.length = 256 := by
  simp [bits, Bytes.length_bits]

-- Digests are ordered as byte strings are.
instance : Ord Digest := ⟨compareOn Digest.bytes⟩

instance : Std.TransOrd Digest := inferInstanceAs (Std.TransCmp (compareOn Digest.bytes))

instance : Std.LawfulEqOrd Digest where
  eq_of_compare h := ext (Std.LawfulEqOrd.eq_of_compare h)

end Digest

/-- The SHA-256 hash of a byte string. -/
def sha256 (message : Bytes) : Digest :=
  ⟨(Sha256.chain message).bytes, Sha256.Chain.length_bytes _⟩

end AnchoredDid
