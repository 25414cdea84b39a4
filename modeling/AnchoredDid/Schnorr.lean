import AnchoredDid.Digest
import AnchoredDid.Secp256k1

/-!
# Schnorr signatures after BIP-340

Keys are abscissas; the ordinate is the even one of the two. Signing takes no randomness, the
auxiliary bytes being zero, so a key and a message have one signature.
-/

namespace AnchoredDid.Schnorr

open Secp256k1

/-- The hash of a message in the domain that a tag names. -/
def taggedHash (tag : String) (message : Bytes) : Bytes :=
  let t := (sha256 (Bytes.ofText tag)).bytes
  (sha256 (t ++ t ++ message)).bytes

/-- The challenge of a nonce, a key and a message. -/
def challenge (nonce key : Bytes) (message : Bytes) : Nat :=
  (taggedHash "BIP0340/challenge" (nonce ++ key ++ message)).toNat % groupOrder

/-- The secret or its negative, whichever belongs to the even ordinate. -/
def evenSecret (secret y : Nat) : Nat :=
  if y % 2 = 0 then secret else groupOrder - secret

/-- The abscissa of the nonce and the response to its challenge. A nonce of zero, which no known
message leads to, gives no signature. -/
def sign? (secret : Nat) (message : Bytes) : Option (Nat × Nat) := do
  let (x, y) ← (Point.multiple secret Point.generator).affine?
  let d := evenSecret secret y
  let key := Bytes.ofNat 32 x
  let mask := (taggedHash "BIP0340/aux" (List.replicate 32 0)).toNat
  let seed := taggedHash "BIP0340/nonce" (Bytes.ofNat 32 (d ^^^ mask) ++ key ++ message)
  let (rx, ry) ← (Point.multiple (seed.toNat % groupOrder) Point.generator).affine?
  let k := evenSecret (seed.toNat % groupOrder) ry
  let e := challenge (Bytes.ofNat 32 rx) key message
  some (rx, (k + e * d) % groupOrder)

/-- Whether `s` times the generator is the nonce plus the challenge times the key. -/
def verify (key : Nat) (message : Bytes) (r s : Nat) : Bool :=
  if fieldOrder ≤ r || groupOrder ≤ s then false
  else
    match Point.lift? key false with
    | none => false
    | some (x, y) =>
      let e := challenge (Bytes.ofNat 32 r) (Bytes.ofNat 32 x) message
      let sum := (Point.multiple s Point.generator).add
        (Point.multiple (groupOrder - e) (Point.ofAffine x y))
      match sum.affine? with
      | none => false
      | some (rx, ry) => ry % 2 = 0 && rx = r

end AnchoredDid.Schnorr
