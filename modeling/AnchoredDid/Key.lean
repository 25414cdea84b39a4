import AnchoredDid.Bytes.Base58
import AnchoredDid.Schnorr

/-!
# Keys and signatures

A public key is the compressed form of a point, checked when it is made. Keys and signatures are
also written in multibase: the letter `z` and base 58, a key behind the two bytes that say what
kind of key it is.
-/

namespace AnchoredDid

/-- Why a multibase text does not stand for the key or signature asked for. -/
inductive MultibaseError where
  | missingMarker (text : String)
  | notBase58 (text : String)
  | notMultikey (text : String)
  | signatureSize (size : Nat)
  deriving DecidableEq, Repr

def MultibaseError.message : MultibaseError → String
  | .missingMarker text => s!"expected 'z' prefix: {text}"
  | .notBase58 text => s!"invalid base58btc: {text}"
  | .notMultikey text => s!"not a secp256k1 multikey: {text}"
  | .signatureSize size => s!"signature must be 64 bytes, got {size}"

inductive KeyError where
  | invalidPublicKey
  | invalidSecretKey
  | invalidSignature
  | multibase (cause : MultibaseError)
  deriving DecidableEq, Repr

def KeyError.message : KeyError → String
  | .invalidPublicKey => "invalid public key"
  | .invalidSecretKey => "invalid secret key"
  | .invalidSignature => "invalid signature"
  | .multibase cause => s!"invalid multibase value: {cause.message}"

namespace Multibase

def encode (bytes : Bytes) : String :=
  String.ofList ('z' :: Base58.encodeChars bytes)

def decode (text : String) : Except MultibaseError Bytes :=
  match text.toList with
  | 'z' :: rest =>
    match Base58.decodeChars? rest with
    | some bytes => .ok bytes
    | none => .error (.notBase58 text)
  | _ => .error (.missingMarker text)

end Multibase

structure PublicKey where
  bytes : Bytes
  onCurve : (Secp256k1.Point.decompress? bytes).isSome
  deriving DecidableEq

/-- Sixty-four bytes; whether they sign anything is up to verification. -/
structure Signature where
  bytes : Bytes
  size : bytes.length = 64
  deriving DecidableEq

namespace Signature

def ofBytes? (bytes : Bytes) : Option Signature :=
  if h : bytes.length = 64 then some ⟨bytes, h⟩ else none

def toHex (s : Signature) : String :=
  Hex.encode s.bytes

def toMultibase (s : Signature) : String :=
  Multibase.encode s.bytes

def ofMultibase (text : String) : Except MultibaseError Signature :=
  match Multibase.decode text with
  | .error e => .error e
  | .ok bytes =>
    if h : bytes.length = 64 then .ok ⟨bytes, h⟩ else .error (.signatureSize bytes.length)

/-- The signature shortened for a log. -/
def brief (s : Signature) : String :=
  "SchnorrSig(" ++ Hex.encode (s.bytes.take 8) ++ "...)"

end Signature

namespace PublicKey

def ofBytes? (bytes : Bytes) : Option PublicKey :=
  if h : (Secp256k1.Point.decompress? bytes).isSome then some ⟨bytes, h⟩ else none

def ofHex? (text : String) : Option PublicKey :=
  (Hex.decode text).toOption.bind ofBytes?

def toHex (key : PublicKey) : String :=
  Hex.encode key.bytes

/-- The abscissa, which is all that signatures see of a key. -/
def xOnly (key : PublicKey) : Bytes :=
  key.bytes.drop 1

/-- The key shortened for a log. -/
def brief (key : PublicKey) : String :=
  "PublicKey(" ++ Hex.encode (key.bytes.take 8) ++ ")"

/-- The mark of a compressed secp256k1 key. -/
def multikeyMark : Bytes := [0xe7, 0x01]

def toMultikey (key : PublicKey) : String :=
  Multibase.encode (multikeyMark ++ key.bytes)

def ofMultikey (text : String) : Except KeyError PublicKey :=
  match Multibase.decode text with
  | .error e => .error (.multibase e)
  | .ok (0xe7 :: 0x01 :: bytes) =>
    match ofBytes? bytes with
    | some key => .ok key
    | none => .error .invalidPublicKey
  | .ok _ => .error (.multibase (.notMultikey text))

/-- Whether the key's owner signed the digest. -/
def verifies (key : PublicKey) (digest : Digest) (signature : Signature) : Bool :=
  Schnorr.verify key.xOnly.toNat digest.bytes
    (Bytes.toNat (signature.bytes.take 32)) (Bytes.toNat (signature.bytes.drop 32))

end PublicKey

/-- A secret between zero and the order of the group, with its public key. -/
structure Keypair where
  secret : Nat
  publicKey : PublicKey

namespace Keypair

def ofSecret? (bytes : Bytes) : Option Keypair := do
  let secret := bytes.toNat
  if bytes.length = 32 ∧ 0 < secret ∧ secret < Secp256k1.groupOrder then
    let (x, y) ← (Secp256k1.Point.multiple secret Secp256k1.Point.generator).affine?
    let key ← PublicKey.ofBytes? (Secp256k1.Point.compress x y)
    some ⟨secret, key⟩
  else none

def secretBytes (pair : Keypair) : Bytes :=
  Bytes.ofNat 32 pair.secret

/-- The signature of a digest, the same each time. -/
def sign (pair : Keypair) (digest : Digest) : Signature :=
  let (r, s) := (Schnorr.sign? pair.secret digest.bytes).getD (0, 0)
  ⟨Bytes.ofNat 32 r ++ Bytes.ofNat 32 s, by simp⟩

/-- The pair's public key shortened for a log. -/
def brief (pair : Keypair) : String :=
  "Keypair(" ++ pair.publicKey.brief ++ ")"

end Keypair

end AnchoredDid
