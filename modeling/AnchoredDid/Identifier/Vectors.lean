import AnchoredDid.Identifier

/-!
# Known identifiers

Identifiers whose parts and texts are fixed. Every encoder and decoder of identifiers must take each
of these parts to its text and back.
-/

namespace AnchoredDid

structure KnownIdentifier where
  name : String
  identifier : Identifier
  did : String

namespace KnownIdentifier

/-- The key of all identifiers of keys here. -/
def key : Bytes :=
  [0x03, 0x62, 0x0d, 0x4f, 0xb8, 0xd5, 0xc4, 0x0b, 0x0d, 0xc2, 0xf9, 0xfd, 0x84, 0x63, 0x6d, 0x85,
    0x48, 0x7e, 0x51, 0xec, 0xf5, 0x5f, 0xbc, 0xd5, 0xcc, 0xf0, 0x8c, 0x6a, 0xc1, 0x48, 0xbc, 0x8a,
    0x36]

/-- The hash of all external identifiers here: the first thirty-two bytes in order. -/
def hash : Bytes :=
  (List.range 32).map UInt8.ofNat

def ofKey (network : Network) (did : String) : KnownIdentifier :=
  ⟨"KEY " ++ network.name, ⟨.key, 1, network, key⟩, did⟩

def ofHash (network : Network) (did : String) : KnownIdentifier :=
  ⟨"EXTERNAL " ++ network.name, ⟨.external, 1, network, hash⟩, did⟩

def all : List KnownIdentifier :=
  [ofKey .bitcoin "did:btcr2:k1qqpkyr20hr2ugzcdctulmprrdkz5slj3an64l0x4encgc6kpfz7g5dsaaw53r",
    ofKey .signet "did:btcr2:k1qypkyr20hr2ugzcdctulmprrdkz5slj3an64l0x4encgc6kpfz7g5dsekdtnx",
    ofKey .regtest "did:btcr2:k1qgpkyr20hr2ugzcdctulmprrdkz5slj3an64l0x4encgc6kpfz7g5ds4tgr4f",
    ofKey .testnet3 "did:btcr2:k1qvpkyr20hr2ugzcdctulmprrdkz5slj3an64l0x4encgc6kpfz7g5ds3qtuhv",
    ofKey .testnet4 "did:btcr2:k1qspkyr20hr2ugzcdctulmprrdkz5slj3an64l0x4encgc6kpfz7g5dsdczneh",
    ofKey .mutinynet "did:btcr2:k1q5pkyr20hr2ugzcdctulmprrdkz5slj3an64l0x4encgc6kpfz7g5dsfnpvmj",
    ⟨"KEY bitcoin version 16", ⟨.key, 16, .bitcoin, key⟩,
      "did:btcr2:k17qpkyr20hr2ugzcdctulmprrdkz5slj3an64l0x4encgc6kpfz7g5dsrm42t6"⟩,
    ofHash .bitcoin "did:btcr2:x1qqqqzqsrqszsvpcgpy9qkrqdpc83qygjzv2p29shrqv35xcur50p7xgdez8",
    ofHash .regtest "did:btcr2:x1qgqqzqsrqszsvpcgpy9qkrqdpc83qygjzv2p29shrqv35xcur50p7mlwwyq"]

/-- Whether parts and text lead to each other, with the text or the first error. -/
def check (k : KnownIdentifier) : Bool × String :=
  match k.identifier.encode, Identifier.decode k.did with
  | .ok did, .ok i => (did = k.did && i = k.identifier, did)
  | .error e, _ | _, .error e => (false, e.message)

end KnownIdentifier

end AnchoredDid
