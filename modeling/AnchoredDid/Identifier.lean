import AnchoredDid.Bytes.Bech32
import AnchoredDid.Json.Record
import AnchoredDid.Key
import AnchoredDid.Network
import AnchoredDid.Text.Replace

/-!
# Identifiers

An identifier says how its history begins: with a public key, or with a document whose hash it
carries. Its text is `did:btcr2:` and a Bech32m text, whose human-readable part tells the two kinds
apart and whose bytes are the version and network in one byte and the genesis bytes after it.
-/

namespace AnchoredDid

/-- What the genesis bytes of an identifier are. -/
inductive IdentifierKind where
  /-- The thirty-three bytes of a compressed public key. -/
  | key
  /-- The hash of the first document, which is supplied from elsewhere. -/
  | external
  deriving DecidableEq, Repr

namespace IdentifierKind

/-- The human-readable part of the identifier's text. -/
def label : IdentifierKind → String
  | key => "k"
  | external => "x"

def ofLabel? (label : String) : Option IdentifierKind :=
  [key, external].find? fun kind => kind.label = label

def name : IdentifierKind → String
  | key => "KEY"
  | external => "EXTERNAL"

def ofName? (name : String) : Option IdentifierKind :=
  [key, external].find? fun kind => kind.name = name

/-- The number of genesis bytes. -/
def genesisSize : IdentifierKind → Nat
  | key => 33
  | external => 32

end IdentifierKind

/-- Why a text is no identifier, or components have no text. -/
inductive IdentifierError where
  | missingPrefix
  | missingSeparator
  | invalidCharacter (c : Char)
  | mixedCase
  | invalidChecksum
  | unknownKind (label : String)
  /-- The human-readable part is not even well formed. -/
  | invalidLabel (cause : Bech32.ShapeError)
  | unknownNetwork (nibble : Nat)
  | unsupportedVersion (version : Nat)
  | invalidPadding
  | emptyPayload
  | genesisSize (kind : IdentifierKind) (size : Nat)
  | invalidGenesisKey
  deriving DecidableEq, Repr

/-- What is wrong with the human-readable part of a text. -/
def Bech32.ShapeError.message : Bech32.ShapeError → String
  | .missingSeparator => "missing bech32 separator"
  | .invalidCharacter c => s!"invalid character {Text.quotedChar c}"
  | .labelTooLong length => s!"hrp is too long, found {length} characters, must be <= 126"
  | .labelNotAscii c => s!"found non-ASCII character: {c}"
  | .labelInvalidByte c =>
    let digits := String.ofList (Nat.toDigits 16 c.toNat)
    s!"byte value is not valid US-ASCII: '{digits}'"

def IdentifierError.message : IdentifierError → String
  | .missingPrefix => "identifier must start with did:btcr2:"
  | .missingSeparator => "missing bech32 separator"
  | .invalidCharacter c => s!"invalid character {Text.quotedChar c}"
  | .mixedCase => "identifier mixes upper and lower case"
  | .invalidChecksum => "checksum mismatch"
  | .unknownKind label => s!"unknown identifier type prefix {Text.quoted label}"
  | .invalidLabel cause => s!"unknown identifier type prefix {Text.quoted cause.message}"
  | .unknownNetwork nibble => s!"unknown network 0x{String.ofList (Nat.toDigits 16 nibble)}"
  | .unsupportedVersion version => s!"unsupported version {version}"
  | .invalidPadding => "non-zero padding in identifier payload"
  | .emptyPayload => "identifier payload is empty"
  | .genesisSize kind size =>
    s!"{kind.name} genesis bytes must be {kind.genesisSize} bytes, got {size}"
  | .invalidGenesisKey => "genesis bytes are not a valid compressed public key"

/-- The parts of an identifier. `check` says which parts make one. -/
structure Identifier where
  kind : IdentifierKind
  version : Nat
  network : Network
  genesis : Bytes
  deriving DecidableEq

namespace Identifier

/-- The method all identifiers share. -/
def method : String := "did:btcr2:"

/-- The highest version that the first byte has room for. -/
def greatestVersion : Nat := 16

/-- The longest Bech32 text. -/
def lengthLimit : Nat := 1023

/-- The version is first, then the number of genesis bytes, then the key they are. -/
def check (i : Identifier) : Except IdentifierError Unit :=
  if i.version = 0 || greatestVersion < i.version then .error (.unsupportedVersion i.version)
  else if i.genesis.length ≠ i.kind.genesisSize then .error (.genesisSize i.kind i.genesis.length)
  else if i.kind = .key && (PublicKey.ofBytes? i.genesis).isNone then .error .invalidGenesisKey
  else .ok ()

/-- Parts that make an identifier. -/
def ofParts (kind : IdentifierKind) (version : Nat) (network : Network) (genesis : Bytes) :
    Except IdentifierError Identifier := do
  let i : Identifier := ⟨kind, version, network, genesis⟩
  i.check
  return i

/-- The first identifier version of a public key. -/
def ofKey (key : PublicKey) (network : Network) : Identifier :=
  ⟨.key, 1, network, key.bytes⟩

/-- The first identifier version of a document's hash. -/
def ofHash (hash : Digest) (network : Network) : Identifier :=
  ⟨.external, 1, network, hash.bytes⟩

def publicKey? (i : Identifier) : Option PublicKey :=
  match i.kind with
  | .key => PublicKey.ofBytes? i.genesis
  | .external => none

def genesisHash? (i : Identifier) : Option Digest :=
  match i.kind with
  | .key => none
  | .external => Digest.ofBytes? i.genesis

/-- The byte of version and network, and the genesis bytes. -/
def payload (i : Identifier) : Bytes :=
  UInt8.ofNat ((i.version - 1) * 16 + i.network.nibble) :: i.genesis

/-- The text of the parts, whether they make an identifier or not. -/
def text (i : Identifier) : String :=
  method ++ String.ofList
    (Bech32.encode .bech32m i.kind.label.toList (Bech32.symbolsOfBytes i.payload))

def encode (i : Identifier) : Except IdentifierError String := do
  i.check
  return i.text

/-- Texts in upper case are Bech32 too, but no identifiers. -/
def checkCase (body : List Char) : Except IdentifierError Unit :=
  match body.find? Char.isUpper with
  | none => .ok ()
  | some c => if body.any Char.isLower then .error .mixedCase else .error (.invalidCharacter c)

/-- The human-readable part and the data symbols of a Bech32m text. -/
def readBody (body : List Char) : Except IdentifierError (List Char × List Bech32.Symbol) :=
  match Bech32.parse body with
  | .error .missingSeparator => .error .missingSeparator
  | .error (.invalidCharacter c) => .error (.invalidCharacter c)
  | .error cause => .error (.invalidLabel cause)
  | .ok (label, symbols) =>
    if lengthLimit < body.length || symbols.length < 6
      || !Bech32.isValid .bech32m label symbols then .error .invalidChecksum
    else .ok (label, symbols.take (symbols.length - 6))

/-- The parts that a payload of this kind stands for. -/
def ofPayload (kind : IdentifierKind) : Bytes → Except IdentifierError Identifier
  | [] => .error .emptyPayload
  | head :: genesis =>
    match Network.ofNibble? (head.toNat % 16) with
    | none => .error (.unknownNetwork (head.toNat % 16))
    | some network => ofParts kind (head.toNat / 16 + 1) network genesis

def decode (text : String) : Except IdentifierError Identifier := do
  match Text.after? method.toList text.toList with
  | none => .error .missingPrefix
  | some body =>
    checkCase body
    let (label, symbols) ← readBody body
    if !Bech32.isPadded symbols then .error .invalidPadding
    else
      match IdentifierKind.ofLabel? (String.ofList label) with
      | none => .error (.unknownKind (String.ofList label))
      | some kind => ofPayload kind (Bech32.bytesOfSymbols symbols)

def toJson (i : Identifier) : Json :=
  Json.ofMembers [("idType", i.kind.name), ("version", Json.ofNat i.version),
    ("network", i.network.name), ("genesisBytes", Hex.encode i.genesis)]

/-- Reads the parts without checking that they make an identifier; a version has eight bits. -/
def ofJson? (value : Json) : Option Identifier := do
  match ← value.fields? ["idType", "version", "network", "genesisBytes"] 4 with
  | [some kind, some version, some network, some genesis] =>
    let kind ← IdentifierKind.ofName? (← kind.constant?)
    let version ← version.nat?
    let network ← Network.ofName? (← network.constant?)
    let genesis ← (Hex.decode (← genesis.string?)).toOption
    if version ≤ 255 then some ⟨kind, version, network, genesis⟩ else none
  | _ => none

end Identifier

end AnchoredDid
