import AnchoredDid.Bytes.Base58
import AnchoredDid.Bytes.Bech32
import AnchoredDid.Hash.Ripemd160
import AnchoredDid.Key
import AnchoredDid.Network

/-!
# Addresses

An address names an output script: one that pays to the hash of a key or of another script, or a
witness program. Hashes are written in checked base 58, witness programs in Bech32 (version zero) or
Bech32m (the others).
-/

namespace AnchoredDid

/-- The human-readable part of a witness address. -/
inductive WitnessLabel where
  | main
  | test
  | regtest
  deriving DecidableEq, Repr

def WitnessLabel.text : WitnessLabel → String
  | .main => "bc"
  | .test => "tb"
  | .regtest => "bcrt"

def WitnessLabel.ofText? (text : String) : Option WitnessLabel :=
  [WitnessLabel.main, .test, .regtest].find? fun label => label.text = text

inductive Address where
  | keyHash (main : Bool) (hash : Bytes)
  | scriptHash (main : Bool) (hash : Bytes)
  | witness (label : WitnessLabel) (version : Nat) (program : Bytes)
  deriving DecidableEq

namespace Address

/-- The hash that shortens keys and scripts. -/
def hash160 (bytes : Bytes) : Bytes :=
  Ripemd160.hash (sha256 bytes).bytes

def witnessLabel : AddressNetwork → WitnessLabel
  | .bitcoin => .main
  | .testnet | .signet => .test
  | .regtest => .regtest

/-- The address of a key's hash. -/
def ofKeyHash (key : PublicKey) (network : AddressNetwork) : Address :=
  keyHash (network = .bitcoin) (hash160 key.bytes)

/-- The witness address, of version zero, of a key's hash. -/
def ofWitnessKeyHash (key : PublicKey) (network : AddressNetwork) : Address :=
  witness (witnessLabel network) 0 (hash160 key.bytes)

/-- The abscissa of the output key after BIP-341, without a script tree: the key of even ordinate
plus the multiple of the generator that the key's tagged hash names. -/
def taprootKey (key : PublicKey) : Bytes :=
  let tweak := (Schnorr.taggedHash "TapTweak" key.xOnly).toNat
  let internal := match Secp256k1.Point.lift? key.xOnly.toNat false with
    | some (x, y) => Secp256k1.Point.ofAffine x y
    | none => Secp256k1.Point.infinity
  let output := (internal.add (Secp256k1.Point.multiple tweak Secp256k1.Point.generator)).affine?
  Bytes.ofNat 32 (output.map (·.1) |>.getD 0)

/-- The witness address, of version one, that the key alone can spend from. -/
def ofTaproot (key : PublicKey) (network : AddressNetwork) : Address :=
  witness (witnessLabel network) 1 (taprootKey key)

def versionByte : Address → UInt8
  | keyHash true _ => 0x00
  | keyHash false _ => 0x6f
  | scriptHash true _ => 0x05
  | scriptHash false _ => 0xc4
  | witness _ version _ => UInt8.ofNat version

/-- The checksum variant of a witness version. -/
def variant (version : Nat) : Bech32.Variant :=
  if version = 0 then .bech32 else .bech32m

def text (a : Address) : String :=
  match a with
  | keyHash _ hash | scriptHash _ hash => Base58.encodeChecked (a.versionByte :: hash)
  | witness label version program =>
    String.ofList (Bech32.encode (variant version) label.text.toList
      (BitVec.ofNat 5 version :: Bech32.symbolsOfBytes program))

/-- The output script that the address names. -/
def script : Address → Bytes
  | keyHash _ hash => [0x76, 0xa9, 0x14] ++ hash ++ [0x88, 0xac]
  | scriptHash _ hash => [0xa9, 0x14] ++ hash ++ [0x87]
  | witness _ version program =>
    (if version = 0 then 0x00 else UInt8.ofNat (0x50 + version))
      :: UInt8.ofNat program.length :: program

/-- Whether outputs with this address belong to the network. -/
def isFor (a : Address) (network : AddressNetwork) : Bool :=
  match a with
  | keyHash main _ | scriptHash main _ => main = (network = .bitcoin)
  | witness label _ _ => label = witnessLabel network

/-- Version zero has programs of two sizes, the others of any between two and forty bytes. -/
def isProgramSize (version size : Nat) : Bool :=
  if version = 0 then size = 20 || size = 32 else 2 ≤ size && size ≤ 40

/-- A witness address in all lower or all upper case. -/
def ofWitnessText? (text : List Char) : Option Address := do
  if text.any Char.isUpper && text.any Char.isLower then none
  else
    let lower := text.map Char.toLower
    let (label, symbols) ← (Bech32.parse lower).toOption
    let label' ← WitnessLabel.ofText? (String.ofList label)
    let version := (symbols.headD 0).toNat
    if symbols.length < 7 || 16 < version
      || !Bech32.isValid (variant version) label symbols then none
    else
      let data := (symbols.take (symbols.length - 6)).drop 1
      let program := Bech32.bytesOfSymbols data
      if Bech32.isPadded data && isProgramSize version program.length then
        some (witness label' version program)
      else none

/-- The address of a hash behind its version byte. -/
def ofVersioned? : Bytes → Option Address
  | version :: hash =>
    if hash.length ≠ 20 then none
    else if version = 0x00 then some (keyHash true hash)
    else if version = 0x6f then some (keyHash false hash)
    else if version = 0x05 then some (scriptHash true hash)
    else if version = 0xc4 then some (scriptHash false hash)
    else none
  | [] => none

/-- The address that a text writes. -/
def ofText? (text : String) : Option Address :=
  match ofWitnessText? text.toList with
  | some a => some a
  | none => (Base58.decodeChecked? text).bind ofVersioned?

end Address

end AnchoredDid
