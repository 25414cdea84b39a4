import AnchoredDid.Identifier
import AnchoredDid.Patch.Pointer

/-!
# Failures

What can go wrong when documents and updates are made or read. Each failure names its cause; the
words for it are in `message`.
-/

namespace AnchoredDid

/-- Why a value is no document, or lacks a part that was asked for. -/
inductive DocumentError where
  /-- The text is not JSON. -/
  | notJson
  | notObject
  | missingId
  | deactivatedNotBoolean
  | notArray (member : String)
  | methodWithoutId
  | methodWithoutType (method : String)
  | duplicateMethod (method : String)
  | methodWithoutKey (method : String)
  | unknownBeaconKind (name : String)
  /-- A patch would give the document another id. -/
  | idChanged (source target : String)
  deriving DecidableEq, Repr

def DocumentError.message : DocumentError → String
  | .notJson => "malformed document: not JSON"
  | .notObject => "malformed document: document must be a JSON object"
  | .missingId => "malformed document: missing string id"
  | .deactivatedNotBoolean => "malformed document: deactivated must be a boolean"
  | .notArray member => s!"malformed document: {member} must be an array"
  | .methodWithoutId => "malformed document: verification method without id"
  | .methodWithoutType method => s!"malformed document: verification method {method} has no type"
  | .duplicateMethod method => s!"malformed document: duplicate verification method {method}"
  | .methodWithoutKey method => s!"malformed document: {method} has no publicKeyMultibase"
  | .unknownBeaconKind name => s!"malformed document: unknown beacon type {name}"
  | .idChanged source target =>
    s!"malformed document: patch changes document id from {source} to {target}"

/-- Why a beacon's endpoint gives no address. -/
inductive AddressError where
  | notBitcoin (endpoint : String)
  /-- What follows the scheme is no address, or one of another network. -/
  | unusable (address : String)
  | notString (service : String)
  deriving DecidableEq, Repr

def AddressError.message : AddressError → String
  | .notBitcoin endpoint => s!"invalid beacon address: {endpoint}"
  | .unusable address => s!"invalid beacon address: {address}"
  | .notString service => s!"invalid beacon address: {service} endpoint is not a string"

inductive ProofError where
  | unexpectedType (name : String)
  | unexpectedSuite (name : String)
  | missingValue
  deriving DecidableEq, Repr

def ProofError.message : ProofError → String
  | .unexpectedType name => s!"malformed proof: unexpected proof type {name}"
  | .unexpectedSuite name => s!"malformed proof: unexpected cryptosuite {name}"
  | .missingValue => "malformed proof: missing proofValue"

/-- Why a genesis document is not valid. -/
inductive GenesisFault where
  | notKey
  | notExternal
  | identifier (cause : IdentifierError)
  | document (cause : DocumentError)
  | otherId (found did : String)
  deriving DecidableEq, Repr

def GenesisFault.message : GenesisFault → String
  | .notKey => "not a KEY identifier"
  | .notExternal => "not an EXTERNAL identifier"
  | .identifier cause => cause.message
  | .document cause => cause.message
  | .otherId found did => s!"genesis document id {found} is not {did}"

/-- Why an identifier has no genesis document. -/
inductive GenesisError where
  | missing
  | hashMismatch (expected actual : Digest)
  | invalid (fault : GenesisFault)
  deriving DecidableEq

def GenesisError.message : GenesisError → String
  | .missing => "EXTERNAL identifier requires a sidecar genesis document"
  | .hashMismatch expected actual =>
    s!"genesis document hash mismatch: expected {expected.toHex}, got {actual.toHex}"
  | .invalid fault => s!"invalid genesis document: {fault.message}"

inductive Failure where
  | key (cause : KeyError)
  | document (cause : DocumentError)
  | proof (cause : ProofError)
  | address (cause : AddressError)
  | patch (cause : PatchError)
  | identifier (cause : IdentifierError)
  | genesis (cause : GenesisError)
  | methodNotFound (method : String)
  | unauthorized (method : String)
  | keyMismatch (method : String)
  | deactivated (did : String)
  deriving DecidableEq

def Failure.message : Failure → String
  | .key cause => cause.message
  | .document cause => cause.message
  | .proof cause => cause.message
  | .address cause => cause.message
  | .patch cause => s!"patch error: {cause.message}"
  | .identifier cause => s!"identifier error: {cause.message}"
  | .genesis cause => s!"genesis error: {cause.message}"
  | .methodNotFound method => s!"verification method not found: {method}"
  | .unauthorized method => s!"verification method {method} is not in capabilityInvocation"
  | .keyMismatch method => s!"keypair does not match verification method {method}"
  | .deactivated did => s!"document {did} is deactivated"

end AnchoredDid
