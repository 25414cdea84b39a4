import AnchoredDid.Failure
import AnchoredDid.Json.Canonical
import AnchoredDid.Json.Record

/-!
# Data integrity proofs

A proof signs the hash of two hashes: that of its own configuration, which is the proof without its
value, and that of the document it belongs to. Members of a proof that have no field here are kept
and belong to the configuration.
-/

namespace AnchoredDid

structure Proof where
  type : String
  suite : String
  /-- The method whose key signs. -/
  method : String
  purpose : String
  capability : Option String
  action : Option String
  /-- The signature in multibase. -/
  signature : Option String
  extra : Members Json

namespace Proof

/-- The only type of proof. -/
def dataIntegrity : String := "DataIntegrityProof"

/-- The only cryptosuite: BIP-340 signatures of canonical JSON. -/
def bip340Suite : String := "bip340-jcs-2025"

/-- The purpose of every proof of an update. -/
def invocation : String := "capabilityInvocation"

/-- The action that a root capability allows. -/
def write : String := "Write"

/-- The names of the members that have fields. -/
def fieldNames : List String :=
  ["type", "cryptosuite", "verificationMethod", "proofPurpose", "capability", "capabilityAction",
    "proofValue"]

def toJson (p : Proof) : Json :=
  let fields := Members.ofList
    ([("type", .string p.type), ("cryptosuite", .string p.suite),
        ("verificationMethod", .string p.method), ("proofPurpose", .string p.purpose)]
      ++ Json.optional "capability" (p.capability.map .string)
      ++ Json.optional "capabilityAction" (p.action.map .string)
      ++ Json.optional "proofValue" (p.signature.map .string))
  .object (Members.override fields p.extra)

/-- Reads an object; the members without fields are kept. -/
def ofJson? (value : Json) : Option Proof := do
  let members ← value.object?
  let text (name : String) : Option String := (Members.find? name members).bind Json.string?
  let optionalText (name : String) := Json.optionally Json.string? (Members.find? name members)
  some {
    type := ← text "type"
    suite := ← text "cryptosuite"
    method := ← text "verificationMethod"
    purpose := ← text "proofPurpose"
    capability := ← optionalText "capability"
    action := ← optionalText "capabilityAction"
    signature := ← optionalText "proofValue"
    extra := Members.without fieldNames members }

/-- The proof without its signature. -/
def config (p : Proof) : Proof :=
  { p with signature := none }

/-- What is signed. -/
def digest (p : Proof) (document : Json) : Digest :=
  sha256 (p.config.toJson.hash.bytes ++ document.hash.bytes)

/-- A proof by a method that invokes no capability. -/
def unsigned (method : String) : Proof :=
  ⟨dataIntegrity, bip340Suite, method, invocation, none, none, none, []⟩

/-- The proof invokes a capability to write. -/
def invoking (p : Proof) (capability : String) : Proof :=
  { p with capability := some capability, action := some write }

/-- The proof with a pair's signature. -/
def signedBy (p : Proof) (pair : Keypair) (document : Json) : Proof :=
  { p with signature := some (pair.sign (p.digest document)).toMultibase }

/-- The type is looked at first, then the suite, then the signature. -/
def verify (p : Proof) (document : Json) (key : PublicKey) : Except Failure Unit :=
  if p.type ≠ dataIntegrity then .error (.proof (.unexpectedType p.type))
  else if p.suite ≠ bip340Suite then .error (.proof (.unexpectedSuite p.suite))
  else
    match p.signature with
    | none => .error (.proof .missingValue)
    | some text =>
      match Signature.ofMultibase text with
      | .error e => .error (.key (.multibase e))
      | .ok signature =>
        if key.verifies (p.digest document) signature then .ok ()
        else .error (.key .invalidSignature)

end Proof

end AnchoredDid
