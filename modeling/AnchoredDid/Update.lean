import AnchoredDid.Genesis
import AnchoredDid.Patch
import AnchoredDid.Proof

/-!
# Updates

An update is a patch from one version of a document to the next, with the hashes of both and a
proof. It is known to beacons by its hash. Members that have no field here are kept, so that they
stay part of what is hashed and signed.
-/

namespace AnchoredDid

structure UnsignedUpdate where
  context : List String
  patch : Patch
  sourceHash : Digest
  targetHash : Digest
  sourceVersion : Nat
  extra : Members Json

structure Update where
  unsigned : UnsignedUpdate
  proof : Proof

/-- The capability to update a document: its identifier with the colons escaped. -/
def rootCapability (did : String) : String :=
  "urn:zcap:root:" ++ String.ofList (Text.replaceAll [':'] ['%', '3', 'A'] did.toList)

namespace UnsignedUpdate

/-- The contexts of updates made here. -/
def contexts : List String :=
  ["https://w3id.org/security/v2", "https://w3id.org/zcap/v1", "https://w3id.org/json-ld-patch/v1",
    "https://btcr2.dev/context/v1"]

/-- The names of the members that have fields. -/
def fieldNames : List String :=
  ["@context", "patch", "sourceHash", "targetHash", "sourceVersionId"]

/-- The members that have fields. An empty context is left out. -/
def members (u : UnsignedUpdate) : Members Json :=
  Members.ofList
    (Json.optional "@context"
        (if u.context.isEmpty then none else some (.array (u.context.map .string)))
      ++ [("patch", u.patch.toJson), ("sourceHash", Json.ofDigest u.sourceHash),
        ("targetHash", Json.ofDigest u.targetHash),
        ("sourceVersionId", Json.ofNat u.sourceVersion)])

def toJson (u : UnsignedUpdate) : Json :=
  .object (Members.override u.members u.extra)

/-- Reads the fields of an object and keeps the members whose names are not `taken`. -/
def read? (taken : List String) (value : Json) : Option UnsignedUpdate := do
  let members ← value.object?
  some {
    context := ← Json.orElse [] (Json.listOf? Json.string?) (Members.find? "@context" members)
    patch := ← (Members.find? "patch" members).bind Patch.ofJson?
    sourceHash := ← (Members.find? "sourceHash" members).bind Json.digest?
    targetHash := ← (Members.find? "targetHash" members).bind Json.digest?
    sourceVersion := ← (Members.find? "sourceVersionId" members).bind Json.nat?
    extra := Members.without taken members }

def ofJson? (value : Json) : Option UnsignedUpdate :=
  read? fieldNames value

end UnsignedUpdate

namespace Update

/-- A further member named `proof` takes the place of the proof. -/
def toJson (u : Update) : Json :=
  .object (Members.override (Members.insert "proof" u.proof.toJson u.unsigned.members)
    u.unsigned.extra)

def ofJson? (value : Json) : Option Update := do
  let unsigned ← UnsignedUpdate.read? ("proof" :: UnsignedUpdate.fieldNames) value
  let proof ← (value.member? "proof").bind Proof.ofJson?
  some ⟨unsigned, proof⟩

/-- What beacons announce. -/
def hash (u : Update) : Digest := u.toJson.hash

end Update

end AnchoredDid
