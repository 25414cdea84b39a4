import AnchoredDid.SparseTree
import AnchoredDid.Update

/-!
# Sidecar data

A signal is only thirty-two bytes. What they lead to comes with the request: updates,
announcements, tree proofs, and the genesis document of an external identifier. Entries are kept as
they came; those that cannot be read are passed over, so one of them never spoils another.
-/

namespace AnchoredDid

/-- The hash of the update announced for each identifier. -/
abbrev Announcement := Members Digest

namespace Announcement

def toJson (a : Announcement) : Json :=
  .object (a.map fun m => (m.1, Json.ofDigest m.2))

def ofJson? (value : Json) : Option Announcement := do
  (← value.object?).mapM fun m => do return (m.1, ← m.2.digest?)

/-- What beacons announce. -/
def hash (a : Announcement) : Digest := a.toJson.hash

end Announcement

structure Sidecar where
  genesisDocument : Option Json
  updates : List Json
  announcements : List Json
  proofs : List Json
  /-- The height below which no signal can be. -/
  genesisHeight : Option Nat

namespace Sidecar

def empty : Sidecar := ⟨none, [], [], [], none⟩

def addUpdate (s : Sidecar) (u : Update) : Sidecar :=
  { s with updates := s.updates ++ [u.toJson] }

def addAnnouncement (s : Sidecar) (a : Announcement) : Sidecar :=
  { s with announcements := s.announcements ++ [a.toJson] }

def addProof (s : Sidecar) (p : TreeProof) : Sidecar :=
  { s with proofs := s.proofs ++ [p.toJson] }

def toJson (s : Sidecar) : Json :=
  Json.ofMembers (Json.optional "genesisDocument" s.genesisDocument
    ++ [("updates", .array s.updates), ("casAnnouncements", .array s.announcements),
      ("smtProofs", .array s.proofs)]
    ++ Json.optional "genesisHeight" (s.genesisHeight.map Json.ofNat))

def ofJson? (value : Json) : Option Sidecar := do
  let names := ["genesisDocument", "updates", "casAnnouncements", "smtProofs", "genesisHeight"]
  match ← value.fields? names 0 with
  | [genesis, updates, announcements, proofs, height] =>
    some ⟨← Json.optionally some genesis, ← Json.orElse [] Json.array? updates,
      ← Json.orElse [] Json.array? announcements, ← Json.orElse [] Json.array? proofs,
      ← Json.optionally Json.nat? height⟩
  | _ => none

end Sidecar

/-- Entries by digest; putting one in takes the place of an earlier one with the same digest. -/
abbrev DigestMap (α : Type) := List (Digest × α)

namespace DigestMap

variable {α : Type}

def put (map : DigestMap α) (d : Digest) (value : α) : DigestMap α :=
  (d, value) :: map.filter fun entry => entry.1 ≠ d

def get? (map : DigestMap α) (d : Digest) : Option α :=
  (map.find? fun entry => entry.1 = d).map (·.2)

/-- The entries of the readable values, each under the digest that `digest` gives it. -/
def ofReadable (read : Json → Option α) (digest : Json → α → Digest) (values : List Json) :
    DigestMap α :=
  values.foldl
    (fun map value =>
      match read value with
      | some entry => put map (digest value entry) entry
      | none => map) []

end DigestMap

/-- Sidecar data that signals are looked up in. -/
structure SidecarIndex where
  /-- By the hash of the update as it came. -/
  updates : DigestMap Update
  /-- By the announcement's own hash. -/
  announcements : DigestMap Announcement
  /-- By the root that the proof is for. -/
  proofs : DigestMap TreeProof

def Sidecar.index (s : Sidecar) : SidecarIndex where
  updates := DigestMap.ofReadable Update.ofJson? (fun raw _ => raw.hash) s.updates
  announcements := DigestMap.ofReadable Announcement.ofJson? (fun _ a => a.hash) s.announcements
  proofs := DigestMap.ofReadable TreeProof.ofJson? (fun _ p => p.root) s.proofs

end AnchoredDid
