import AnchoredDid.Document

/-!
# Beacons of a document

The registry of a document lists the beacons to watch, in the order of its services. A service whose
endpoint is no address of the network is passed over, and so is one whose id was seen before.
-/

namespace AnchoredDid

structure Beacon where
  id : String
  kind : BeaconKind
  address : Address
  deriving DecidableEq

/-- The script that outputs of the beacon are locked by. -/
def Beacon.script (b : Beacon) : Bytes := b.address.script

def Beacon.toJson (b : Beacon) : Json :=
  Json.ofMembers [("id", b.id), ("type", b.kind.name), ("address", b.address.text),
    ("script", Json.ofBytes b.script)]

abbrev Registry := List Beacon

namespace Registry

/-- Adds a beacon unless its id is taken. -/
def add (registry : Registry) (b : Beacon) : Registry :=
  if registry.any fun other => other.id = b.id then registry else registry ++ [b]

/-- The beacon of a service, if its address can be used. -/
def beacon? (network : Network) (s : BeaconService) : Option Beacon :=
  (s.address network).toOption.map fun address => ⟨s.id, s.kind, address⟩

def ofDocument (d : Document) (network : Network) : Registry :=
  (d.beaconServices.filterMap (beacon? network)).foldl add []

def find? (registry : Registry) (id : String) : Option Beacon :=
  List.find? (fun b => b.id = id) registry

/-- The beacons locked by a script. -/
def matching (registry : Registry) (script : Bytes) : List Beacon :=
  registry.filter fun b => b.script = script

end Registry

end AnchoredDid
