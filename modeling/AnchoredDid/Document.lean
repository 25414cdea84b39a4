import AnchoredDid.Address
import AnchoredDid.Failure
import AnchoredDid.Json.Canonical

/-!
# Documents

A document is a JSON value that passed `Document.check`. The value is what is hashed and patched, so
members that nothing here reads survive; methods, relationships and services are read from it when
they are asked for. An id that starts with `#` is relative to the document's own id.
-/

namespace AnchoredDid

/-- A public key that the document lends a name, or a pointer to one of another kind. -/
structure Method where
  id : String
  type : String
  controller : String
  multibase : Option String
  deriving DecidableEq

structure Service where
  id : String
  type : String
  endpoint : Json

/-- How the thirty-two bytes of a signal lead to an update. -/
inductive BeaconKind where
  /-- They are the update's hash. -/
  | singleton
  /-- They are the hash of an announcement. -/
  | announcement
  /-- They are the root of a sparse Merkle tree. -/
  | tree
  deriving DecidableEq, Repr

/-- A service that announces updates through an address. -/
structure BeaconService where
  id : String
  kind : BeaconKind
  endpoint : String
  deriving DecidableEq

/-- A reference made absolute against a document's id. -/
def absoluteRef (id reference : String) : String :=
  match reference.toList with
  | '#' :: _ => id ++ reference
  | _ => reference

namespace Method

/-- The method of a secp256k1 key. -/
def ofKey (id controller : String) (key : PublicKey) : Method :=
  ⟨id, "Multikey", controller, some key.toMultikey⟩

def key (m : Method) : Except Failure PublicKey :=
  match m.multibase with
  | none => .error (.document (.methodWithoutKey m.id))
  | some text =>
    match PublicKey.ofMultikey text with
    | .ok key => .ok key
    | .error e => .error (.key e)

def toJson (m : Method) : Json :=
  Json.ofMembers
    ([("id", .string m.id), ("type", .string m.type), ("controller", .string m.controller)]
      ++ Json.optional "publicKeyMultibase" (m.multibase.map .string))

def ofJson? (value : Json) : Option Method := do
  match ← value.fields? ["id", "type", "controller", "publicKeyMultibase"] 4 with
  | [some id, some type, some controller, multibase] =>
    some ⟨← id.string?, ← type.string?, ← controller.string?,
      ← Json.optionally Json.string? multibase⟩
  | _ => none

end Method

namespace Service

def toJson (s : Service) : Json :=
  Json.ofMembers [("id", s.id), ("type", s.type), ("serviceEndpoint", s.endpoint)]

def ofJson? (value : Json) : Option Service := do
  match ← value.fields? ["id", "type", "serviceEndpoint"] 3 with
  | [some id, some type, some endpoint] => some ⟨← id.string?, ← type.string?, endpoint⟩
  | _ => none

end Service

namespace BeaconKind

/-- The service type of a beacon. -/
def name : BeaconKind → String
  | singleton => "SingletonBeacon"
  | announcement => "CIDAggregateBeacon"
  | tree => "SMTAggregateBeacon"

def ofName (name : String) : Except Failure BeaconKind :=
  match [singleton, announcement, tree].find? fun kind => kind.name = name with
  | some kind => .ok kind
  | none => .error (.document (.unknownBeaconKind name))

end BeaconKind

namespace BeaconService

/-- The scheme of an endpoint that is an address. -/
def scheme : String := "bitcoin:"

def ofAddress (id : String) (kind : BeaconKind) (address : Address) : BeaconService :=
  ⟨id, kind, scheme ++ address.text⟩

/-- The type is looked at before the endpoint. -/
def ofService (s : Service) : Except Failure BeaconService := do
  let kind ← BeaconKind.ofName s.type
  match s.endpoint.string? with
  | some endpoint => .ok ⟨s.id, kind, endpoint⟩
  | none => .error (.address (.notString s.id))

/-- The address in the endpoint, which must be one of the network; what follows a question mark does
not count. -/
def address (b : BeaconService) (network : Network) : Except Failure Address :=
  match Text.after? scheme.toList b.endpoint.toList with
  | none => .error (.address (.notBitcoin b.endpoint))
  | some rest =>
    let text := String.ofList (Text.upTo '?' rest)
    match Address.ofText? text with
    | none => .error (.address (.unusable text))
    | some address =>
      if address.isFor network.addresses then .ok address else .error (.address (.unusable text))

def toJson (b : BeaconService) : Json :=
  Json.ofMembers [("id", b.id), ("type", b.kind.name), ("serviceEndpoint", b.endpoint)]

end BeaconService

/-- The four ways in which a document may refer to a method. -/
def relationships : List String :=
  ["authentication", "assertionMethod", "capabilityInvocation", "capabilityDelegation"]

namespace Document

/-- The members that hold arrays. -/
def arrayMembers : List String :=
  "verificationMethod" :: relationships ++ ["service"]

/-- Each listed method has an id, a type, and an absolute id that no earlier one has. -/
def checkMethods (id : String) : (seen : List String) → List Json → Except DocumentError Unit
  | _, [] => .ok ()
  | seen, entry :: rest =>
    match (entry.member? "id").bind Json.string? with
    | none => .error .methodWithoutId
    | some method =>
      if ((entry.member? "type").bind Json.string?).isNone then .error (.methodWithoutType method)
      else if seen.contains (absoluteRef id method) then .error (.duplicateMethod method)
      else checkMethods id (absoluteRef id method :: seen) rest

/-- The checks, in the order in which they are made. -/
def check (value : Json) : Except DocumentError Unit := do
  if !value.isObject then .error .notObject
  match (value.member? "id").bind Json.string? with
  | none => .error .missingId
  | some id =>
    match value.member? "deactivated" with
    | some (.bool _) | none => pure ()
    | some _ => .error .deactivatedNotBoolean
    match arrayMembers.find? fun name => (value.member? name).any fun v => v.array?.isNone with
    | some name => .error (.notArray name)
    | none => checkMethods id [] (value.elements "verificationMethod")

end Document

structure Document where
  value : Json
  checked : Document.check value = .ok ()

namespace Document

def ofJson (value : Json) : Except DocumentError Document :=
  match h : check value with
  | .ok () => .ok ⟨value, h⟩
  | .error e => .error e

def id (d : Document) : String :=
  ((d.value.member? "id").bind Json.string?).getD ""

def hash (d : Document) : Digest := d.value.hash

def isDeactivated (d : Document) : Bool :=
  ((d.value.member? "deactivated").bind Json.bool?).getD false

/-- The document shortened for a log. -/
def brief (d : Document) : String :=
  "DidDocument(" ++ Text.quoted d.id ++ ")"

def absolute (d : Document) (reference : String) : String :=
  absoluteRef d.id reference

/-- A readable method, with its id made absolute. -/
def readMethod? (id : String) (entry : Json) : Option Method :=
  (Method.ofJson? entry).map fun m => { m with id := absoluteRef id m.id }

/-- The listed methods, then those that relationships hold themselves. -/
def methods (d : Document) : List Method :=
  (d.value.elements "verificationMethod").filterMap (readMethod? d.id)
    ++ relationships.flatMap fun name =>
      ((d.value.elements name).filter Json.isObject).filterMap (readMethod? d.id)

/-- The first method with this id. -/
def method? (d : Document) (reference : String) : Option Method :=
  d.methods.find? fun m => m.id = d.absolute reference

/-- The absolute id of an entry that names or holds a method. -/
def entryRef? (id : String) : Json → Option String
  | .string s => some (absoluteRef id s)
  | .object members =>
    ((Members.find? "id" members).bind Json.string?).map (absoluteRef id)
  | _ => none

/-- The absolute ids in a relationship. -/
def relationship (d : Document) (name : String) : List String :=
  (d.value.elements name).filterMap (entryRef? d.id)

/-- Whether a method may sign updates. -/
def canInvoke (d : Document) (reference : String) : Bool :=
  (d.relationship "capabilityInvocation").contains (d.absolute reference)

def services (d : Document) : List Service :=
  (d.value.elements "service").filterMap fun entry =>
    (Service.ofJson? entry).map fun s => { s with id := absoluteRef d.id s.id }

/-- The services that are beacons. -/
def beaconServices (d : Document) : List BeaconService :=
  d.services.filterMap fun s => (BeaconService.ofService s).toOption

end Document

end AnchoredDid
