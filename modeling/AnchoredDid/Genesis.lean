import AnchoredDid.Document

/-!
# Genesis documents

Every history starts from a document at version one. The one of a key is computed from the key. The
one of an external identifier is supplied: it hashes to the identifier's genesis bytes while it
still refers to itself by a placeholder, which the identifier then replaces.
-/

namespace AnchoredDid

namespace Genesis

/-- What a document calls itself before its identifier is known. -/
def placeholder : String :=
  Identifier.method ++ String.ofList (List.replicate 63 '_')

def contexts : List String :=
  ["https://www.w3.org/ns/did/v1", "https://btcr2.dev/context/v1"]

/-- The document of a key: the key may do everything, and updates can be announced through each of
its three addresses. -/
def keyDocument (did : String) (key : PublicKey) (network : Network) : Json :=
  let method := did ++ "#initialKey"
  let beacon (fragment : String) (address : Address) : Json :=
    (BeaconService.ofAddress (did ++ fragment) .singleton address).toJson
  Json.ofMembers
    ([("@context", .array (contexts.map .string)), ("id", .string did),
        ("controller", .array [.string did]),
        ("verificationMethod", .array [(Method.ofKey method did key).toJson])]
      ++ relationships.map (fun name => (name, .array [.string method]))
      ++ [("service", .array
          [beacon "#initialP2PKH" (Address.ofKeyHash key network.addresses),
            beacon "#initialP2WPKH" (Address.ofWitnessKeyHash key network.addresses),
            beacon "#initialP2TR" (Address.ofTaproot key network.addresses)])])

mutual

/-- The identifier in place of the placeholder, in strings but not in names. -/
def fill (did : List Char) : Json → Json
  | .string s => .string (String.ofList (Text.replaceAll placeholder.toList did s.toList))
  | .array items => .array (fillItems did items)
  | .object members => .object (fillMembers did members)
  | other => other

def fillItems (did : List Char) : List Json → List Json
  | [] => []
  | item :: rest => fill did item :: fillItems did rest

def fillMembers (did : List Char) : List (String × Json) → List (String × Json)
  | [] => []
  | (name, value) :: rest => (name, fill did value) :: fillMembers did rest

end

/-- The document of a key before its identifier is known. -/
def intermediate (key : PublicKey) (network : Network) : Json :=
  keyDocument placeholder key network

/-- The genesis document of a key's identifier. -/
def ofKey (i : Identifier) : Except Failure Document :=
  match i.kind with
  | .external => .error (.genesis (.invalid .notKey))
  | .key =>
    match i.publicKey? with
    | none => .error (.key .invalidPublicKey)
    | some key =>
      match i.encode with
      | .error e => .error (.identifier e)
      | .ok did =>
        match Document.ofJson (keyDocument did key i.network) with
        | .ok d => .ok d
        | .error e => .error (.document e)

/-- The genesis document of an external identifier, from the document supplied. -/
def ofExternal (i : Identifier) (supplied : Option Json) : Except GenesisError Document := do
  let some expected := i.genesisHash? | .error (.invalid .notExternal)
  let some value := supplied | .error .missing
  if value.hash ≠ expected then .error (.hashMismatch expected value.hash)
  else
    match i.encode with
    | .error e => .error (.invalid (.identifier e))
    | .ok did =>
      match Document.ofJson (fill did.toList value) with
      | .error e => .error (.invalid (.document e))
      | .ok d => if d.id = did then .ok d else .error (.invalid (.otherId d.id did))

/-- The genesis document of any identifier. -/
def document (i : Identifier) (supplied : Option Json) : Except Failure Document :=
  match i.kind with
  | .key => ofKey i
  | .external =>
    match ofExternal i supplied with
    | .ok d => .ok d
    | .error e => .error (.genesis e)

/-- An identifier of these parts, with its text. -/
def identify (kind : IdentifierKind) (version : Nat) (network : Network) (genesis : Bytes) :
    Except Failure (Identifier × String) :=
  match Identifier.ofParts kind version network genesis with
  | .error e => .error (.identifier e)
  | .ok i => .ok (i, i.text)

/-- A key's identifier and its genesis document. -/
def createKey (key : PublicKey) (network : Network) (version : Nat) :
    Except Failure (String × Document) := do
  let (i, did) ← identify .key version network key.bytes
  let d ← ofKey i
  return (did, d)

/-- The identifier that a supplied document determines, and its genesis document. -/
def createExternal (value : Json) (network : Network) (version : Nat) :
    Except Failure (String × Document) := do
  let (i, did) ← identify .external version network value.hash.bytes
  match ofExternal i (some value) with
  | .ok d => return (did, d)
  | .error e => .error (.genesis e)

end Genesis

end AnchoredDid
