import Mathlib.Data.List.TakeWhile
import AnchoredDid.Proofs.Address
import AnchoredDid.Proofs.Document.Methods
import AnchoredDid.Proofs.Genesis
import AnchoredDid.Registry

/-!
# What is created is what is resolved

Creating an identifier and deriving the genesis document from its text are two ways to one document
(`Genesis.created_resolved`). The document of a key reads back as it was composed: its method is the
key, which may invoke, and its services are beacons at the three addresses of the key, whose texts
are read as these addresses on every network.
-/

namespace AnchoredDid

variable {key : PublicKey} {network : Network} {did : String}

theorem PublicKey.length_bytes (key : PublicKey) : key.bytes.length = 33 := by
  have hpoint := key.onCurve
  cases hbytes : key.bytes with
  | nil =>
      rw [hbytes] at hpoint
      cases hpoint
  | cons tag rest =>
      rw [hbytes, Secp256k1.Point.decompress?] at hpoint
      split at hpoint
      · next h => rw [List.length_cons, h.1]
      · cases hpoint

/-! ## The addresses of a key -/

namespace Address

/-- The output key of BIP-341 for a key without a script tree, if there is one: the point of the
key's abscissa and even ordinate, plus the tweak times the generator. The tweak is the tagged hash
of the abscissa, which must be below the order of the group. -/
def tapOutput? (key : PublicKey) : Option (Nat × Nat) :=
  let tweak := (Schnorr.taggedHash "TapTweak" key.xOnly).toNat
  if Secp256k1.groupOrder ≤ tweak then none
  else do
    let (x, y) ← Secp256k1.Point.lift? key.xOnly.toNat false
    ((Secp256k1.Point.ofAffine x y).add
      (Secp256k1.Point.multiple tweak Secp256k1.Point.generator)).affine?

/-- The taproot address is that of the output key. -/
theorem taprootKey_eq {x y : Nat} (h : tapOutput? key = some (x, y)) :
    taprootKey key = Bytes.ofNat 32 x := by
  rw [tapOutput?] at h
  split at h
  · cases h
  · obtain ⟨⟨px, py⟩, hlift, haffine⟩ := Option.bind_eq_some_iff.1 h
    simp only [taprootKey, hlift, haffine, Option.map_some, Option.getD_some]

theorem length_taprootKey (key : PublicKey) : (taprootKey key).length = 32 :=
  Bytes.length_ofNat _ _

/-- The three addresses of a key can be written and belong to the network that they are made for. -/
theorem wellFormed_of_key (key : PublicKey) (network : AddressNetwork) :
    ∀ a ∈ [ofKeyHash key network, ofWitnessKeyHash key network, ofTaproot key network],
      a.WellFormed ∧ a.isFor network = true := by
  simp only [List.forall_mem_cons, List.not_mem_nil, false_implies, implies_true, and_true]
  have hhash : (hash160 key.bytes).length = 20 := Ripemd160.length_hash _
  refine ⟨⟨hhash, ?_⟩, ⟨⟨by decide, ?_⟩, ?_⟩, ⟨by decide, ?_⟩, ?_⟩
  · simp [ofKeyHash, isFor]
  · rw [hhash]
    rfl
  · simp [ofWitnessKeyHash, isFor]
  · rw [length_taprootKey]
    rfl
  · simp [ofTaproot, isFor]

end Address

/-! ## Entries are read as they were written -/

theorem Method.ofJson?_toJson (m : Method) : Method.ofJson? m.toJson = some m := by
  obtain ⟨id, type, controller, multibase⟩ := m
  cases multibase <;>
    simp [toJson, Json.ofMembers, Json.optional, ofJson?, Json.fields?, Json.string?,
      Json.optionally]

theorem Service.ofJson?_toJson (b : BeaconService) :
    Service.ofJson? b.toJson = some ⟨b.id, b.kind.name, .string b.endpoint⟩ := by
  simp [BeaconService.toJson, Json.ofMembers, ofJson?, Json.fields?, Json.string?]

namespace BeaconKind

theorem ofName_name (kind : BeaconKind) : ofName kind.name = .ok kind := by
  cases kind <;> rfl

end BeaconKind

namespace BeaconService

theorem ofService_eq (b : BeaconService) :
    ofService ⟨b.id, b.kind.name, .string b.endpoint⟩ = .ok b := by
  rw [ofService, BeaconKind.ofName_name]
  rfl

/-- An endpoint that was made of an address is read as the address. -/
theorem address_ofAddress {id : String} {kind : BeaconKind} {a : Address} (h : a.WellFormed)
    (hnetwork : a.isFor network.addresses = true) :
    (ofAddress id kind a).address network = .ok a := by
  have hrest : Text.after? scheme.toList (ofAddress id kind a).endpoint.toList =
      some a.text.toList := by
    rw [Text.after?_eq_some_iff, ofAddress, String.toList_append]
  have hupTo : Text.upTo '?' a.text.toList = a.text.toList := by
    rw [Text.upTo, List.takeWhile_eq_self_iff]
    exact fun c hc => decide_eq_true fun hmark => a.mark_not_mem_text (hmark ▸ hc)
  simp only [address, hrest, hupTo, String.ofList_toList, Address.ofText?_text h, hnetwork, if_true]

end BeaconService

/-! ## The document of a key -/

namespace Genesis

/-- The beacons of a key, by the addresses that they announce through. -/
def keyBeacons (did : String) (key : PublicKey) (network : AddressNetwork) : List Beacon :=
  [⟨did ++ "#initialP2PKH", .singleton, .ofKeyHash key network⟩,
    ⟨did ++ "#initialP2WPKH", .singleton, .ofWitnessKeyHash key network⟩,
    ⟨did ++ "#initialP2TR", .singleton, .ofTaproot key network⟩]

theorem elements_verificationMethod : (keyDocument did key network).elements "verificationMethod" =
    [(Method.ofKey (did ++ "#initialKey") did key).toJson] := by
  rw [Json.elements, keyDocument, Json.member?_ofMembers]
  rfl

theorem elements_capabilityInvocation :
    (keyDocument did key network).elements "capabilityInvocation" =
      [.string (did ++ "#initialKey")] := by
  rw [Json.elements, keyDocument, Json.member?_ofMembers]
  rfl

theorem elements_service : (keyDocument did key network).elements "service" =
    (keyBeacons did key network.addresses).map fun b =>
      (BeaconService.ofAddress b.id b.kind b.address).toJson := by
  rw [Json.elements, keyDocument, Json.member?_ofMembers]
  rfl

theorem check_keyDocument (did : String) (key : PublicKey) (network : Network) :
    Document.check (keyDocument did key network) = .ok () := by
  have hflag : (keyDocument did key network).member? "deactivated" = none := by
    rw [keyDocument, Json.member?_ofMembers]
    rfl
  have harrays : Document.arrayMembers.find? (fun name =>
      ((keyDocument did key network).member? name).any fun v => v.array?.isNone) = none := by
    rw [List.find?_eq_none]
    intro name hname
    rw [keyDocument, Json.member?_ofMembers]
    simp only [Document.arrayMembers, relationships, List.cons_append, List.nil_append,
      List.mem_cons, List.not_mem_nil, or_false] at hname
    rcases hname with rfl | rfl | rfl | rfl | rfl | rfl <;> exact Bool.false_ne_true
  have hobject : (keyDocument did key network).isObject = true := rfl
  simp [Document.check_eq, member?_keyDocument, hflag, harrays, hobject,
    elements_verificationMethod, Document.checkMethods, Method.toJson, Method.ofKey, Json.string?]

/-- The document of a key. -/
def keyed (did : String) (key : PublicKey) (network : Network) : Document :=
  ⟨keyDocument did key network, check_keyDocument did key network⟩

theorem keyed_id : (keyed did key network).id = did := by
  simp [Document.id, keyed, member?_keyDocument, Json.string?]

/-- A reference that was made absolute stays as it is. -/
theorem absoluteRef_append (anchored : did.toList.head? ≠ some '#') {fragment : String}
    (h : fragment.toList.head? = some '#') :
    absoluteRef did (did ++ fragment) = did ++ fragment := by
  obtain ⟨rest, hrest⟩ := List.head?_eq_some_iff.1 h
  rw [← absoluteRef_relative hrest, absoluteRef_absoluteRef anchored]

theorem absolute_fragment {d : Document} {fragment : String}
    (h : fragment.toList.head? = some '#') : d.absolute fragment = d.id ++ fragment := by
  obtain ⟨rest, hrest⟩ := List.head?_eq_some_iff.1 h
  exact absoluteRef_relative hrest

/-- The key's method is found under its fragment. -/
theorem method?_keyed (anchored : did.toList.head? ≠ some '#') :
    (keyed did key network).method? "#initialKey" =
      some (Method.ofKey (did ++ "#initialKey") did key) := by
  have hread : Document.readMethod? did (Method.ofKey (did ++ "#initialKey") did key).toJson =
      some (Method.ofKey (did ++ "#initialKey") did key) := by
    rw [Document.readMethod?, Method.ofJson?_toJson, Option.map_some]
    exact congrArg (fun id => some (Method.ofKey id did key)) (absoluteRef_append anchored rfl)
  have hlisted : (keyed did key network).listed =
      [Method.ofKey (did ++ "#initialKey") did key] := by
    rw [Document.listed, keyed_id, keyed, elements_verificationMethod,
      List.filterMap_cons_some hread, List.filterMap_nil]
  rw [Document.method?, Document.methods_eq, hlisted, absolute_fragment rfl, keyed_id]
  exact List.find?_cons_of_pos (decide_eq_true rfl)

/-- The key may update the document. -/
theorem canInvoke_keyed (anchored : did.toList.head? ≠ some '#') :
    (keyed did key network).canInvoke "#initialKey" = true := by
  have hentry : Document.entryRef? did (.string (did ++ "#initialKey")) =
      some (did ++ "#initialKey") := congrArg some (absoluteRef_append anchored rfl)
  have hrelationship : (keyed did key network).relationship "capabilityInvocation" =
      [did ++ "#initialKey"] := by
    rw [Document.relationship, keyed_id, keyed, elements_capabilityInvocation,
      List.filterMap_cons_some hentry, List.filterMap_nil]
  rw [Document.canInvoke, hrelationship, absolute_fragment rfl, keyed_id]
  exact List.contains_iff_mem.2 List.mem_cons_self

theorem beaconServices_keyed (anchored : did.toList.head? ≠ some '#') :
    (keyed did key network).beaconServices =
      (keyBeacons did key network.addresses).map fun b =>
        BeaconService.ofAddress b.id b.kind b.address := by
  have hid : ∀ b ∈ keyBeacons did key network.addresses, absoluteRef did b.id = b.id := by
    simp only [keyBeacons, List.forall_mem_cons, List.not_mem_nil, false_implies, implies_true,
      and_true]
    exact ⟨absoluteRef_append anchored rfl, absoluteRef_append anchored rfl,
      absoluteRef_append anchored rfl⟩
  have hservices : (keyed did key network).services =
      (keyBeacons did key network.addresses).map fun b =>
        ⟨b.id, b.kind.name, .string (BeaconService.ofAddress b.id b.kind b.address).endpoint⟩ := by
    rw [Document.services, keyed_id, keyed, elements_service, List.filterMap_map]
    refine List.filterMap_eq_map_iff_forall_eq_some.2 fun b hb => ?_
    rw [Function.comp_apply, Service.ofJson?_toJson, Option.map_some]
    exact congrArg (fun id => some (Service.mk id _ _)) (hid b hb)
  rw [Document.beaconServices, hservices, List.filterMap_map]
  refine List.filterMap_eq_map_iff_forall_eq_some.2 fun b _ => ?_
  exact congrArg Except.toOption (BeaconService.ofService_eq (.ofAddress b.id b.kind b.address))

/-- The beacons of the document are those of the key. -/
theorem registry_keyed (anchored : did.toList.head? ≠ some '#') :
    Registry.ofDocument (keyed did key network) network = keyBeacons did key network.addresses := by
  have hread : ∀ b ∈ keyBeacons did key network.addresses,
      Registry.beacon? network (BeaconService.ofAddress b.id b.kind b.address) = some b := by
    intro b hb
    have haddress : b.address ∈ [Address.ofKeyHash key network.addresses,
        .ofWitnessKeyHash key network.addresses, .ofTaproot key network.addresses] :=
      List.mem_map_of_mem (f := Beacon.address) hb
    obtain ⟨hwellFormed, hnetwork⟩ := Address.wellFormed_of_key key network.addresses _ haddress
    rw [Registry.beacon?, BeaconService.address_ofAddress hwellFormed hnetwork]
    rfl
  have hbeacons : (keyed did key network).beaconServices.filterMap (Registry.beacon? network) =
      keyBeacons did key network.addresses := by
    rw [beaconServices_keyed anchored, List.filterMap_map]
    refine (List.filterMap_eq_map_iff_forall_eq_some.2 hread).trans (List.map_id _)
  rw [Registry.ofDocument, hbeacons]
  simp [keyBeacons, Registry.add]

/-! ## Creating and resolving -/

/-- The scripts that the beacons of a key watch: pay to public key hash, pay to witness public key
hash, and the key path of the output key with this abscissa. -/
def keyScripts (key : PublicKey) (x : Nat) : List Bytes :=
  [[0x76, 0xa9, 0x14] ++ Address.hash160 key.bytes ++ [0x88, 0xac],
    [0x00, 0x14] ++ Address.hash160 key.bytes,
    [0x51, 0x20] ++ Bytes.ofNat 32 x]

theorem script_keyBeacons {x y : Nat} (tweaked : Address.tapOutput? key = some (x, y))
    (did : String) (network : AddressNetwork) :
    (keyBeacons did key network).map Beacon.script = keyScripts key x := by
  have hhash : (Address.hash160 key.bytes).length = 20 := Ripemd160.length_hash _
  simp [keyBeacons, keyScripts, Beacon.script, Address.script, Address.ofKeyHash,
    Address.ofWitnessKeyHash, Address.ofTaproot, hhash, Address.taprootKey_eq tweaked]

/-- The parts of a key's identifier make one. -/
theorem check_key (key : PublicKey) (network : Network) {version : Nat} (positive : 0 < version)
    (fits : version ≤ Identifier.greatestVersion) :
    Identifier.check ⟨.key, version, network, key.bytes⟩ = .ok () := by
  simp [Identifier.check, Nat.ne_of_gt positive, Nat.not_lt.2 fits, key.length_bytes,
    IdentifierKind.genesisSize, key.ofBytes?_bytes]

/-- A key's identifier has the key's document for its genesis document. -/
theorem ofKey_eq {i : Identifier} (hkind : i.kind = .key) (hgenesis : i.genesis = key.bytes)
    (hcheck : i.check = .ok ()) : ofKey i = .ok (keyed i.text key i.network) := by
  have hkey : i.publicKey? = some key := by
    rw [Identifier.publicKey?, hkind, hgenesis]
    exact key.ofBytes?_bytes
  have htext : i.encode = .ok i.text := Identifier.encode_eq_ok_iff.2 ⟨rfl, hcheck⟩
  have hread : Document.ofJson (keyDocument i.text key i.network) =
      .ok (keyed i.text key i.network) := Document.ofJson_eq_ok_iff.2 rfl
  simp only [ofKey, hkind, hkey, htext, hread]

theorem identify_eq_ok {kind : IdentifierKind} {version : Nat} {genesis : Bytes} {i : Identifier}
    (h : identify kind version network genesis = .ok (i, did)) :
    i = ⟨kind, version, network, genesis⟩ ∧ i.check = .ok () ∧ i.text = did := by
  rw [identify] at h
  split at h
  · cases h
  · next found hfound =>
    cases h
    obtain ⟨hparts, hcheck⟩ := Identifier.ofParts_eq_ok_iff.1 hfound
    exact ⟨hparts, hcheck, rfl⟩

/-- A key is given the identifier with its parts and the document of the key under that name. -/
theorem createKey_eq (key : PublicKey) (network : Network) {version : Nat} (positive : 0 < version)
    (fits : version ≤ Identifier.greatestVersion) : createKey key network version =
      .ok (Identifier.text ⟨.key, version, network, key.bytes⟩,
        keyed (Identifier.text ⟨.key, version, network, key.bytes⟩) key network) := by
  have hcheck := check_key key network positive fits
  have hparts := Identifier.ofParts_eq_ok_iff.2 ⟨rfl, hcheck⟩
  have hkey := ofKey_eq (i := ⟨.key, version, network, key.bytes⟩) rfl rfl hcheck
  simp only [createKey, identify, hparts, bind, Except.bind, hkey]
  rfl

/-- A supplied document is given the identifier of its hash, which it is the genesis document of. -/
theorem createExternal_eq_ok {value : Json} {version : Nat} {d : Document}
    (h : createExternal value network version = .ok (did, d)) :
    ∃ i : Identifier, i.kind = .external ∧ i.check = .ok () ∧ i.text = did ∧
      ofExternal i (some value) = .ok d := by
  obtain ⟨⟨i, text⟩, hidentify, h⟩ := bind_eq_ok_iff.1 h
  obtain ⟨rfl, hcheck, htext⟩ := identify_eq_ok hidentify
  dsimp only at h
  split at h
  · next found hfound =>
    cases h
    exact ⟨_, rfl, hcheck, htext, hfound⟩
  · cases h

/-- What is created is what is resolved. A key is given an identifier of any version that fits, and
a document of that name, which is the genesis document of what the identifier decodes to, whatever
is supplied with it; its key is found there and may invoke, and its beacons are three singletons at
the scripts of the key, if the key has an output key. A supplied document that is given an
identifier becomes the genesis document of what that decodes to, and has its name. -/
theorem created_resolved (network : Network) (version : Nat) :
    (∀ (key : PublicKey) (x y : Nat), 0 < version → version ≤ Identifier.greatestVersion →
      Address.tapOutput? key = some (x, y) →
      ∃ did d i m, createKey key network version = .ok (did, d) ∧ d.id = did ∧
        Identifier.decode did = .ok i ∧ (∀ supplied, document i supplied = .ok d) ∧
        d.method? "#initialKey" = some m ∧ m.key = .ok key ∧ d.canInvoke "#initialKey" = true ∧
        (Registry.ofDocument d network).map Beacon.id =
          [did ++ "#initialP2PKH", did ++ "#initialP2WPKH", did ++ "#initialP2TR"] ∧
        (∀ b ∈ Registry.ofDocument d network, b.kind = .singleton) ∧
        (Registry.ofDocument d network).map Beacon.script = keyScripts key x) ∧
    ∀ (value : Json) (did : String) (d : Document),
      createExternal value network version = .ok (did, d) →
        d.id = did ∧ ∃ i, Identifier.decode did = .ok i ∧ document i (some value) = .ok d := by
  refine ⟨fun key x y positive fits tweaked => ?_, fun value did d h => ?_⟩
  · have hcheck := check_key key network positive fits
    have anchored : (Identifier.text ⟨.key, version, network, key.bytes⟩).toList.head? ≠
        some '#' := by
      rw [Identifier.head?_text]
      decide
    have hkey : (Method.ofKey (Identifier.text ⟨.key, version, network, key.bytes⟩ ++ "#initialKey")
        (Identifier.text ⟨.key, version, network, key.bytes⟩) key).key = .ok key := by
      simp only [Method.key, Method.ofKey, PublicKey.ofMultikey_toMultikey]
    refine ⟨_, _, _, _, createKey_eq key network positive fits, keyed_id,
      Identifier.decode_eq_ok_iff.2 ⟨rfl, hcheck⟩, fun _ => ofKey_eq rfl rfl hcheck,
      method?_keyed anchored, hkey, canInvoke_keyed anchored, ?_⟩
    rw [registry_keyed anchored]
    exact ⟨rfl, by simp [keyBeacons], script_keyBeacons tweaked _ _⟩
  · obtain ⟨i, hkind, hcheck, rfl, hdocument⟩ := createExternal_eq_ok h
    refine ⟨ofExternal_id hdocument, i, Identifier.decode_eq_ok_iff.2 ⟨rfl, hcheck⟩, ?_⟩
    rw [document, hkind, hdocument]

end Genesis

namespace Sample

/-- The key of the generator's opposite. -/
def oppositeKey : PublicKey where
  bytes := 0x03 :: Bytes.ofNat 32 Secp256k1.Point.generator.x
  onCurve := by decide +kernel

/-- A document that has no more than a name. -/
def named : Json :=
  Json.ofMembers [("id", .string Genesis.placeholder)]

end Sample

namespace Genesis

/-- The generator's opposite as a key has an output key, and a document with a name only can be
given an identifier; so both are resolved as they are created. -/
theorem created_resolved_sample :
    (∃ did d i, createKey Sample.oppositeKey .testnet4 16 = .ok (did, d) ∧
      Identifier.decode did = .ok i ∧ document i none = .ok d ∧
      (Registry.ofDocument d .testnet4).length = 3) ∧
    ∃ did d i, createExternal Sample.named .mutinynet 3 = .ok (did, d) ∧
      Identifier.decode did = .ok i ∧ document i (some Sample.named) = .ok d := by
  constructor
  · have htweaked : (Address.tapOutput? Sample.oppositeKey).isSome := by decide +kernel
    obtain ⟨⟨x, y⟩, tweaked⟩ := Option.isSome_iff_exists.1 htweaked
    obtain ⟨did, d, i, m, hcreate, -, hdecode, hdocument, -, -, -, hids, -⟩ :=
      (created_resolved .testnet4 16).1 Sample.oppositeKey x y (by decide) (by decide) tweaked
    refine ⟨did, d, i, hcreate, hdecode, hdocument none, ?_⟩
    simpa using congrArg List.length hids
  · have hsome : (createExternal Sample.named .mutinynet 3).toOption.isSome := by decide +kernel
    obtain ⟨⟨did, d⟩, hfound⟩ := Option.isSome_iff_exists.1 hsome
    have hcreate := eq_ok_of_toOption hfound
    obtain ⟨-, i, hdecode, hdocument⟩ :=
      (created_resolved .mutinynet 3).2 Sample.named did d hcreate
    exact ⟨did, d, i, hcreate, hdecode, hdocument⟩

end Genesis

end AnchoredDid
