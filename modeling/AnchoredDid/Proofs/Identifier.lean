import AnchoredDid.Identifier
import AnchoredDid.Proofs.Bytes.Bech32
import AnchoredDid.Proofs.Outcome

/-!
# Identifiers and their texts

Encoding and decoding are inverse to each other: the text of parts that make an identifier is
decoded to these parts, and a text that is decoded at all is the one its parts are encoded as
(`Identifier.decode_eq_ok_iff`). So no identifier has two spellings.
-/

namespace AnchoredDid

theorem Network.nibble_of_ofNibble? {n : Nat} {network : Network}
    (h : Network.ofNibble? n = some network) : network.nibble = n := by
  simpa using List.find?_some h

theorem Network.nibble_lt (network : Network) : network.nibble < 16 := by
  cases network <;> decide

theorem IdentifierKind.label_of_ofLabel? {label : String} {kind : IdentifierKind}
    (h : IdentifierKind.ofLabel? label = some kind) : kind.label = label := by
  simpa using List.find?_some h

theorem IdentifierKind.ofLabel?_label (kind : IdentifierKind) :
    IdentifierKind.ofLabel? kind.label = some kind := by
  cases kind <;> decide

namespace Identifier

variable {i : Identifier} {kind : IdentifierKind} {label body : List Char}

/-- The symbols behind the separator: the data and their checksum. -/
def symbols (i : Identifier) : List Bech32.Symbol :=
  Bech32.symbolsOfBytes i.payload ++
    Bech32.checksum .bech32m i.kind.label.toList (Bech32.symbolsOfBytes i.payload)

theorem toList_text (i : Identifier) : i.text.toList =
    method.toList ++ (i.kind.label.toList ++ '1' :: i.symbols.map Bech32.Symbol.char) := by
  rw [text, String.toList_append, String.toList_ofList]
  rfl

/-- The version has room in its half byte, and there are as many genesis bytes as the kind takes. -/
theorem bounds_of_check (h : i.check = .ok ()) :
    0 < i.version ∧ i.version ≤ greatestVersion ∧ i.genesis.length = i.kind.genesisSize := by
  rw [check] at h
  split at h
  · cases h
  · next hversion =>
    split at h
    · cases h
    · next hsize =>
      simp only [Bool.or_eq_true, decide_eq_true_eq, not_or, Nat.not_lt] at hversion
      exact ⟨Nat.pos_of_ne_zero hversion.1, hversion.2, Decidable.not_not.1 hsize⟩

theorem ofParts_eq_ok_iff {version : Nat} {network : Network} {genesis : Bytes} :
    ofParts kind version network genesis = .ok i ↔
      i = ⟨kind, version, network, genesis⟩ ∧ i.check = .ok () := by
  rw [ofParts, bind_eq_ok_iff]
  constructor
  · rintro ⟨checked, hcheck, hparts⟩
    cases hparts
    exact ⟨rfl, hcheck⟩
  · rintro ⟨rfl, hcheck⟩
    exact ⟨(), hcheck, rfl⟩

/-- A payload is read as the parts that write it. -/
theorem ofPayload_eq_ok_iff {payload : Bytes} :
    ofPayload kind payload = .ok i ↔ i.kind = kind ∧ i.payload = payload ∧ i.check = .ok () := by
  constructor
  · intro h
    cases payload with
    | nil => cases h
    | cons head genesis =>
        rw [ofPayload] at h
        split at h
        · cases h
        · next network hnetwork =>
          obtain ⟨rfl, hcheck⟩ := ofParts_eq_ok_iff.1 h
          refine ⟨rfl, congrArg (· :: genesis) ?_, hcheck⟩
          have hhead : (head.toNat / 16 + 1 - 1) * 16 + network.nibble = head.toNat := by
            rw [Network.nibble_of_ofNibble? hnetwork]
            omega
          rw [hhead, UInt8.ofNat_toNat]
  · rintro ⟨rfl, rfl, hcheck⟩
    obtain ⟨hpositive, hversion, -⟩ := bounds_of_check hcheck
    have hnibble := i.network.nibble_lt
    have hsmall : (i.version - 1) * 16 + i.network.nibble < 256 := by
      rw [greatestVersion] at hversion
      omega
    have hhead : (UInt8.ofNat ((i.version - 1) * 16 + i.network.nibble)).toNat =
        (i.version - 1) * 16 + i.network.nibble := UInt8.toNat_ofNat_of_lt hsmall
    have hnetwork : ((i.version - 1) * 16 + i.network.nibble) % 16 = i.network.nibble := by omega
    have hnumber : ((i.version - 1) * 16 + i.network.nibble) / 16 + 1 = i.version := by omega
    simp only [payload, ofPayload, hhead, hnetwork, hnumber, Network.ofNibble?_nibble]
    exact ofParts_eq_ok_iff.2 ⟨rfl, hcheck⟩

/-- A body is read as the label and data that it was encoded from. -/
theorem readBody_eq_ok_iff {data : List Bech32.Symbol} :
    readBody body = .ok (label, data) ↔
      body = Bech32.encode .bech32m label data ∧ body.length ≤ lengthLimit ∧ label ≠ [] ∧
        (String.ofList label).utf8ByteSize ≤ Bech32.labelLimit ∧
        Bech32.checkLabel label = .ok () := by
  constructor
  · intro h
    rw [readBody] at h
    split at h
    · cases h
    · cases h
    · cases h
    · next found symbols hparse =>
      split at h
      · cases h
      · next hvalid =>
        cases h
        obtain ⟨hbody, hlabel⟩ := Bech32.parse_eq_ok_iff.1 hparse
        simp only [Bool.or_eq_true, decide_eq_true_eq, not_or, Nat.not_lt, Bool.not_eq_true',
          Bool.not_eq_false] at hvalid
        obtain ⟨⟨hlength, hsix⟩, hvalid⟩ := hvalid
        refine ⟨?_, hlength, hlabel⟩
        rw [← List.take_append_drop (symbols.length - 6) symbols] at hvalid
        have hchecksum := (Bech32.isValid_append_iff (by simp; omega)).1 hvalid
        rw [Bech32.encode, ← hchecksum, List.take_append_drop]
        exact hbody
  · rintro ⟨rfl, hlength, hlabel⟩
    have hparse : Bech32.parse (Bech32.encode .bech32m label data) =
        .ok (label, data ++ Bech32.checksum .bech32m label data) :=
      Bech32.parse_eq_ok_iff.2 ⟨rfl, hlabel⟩
    have hsix : (Bech32.checksum .bech32m label data).length = 6 := rfl
    have hvalid := (Bech32.isValid_append_iff hsix).2 rfl
    simp [readBody, hparse, hvalid, Nat.not_lt.2 hlength, hsix]

theorem length_symbolsOfBytes (bytes : Bytes) :
    5 * (Bech32.symbolsOfBytes bytes).length ≤ 8 * bytes.length + 4 := by
  have hbits := congrArg List.length (Bech32.bitsOfSymbols_symbolsOfBits bytes.bits)
  rw [Bech32.length_bitsOfSymbols, List.length_append, List.length_replicate, Bytes.length_bits]
    at hbits
  rw [Bech32.symbolsOfBytes, hbits]
  omega

/-- The text behind the method is one that may be decoded. -/
theorem readBody_encode (h : i.check = .ok ()) :
    readBody (Bech32.encode .bech32m i.kind.label.toList (Bech32.symbolsOfBytes i.payload)) =
      .ok (i.kind.label.toList, Bech32.symbolsOfBytes i.payload) := by
  obtain ⟨-, -, hsize⟩ := bounds_of_check h
  have hkind : i.kind.genesisSize ≤ 33 ∧ i.kind.label.toList.length = 1 ∧
      i.kind.label.toList ≠ [] ∧
      (String.ofList i.kind.label.toList).utf8ByteSize ≤ Bech32.labelLimit ∧
      Bech32.checkLabel i.kind.label.toList = .ok () := by
    cases i.kind <;> exact ⟨by decide, by decide, by decide, by decide, rfl⟩
  obtain ⟨hgenesis, hlabel, hpart⟩ := hkind
  refine readBody_eq_ok_iff.2 ⟨rfl, ?_, hpart⟩
  have hsymbols := length_symbolsOfBytes i.payload
  have hpayload : i.payload.length = i.genesis.length + 1 := rfl
  have hchecksum : (Bech32.checksum .bech32m i.kind.label.toList
    (Bech32.symbolsOfBytes i.payload)).length = 6 := rfl
  rw [Bech32.encode, List.length_append, List.length_cons, List.length_map, List.length_append,
    hlabel, hchecksum, lengthLimit]
  omega

theorem checkCase_encode (kind : IdentifierKind) (data : List Bech32.Symbol) :
    checkCase (Bech32.encode .bech32m kind.label.toList data) = .ok () := by
  have hnone : (Bech32.encode .bech32m kind.label.toList data).find? Char.isUpper = none := by
    rw [List.find?_eq_none]
    intro c hc
    rw [Bech32.encode, List.mem_append, List.mem_cons] at hc
    rcases hc with hc | rfl | hc
    · have hlabel : kind.label.toList.all (fun c => !c.isUpper) = true := by
        cases kind <;> decide
      simpa using List.all_eq_true.1 hlabel c hc
    · decide
    · obtain ⟨s, -, rfl⟩ := List.mem_map.1 hc
      simp [s.isUpper_char]
  rw [checkCase, hnone]

/-- A text is decoded to parts exactly if it is their text and they make an identifier. -/
theorem decode_eq_ok_iff {text : String} :
    decode text = .ok i ↔ i.text = text ∧ i.check = .ok () := by
  constructor
  · intro h
    rw [decode] at h
    split at h
    · cases h
    · next body hbody =>
      rw [Text.after?_eq_some_iff] at hbody
      obtain ⟨checked, -, h⟩ := bind_eq_ok_iff.1 h
      obtain ⟨⟨label, symbols⟩, hread, h⟩ := bind_eq_ok_iff.1 h
      dsimp only at h
      split at h
      · cases h
      · next hpadded =>
        split at h
        · cases h
        · next kind hkind =>
          obtain ⟨rfl, hpayload, hcheck⟩ := ofPayload_eq_ok_iff.1 h
          obtain ⟨hencoded, -⟩ := readBody_eq_ok_iff.1 hread
          have hlabel : i.kind.label.toList = label := by
            rw [IdentifierKind.label_of_ofLabel? hkind, String.toList_ofList]
          have hsymbols : Bech32.symbolsOfBytes i.payload = symbols := by
            rw [hpayload, Bech32.symbolsOfBytes_bytesOfSymbols (by simpa using hpadded)]
          refine ⟨String.toList_inj.1 ?_, hcheck⟩
          rw [Identifier.text, String.toList_append, String.toList_ofList, hlabel, hsymbols,
            ← hencoded, hbody]
  · rintro ⟨rfl, hcheck⟩
    have hbody : Text.after? method.toList i.text.toList = some
        (Bech32.encode .bech32m i.kind.label.toList (Bech32.symbolsOfBytes i.payload)) := by
      rw [Text.after?_eq_some_iff, Identifier.text, String.toList_append, String.toList_ofList]
    rw [decode, hbody]
    simp only [checkCase_encode, readBody_encode hcheck, bind, Except.bind,
      Bech32.isPadded_symbolsOfBytes, Bool.not_true, Bool.false_eq_true, if_false,
      String.ofList_toList, IdentifierKind.ofLabel?_label, Bech32.bytesOfSymbols_symbolsOfBytes]
    exact ofPayload_eq_ok_iff.2 ⟨rfl, rfl, hcheck⟩

theorem encode_eq_ok_iff {text : String} :
    i.encode = .ok text ↔ i.text = text ∧ i.check = .ok () := by
  rw [encode, bind_eq_ok_iff]
  constructor
  · rintro ⟨checked, hcheck, htext⟩
    exact ⟨Except.ok.inj htext, hcheck⟩
  · rintro ⟨rfl, hcheck⟩
    exact ⟨(), hcheck, rfl⟩

/-- The codec is a bijection. Parts are accepted exactly if the identifier that they make has a
text, and a text is decoded to an identifier exactly if it is what the identifier is encoded as. -/
theorem decode_iff_encode (kind : IdentifierKind) (version : Nat) (network : Network)
    (genesis : Bytes) (i : Identifier) :
    (ofParts kind version network genesis = .ok i ↔
        i = ⟨kind, version, network, genesis⟩ ∧ ∃ text, i.encode = .ok text) ∧
      ∀ text, decode text = .ok i ↔ i.encode = .ok text := by
  refine ⟨?_, fun text => decode_eq_ok_iff.trans encode_eq_ok_iff.symm⟩
  rw [ofParts_eq_ok_iff]
  refine and_congr_right fun _ => ⟨fun hcheck => ?_, fun ⟨text, h⟩ => ?_⟩
  · exact ⟨i.text, encode_eq_ok_iff.2 ⟨rfl, hcheck⟩⟩
  · exact (encode_eq_ok_iff.1 h).2

end Identifier

end AnchoredDid
