import AnchoredDid.Address
import AnchoredDid.Proofs.Bytes.Base58
import AnchoredDid.Proofs.Bytes.Bech32

/-!
# Addresses are read as they were written

A text is tried as a witness address first. The checked form of a hash is never taken for one: its
version byte decides its first character, and no label begins with that. So every address of a size
that its kind allows is read back from its text (`Address.ofText?_text`).
-/

namespace AnchoredDid

namespace Text

theorem toLower_of_not_isUpper {c : Char} (h : c.isUpper = false) : c.toLower = c := by
  exact dif_neg (of_decide_eq_false h)

theorem map_toLower_of_not_isUpper {text : List Char} (h : ∀ c ∈ text, c.isUpper = false) :
    text.map Char.toLower = text :=
  (List.map_congr_left fun c hc => toLower_of_not_isUpper (h c hc)).trans (List.map_id _)

end Text

namespace WitnessLabel

theorem ofText?_text (label : WitnessLabel) : ofText? label.text = some label := by
  cases label <;> decide

theorem text_of_ofText? {text : String} {label : WitnessLabel} (h : ofText? text = some label) :
    label.text = text := by
  simpa using List.find?_some h

/-- The first characters of labels. -/
theorem head?_text (label : WitnessLabel) :
    ∃ c, label.text.toList.head? = some c ∧ c ∈ ['b', 't'] := by
  cases label
  · exact ⟨'b', rfl, by decide⟩
  · exact ⟨'t', rfl, by decide⟩
  · exact ⟨'b', rfl, by decide⟩

theorem isUpper_text (label : WitnessLabel) : ∀ c ∈ label.text.toList, c.isUpper = false := by
  have hlabel : label.text.toList.all (fun c => !c.isUpper) = true := by
    cases label <;> decide
  exact fun c hc => by simpa using List.all_eq_true.1 hlabel c hc

theorem isLabel_text (label : WitnessLabel) : label.text.toList ≠ [] ∧
    (String.ofList label.text.toList).utf8ByteSize ≤ Bech32.labelLimit ∧
      Bech32.checkLabel label.text.toList = .ok () := by
  cases label <;> exact ⟨by decide, by decide, rfl⟩

end WitnessLabel

namespace Address

/-- The hash or program is of a size that the kind of address allows. -/
def WellFormed : Address → Prop
  | keyHash _ hash | scriptHash _ hash => hash.length = 20
  | witness _ version program => version ≤ 16 ∧ isProgramSize version program.length = true

/-! ## Witness addresses -/

theorem isUpper_encode (variant : Bech32.Variant) (label : WitnessLabel)
    (data : List Bech32.Symbol) : ∀ c ∈ Bech32.encode variant label.text.toList data,
      c.isUpper = false := by
  intro c hc
  rw [Bech32.encode, List.mem_append, List.mem_cons] at hc
  rcases hc with hc | rfl | hc
  · exact label.isUpper_text c hc
  · decide
  · obtain ⟨s, -, rfl⟩ := List.mem_map.1 hc
    exact s.isUpper_char

/-- A program is read back behind its version. -/
theorem ofWitnessText?_encode (label : WitnessLabel) {version : Nat} {program : Bytes}
    (hversion : version ≤ 16) (hsize : isProgramSize version program.length = true) :
    ofWitnessText? (Bech32.encode (variant version) label.text.toList
      (BitVec.ofNat 5 version :: Bech32.symbolsOfBytes program)) =
        some (witness label version program) := by
  have hlower := isUpper_encode (variant version) label
    (BitVec.ofNat 5 version :: Bech32.symbolsOfBytes program)
  have hmixed : (Bech32.encode (variant version) label.text.toList
      (BitVec.ofNat 5 version :: Bech32.symbolsOfBytes program)).any Char.isUpper = false := by
    rw [List.any_eq_false]
    exact fun c hc => by simp [hlower c hc]
  have hparse : Bech32.parse (Bech32.encode (variant version) label.text.toList
      (BitVec.ofNat 5 version :: Bech32.symbolsOfBytes program)) =
        .ok (label.text.toList, (BitVec.ofNat 5 version :: Bech32.symbolsOfBytes program) ++
          Bech32.checksum (variant version) label.text.toList
            (BitVec.ofNat 5 version :: Bech32.symbolsOfBytes program)) :=
    Bech32.parse_eq_ok_iff.2 ⟨rfl, label.isLabel_text⟩
  generalize hdata : BitVec.ofNat 5 version :: Bech32.symbolsOfBytes program = data at *
  have hsix : (Bech32.checksum (variant version) label.text.toList data).length = 6 := rfl
  have hvalid := (Bech32.isValid_append_iff hsix).2 rfl
  generalize Bech32.checksum (variant version) label.text.toList data = last at *
  have hnumber : ((data ++ last).headD 0).toNat = version := by
    rw [← hdata, List.cons_append, List.headD_cons, BitVec.toNat_ofNat]
    omega
  have hprogram : ((data ++ last).take ((data ++ last).length - 6)).drop 1 =
      Bech32.symbolsOfBytes program := by
    rw [List.length_append, hsix, Nat.add_sub_cancel, List.take_left, ← hdata, List.drop_one,
      List.tail_cons]
  have hlength : ¬ (data ++ last).length < 7 := by
    rw [List.length_append, hsix, ← hdata, List.length_cons]
    omega
  rw [ofWitnessText?, hmixed, Text.map_toLower_of_not_isUpper hlower]
  simp only [hparse, Except.toOption, Option.bind_eq_bind, Option.bind_some, String.ofList_toList,
    WitnessLabel.ofText?_text, hnumber, hvalid, hprogram, Bech32.bytesOfSymbols_symbolsOfBytes,
    Bech32.isPadded_symbolsOfBytes, hsize, hlength, Nat.not_lt.2 hversion, Bool.false_and,
    Bool.not_true, Bool.and_self, decide_false, Bool.or_self, Bool.false_eq_true, if_false, if_true]

/-- A text that begins as no label does is no witness address. -/
theorem ofWitnessText?_eq_none {text : List Char} {c : Char} (hhead : text.head? = some c)
    (hc : c.toLower ∉ ['b', 't']) : ofWitnessText? text = none := by
  rw [ofWitnessText?]
  split
  · rfl
  · cases hparse : Bech32.parse (text.map Char.toLower) with
    | error e => simp [hparse, Except.toOption]
    | ok parsed =>
        obtain ⟨label, symbols⟩ := parsed
        obtain ⟨htext, hlabel, -⟩ := Bech32.parse_eq_ok_iff.1 hparse
        have hnone : WitnessLabel.ofText? (String.ofList label) = none := by
          rw [Option.eq_none_iff_forall_ne_some]
          intro found hfound
          obtain ⟨first, hfirst, hletter⟩ := found.head?_text
          rw [WitnessLabel.text_of_ofText? hfound, String.toList_ofList] at hfirst
          have hlower : (text.map Char.toLower).head? = some first := by
            rw [htext, List.head?_append, hfirst, Option.some_or]
          rw [List.head?_map, hhead, Option.map_some] at hlower
          exact hc (Option.some.inj hlower ▸ hletter)
        simp [hparse, Except.toOption, hnone]

/-! ## Addresses of hashes -/

/-- The checked form of twenty bytes behind a version byte begins with none of the letters that
labels begin with. -/
theorem ofWitnessText?_encodeChecked {version : UInt8} {hash : Bytes}
    (hversion : version ∈ [0x00, 0x05, 0x6f, 0xc4]) (hhash : hash.length = 20) :
    ofWitnessText? (Base58.encodeChecked (version :: hash)).toList = none := by
  rw [Base58.encodeChecked, Base58.encode, String.toList_ofList, List.cons_append]
  have hlength : (hash ++ Base58.checksum (version :: hash)).length = 24 := by
    rw [List.length_append, Base58.length_checksum, hhash]
  generalize hash ++ Base58.checksum (version :: hash) = rest at hlength ⊢
  have hfirst : ∀ k least bound : Nat, version ≠ 0 → 0 < least → bound ≤ 58 →
      least * 58 ^ k ≤ version.toNat * 256 ^ 24 → (version.toNat + 1) * 256 ^ 24 ≤ bound * 58 ^ k →
      (∀ d, least ≤ d → d < bound → (Base58.digit d).toLower ∉ ['b', 't']) →
        ofWitnessText? (Base58.encodeChars (version :: rest)) = none := by
    intro k least bound hzero hleast hbound lower upper hletters
    obtain ⟨d, hd, hd', hhead⟩ := Base58.head?_encodeChars rest hzero hleast hbound
      (hlength ▸ lower) (hlength ▸ upper)
    exact ofWitnessText?_eq_none hhead (hletters d hd hd')
  simp only [List.mem_cons, List.not_mem_nil, or_false] at hversion
  rcases hversion with rfl | rfl | rfl | rfl
  · exact ofWitnessText?_eq_none (Base58.head?_encodeChars_zero rest) (by decide)
  · refine hfirst 33 2 3 (by decide) (by decide) (by decide)
      (by decide) (by decide) fun d hd hd' => ?_
    obtain rfl : d = 2 := by omega
    decide
  · refine hfirst 33 44 46 (by decide) (by decide) (by decide)
      (by decide) (by decide) fun d hd hd' => ?_
    obtain rfl | rfl : d = 44 ∨ d = 45 := by omega
    · decide
    · decide
  · refine hfirst 34 1 2 (by decide) (by decide) (by decide)
      (by decide) (by decide) fun d hd hd' => ?_
    obtain rfl : d = 1 := by omega
    decide

theorem versionByte_mem (main : Bool) (hash : Bytes) :
    (keyHash main hash).versionByte ∈ [0x00, 0x05, 0x6f, 0xc4] ∧
      (scriptHash main hash).versionByte ∈ [0x00, 0x05, 0x6f, 0xc4] := by
  cases main <;> simp [versionByte]

/-- Every address is read back from its text. -/
theorem ofText?_text {a : Address} (h : a.WellFormed) : ofText? a.text = some a := by
  rw [ofText?]
  cases a with
  | keyHash main hash =>
      rw [text, ofWitnessText?_encodeChecked (versionByte_mem main hash).1 h]
      have hhash : hash.length = 20 := h
      cases main <;> simp [Base58.decodeChecked?_encodeChecked, ofVersioned?, versionByte, hhash]
  | scriptHash main hash =>
      rw [text, ofWitnessText?_encodeChecked (versionByte_mem main hash).2 h]
      have hhash : hash.length = 20 := h
      cases main <;> simp [Base58.decodeChecked?_encodeChecked, ofVersioned?, versionByte, hhash]
  | witness label version program =>
      rw [text, String.toList_ofList, ofWitnessText?_encode label h.1 h.2]

/-- No text of an address has a question mark, which would end it in an endpoint. -/
theorem mark_not_mem_text (a : Address) : '?' ∉ a.text.toList := by
  cases a with
  | keyHash main hash | scriptHash main hash =>
      rw [text, Base58.encodeChecked, Base58.encode, String.toList_ofList]
      exact fun h => absurd (Base58.mem_alphabet_of_mem_encodeChars h) (by decide)
  | witness label version program =>
      rw [text, String.toList_ofList, Bech32.encode, List.mem_append, List.mem_cons]
      rintro (h | h | h)
      · cases label <;> exact absurd h (by decide)
      · cases h
      · obtain ⟨s, -, hs⟩ := List.mem_map.1 h
        have hsymbol : ∀ s : Bech32.Symbol, s.char ≠ '?' := by decide
        exact hsymbol s hs

end Address

end AnchoredDid
