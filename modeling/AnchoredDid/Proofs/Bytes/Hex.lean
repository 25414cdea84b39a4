import AnchoredDid.Digest
import AnchoredDid.Json.Canonical
import AnchoredDid.Json.Record

/-!
# Hexadecimal text is read as it was written

`Hex.decode_encode` is the round trip for all byte strings; a digest makes it through JSON by it. In
the other direction upper-case digits are lost, and nothing else (`Hex.encode_of_decode`).
-/

namespace AnchoredDid

namespace Bytes

theorem ofText_ofList (chars : List Char) :
    ofText (String.ofList chars) = chars.flatMap String.utf8EncodeChar := by
  rw [ofText, String.toUTF8_eq_toByteArray, String.toByteArray_ofList, List.utf8Encode,
    List.toList_data_toByteArray]

theorem ofText_injective : Function.Injective ofText := by
  intro s t h
  rw [ofText, ofText, Array.toList_inj] at h
  exact String.toByteArray_inj.1 (ByteArray.ext h)

end Bytes

namespace Hex

/-- That digits keep their values is a matter of sixteen of them. -/
theorem exists_byte_of_all {spell : Char → Char}
    (h : ∀ n : Fin 16, (String.utf8EncodeChar (spell (digit n))).length = 1 ∧
      value? ((String.utf8EncodeChar (spell (digit n))).headD 0) = some n.val) :
    ∀ n < 16, ∃ b, String.utf8EncodeChar (spell (digit n)) = [b] ∧ value? b = some n := by
  intro n hn
  obtain ⟨hlength, hvalue⟩ := h ⟨n, hn⟩
  obtain ⟨b, hb⟩ := List.length_eq_one_iff.1 hlength
  dsimp only at hb hvalue
  rw [hb] at hvalue
  exact ⟨b, hb, hvalue⟩

section Spelled

/-! The digits may be spelled in any way that keeps their values. -/

variable {spell : Char → Char}
variable (hspell : ∀ n < 16, ∃ b, String.utf8EncodeChar (spell (digit n)) = [b] ∧ value? b = some n)
include hspell

/-- Two bytes of text for each byte. -/
theorem written_cons (b : UInt8) (bytes : Bytes) : ∃ high low,
    ((digits (b :: bytes)).map spell).flatMap String.utf8EncodeChar =
      high :: low :: ((digits bytes).map spell).flatMap String.utf8EncodeChar ∧
    value? high = some (b.toNat / 16) ∧ value? low = some (b.toNat % 16) := by
  have hb := b.toNat_lt
  obtain ⟨high, hhigh, hhighValue⟩ := hspell (b.toNat / 16) (by omega)
  obtain ⟨low, hlow, hlowValue⟩ := hspell (b.toNat % 16) (by omega)
  refine ⟨high, low, ?_, hhighValue, hlowValue⟩
  rw [digits_cons, List.map_cons, List.map_cons, List.flatMap_cons, List.flatMap_cons, hhigh, hlow]
  rfl

theorem decodePairs_digits (position : Nat) (bytes : Bytes) :
    decodePairs position (((digits bytes).map spell).flatMap String.utf8EncodeChar) =
      .ok bytes := by
  induction bytes generalizing position with
  | nil => rfl
  | cons b bytes ih =>
      obtain ⟨high, low, hwritten, hhigh, hlow⟩ := written_cons hspell b bytes
      have hbyte : UInt8.ofNat (16 * (b.toNat / 16) + b.toNat % 16) = b := by
        rw [Nat.div_add_mod, UInt8.ofNat_toNat]
      rw [hwritten, decodePairs, hhigh, hlow]
      simp only [ih, Except.map, hbyte]

theorem length_written (bytes : Bytes) :
    (((digits bytes).map spell).flatMap String.utf8EncodeChar).length = 2 * bytes.length := by
  induction bytes with
  | nil => rfl
  | cons b bytes ih =>
      obtain ⟨high, low, hwritten, -, -⟩ := written_cons hspell b bytes
      rw [hwritten, List.length_cons, List.length_cons, ih, List.length_cons]
      omega

theorem decode_spelled (bytes : Bytes) :
    decode (String.ofList ((digits bytes).map spell)) = .ok bytes := by
  have heven : ¬ 2 * bytes.length % 2 = 1 := by omega
  simp only [decode, Bytes.ofText_ofList, length_written hspell, heven, if_false,
    decodePairs_digits hspell]

end Spelled

theorem decode_encode (bytes : Bytes) : decode (encode bytes) = .ok bytes := by
  rw [encode, ← List.map_id (digits bytes)]
  exact decode_spelled (exists_byte_of_all (by decide)) bytes

/-- Upper-case digits are read like lower-case ones. -/
theorem decode_upper (bytes : Bytes) :
    decode (String.ofList ((digits bytes).map Char.toUpper)) = .ok bytes :=
  decode_spelled (exists_byte_of_all (by decide)) bytes

/-! ## What was written in lower case -/

/-- None of the digits is an upper-case one. -/
def IsLower (text : String) : Prop :=
  ∀ b ∈ Bytes.ofText text, ¬ (65 ≤ b.toNat ∧ b.toNat ≤ 70)

/-- A digit that is not an upper-case one is how its value is written. -/
theorem utf8EncodeChar_of_value? {b : UInt8} {n : Nat} (h : value? b = some n)
    (lower : ¬ (65 ≤ b.toNat ∧ b.toNat ≤ 70)) :
    n < 16 ∧ String.utf8EncodeChar (digit n) = [b] := by
  have hall : ∀ k : Fin 256, ¬ (65 ≤ k.val ∧ k.val ≤ 70) → ∀ n, value? (.ofNat k.val) = some n →
      n < 16 ∧ String.utf8EncodeChar (digit n) = [.ofNat k.val] := by
    simp only [← Option.mem_def]
    decide +kernel
  have hb : UInt8.ofNat b.toNat = b := UInt8.ofNat_toNat
  exact hb ▸ hall ⟨b.toNat, b.toNat_lt⟩ lower n (hb.symm ▸ h)

theorem digits_of_decodePairs {written bytes : Bytes} {position : Nat}
    (h : decodePairs position written = .ok bytes) (even : written.length % 2 = 0)
    (lower : ∀ b ∈ written, ¬ (65 ≤ b.toNat ∧ b.toNat ≤ 70)) :
    (digits bytes).flatMap String.utf8EncodeChar = written := by
  induction position, written using decodePairs.induct generalizing bytes with
  | case1 position high low rest hhigh => simp [decodePairs, hhigh] at h
  | case2 position high low rest _ hhigh hlow => simp [decodePairs, hhigh, hlow] at h
  | case3 position high low rest x y hy hx ih =>
      obtain ⟨hhigh, hlater⟩ := List.forall_mem_cons.1 lower
      obtain ⟨hlow, hrest⟩ := List.forall_mem_cons.1 hlater
      obtain ⟨hx16, hxwritten⟩ := utf8EncodeChar_of_value? hx hhigh
      obtain ⟨hy16, hywritten⟩ := utf8EncodeChar_of_value? hy hlow
      have hbyte : (UInt8.ofNat (16 * x + y)).toNat = 16 * x + y := by
        rw [UInt8.toNat_ofNat']
        omega
      simp only [decodePairs, hx, hy] at h
      cases hdecoded : decodePairs (position + 2) rest with
      | error e => simp [hdecoded, Except.map] at h
      | ok later =>
          rw [hdecoded] at h
          cases h
          have heven : rest.length % 2 = 0 := by
            simp only [List.length_cons] at even
            omega
          rw [digits_cons, List.flatMap_cons, List.flatMap_cons, ih hdecoded heven hrest, hbyte,
            show (16 * x + y) / 16 = x by omega, show (16 * x + y) % 16 = y by omega, hxwritten,
            hywritten]
          rfl
  | case4 written position hshort =>
      cases written with
      | nil =>
          cases h
          rfl
      | cons b rest =>
          cases rest with
          | nil => cases even
          | cons c rest => exact absurd rfl (hshort b c rest)

/-- What is read from digits without upper case is written as it was. -/
theorem encode_of_decode {text : String} {bytes : Bytes} (h : decode text = .ok bytes)
    (lower : IsLower text) : encode bytes = text := by
  rw [decode] at h
  split at h
  · cases h
  · next heven =>
    apply Bytes.ofText_injective
    rw [encode, Bytes.ofText_ofList]
    exact digits_of_decodePairs h (by omega) lower

theorem isLower_encode (bytes : Bytes) : IsLower (encode bytes) := by
  have hdigit :
      ∀ n < 16, ∀ b ∈ String.utf8EncodeChar (digit n), ¬ (65 ≤ b.toNat ∧ b.toNat ≤ 70) := by
    decide +kernel
  intro b hb
  rw [encode, Bytes.ofText_ofList, List.mem_flatMap] at hb
  obtain ⟨c, hc, hb⟩ := hb
  obtain ⟨byte, -, hc⟩ := List.mem_flatMap.1 hc
  have hbyte := byte.toNat_lt
  simp only [List.mem_cons, List.not_mem_nil, or_false] at hc
  rcases hc with rfl | rfl
  · exact hdigit _ (by omega) b hb
  · exact hdigit _ (by omega) b hb

end Hex

@[simp] theorem Digest.ofHex_toHex (d : Digest) : ofHex d.toHex = .ok d := by
  simp [ofHex, toHex, Hex.decode_encode]

/-- A value's hash is that of the bytes of its canonical text. -/
theorem Json.hash_eq (value : Json) :
    value.hash = sha256 (value.canonicalText.flatMap String.utf8EncodeChar) := by
  rw [hash, canonical, Bytes.ofText_ofList]

@[simp] theorem Json.digest?_ofDigest (d : Digest) : digest? (ofDigest d) = some d := by
  simp [digest?, ofDigest, string?, Except.toOption]

end AnchoredDid
