import Mathlib.Data.Nat.Digits.Lemmas
import AnchoredDid.Proofs.Bytes.Base58

/-!
# Keys and signatures have one spelling

A text of base 58 writes a byte string if the two spell one number and begin with as many marks of
zero as zero bytes (`Base58.Writes`). Each text writes one byte string, which reading finds
(`Base58.decodeChars?_eq_some_iff`), and each byte string is written by one text, which is the one
that writing makes (`Base58.writes_iff`). So a text is read as a key or as a signature only if it is
what is written for it (`Multibase.read_iff_written`).
-/

namespace AnchoredDid

namespace Base58

/-- The text and the byte string spell one number, and as many marks stand at the start of the text
as zero bytes at the start of the byte string. -/
structure Writes (text : List Char) (bytes : Bytes) : Prop where
  number : ∃ digits, text.mapM value? = some digits ∧ ofDigits digits = bytes.toNat
  zeros : (text.takeWhile (· = '1')).length = (bytes.takeWhile (· = 0)).length

/-! ## Reading -/

theorem toNat_replicate_append (count : Nat) (bytes : Bytes) :
    Bytes.toNat (List.replicate count 0 ++ bytes) = bytes.toNat := by
  induction count with
  | zero => rfl
  | succ count ih => exact ih

theorem toNat_bytesOf (n : Nat) : (bytesOf n).toNat = n := by
  fun_induction bytesOf n with
  | case1 => rfl
  | case2 n h ih =>
      rw [toNat_append, ih, UInt8.toNat_ofNat']
      omega

/-- A number is written without leading zeros, in base 256 too. -/
theorem takeWhile_bytesOf (n : Nat) : (bytesOf n).takeWhile (· = 0) = [] := by
  have hdrop : bytesOf n = (bytesOf n).dropWhile (· = 0) := by
    have h := (bytesOf_toNat (bytesOf n)).1
    rwa [toNat_bytesOf] at h
  have hwhole :=
    List.takeWhile_append_dropWhile (p := fun b : UInt8 => decide (b = 0)) (l := bytesOf n)
  rw [← hdrop] at hwhole
  exact List.append_left_eq_self.1 hwhole

/-- Reading finds the byte string that a text writes. -/
theorem decodeChars?_eq_some_iff {text : List Char} {bytes : Bytes} :
    decodeChars? text = some bytes ↔ Writes text bytes := by
  constructor
  · intro h
    obtain ⟨digits, hdigits, hbytes⟩ := Option.bind_eq_some_iff.1 h
    cases hbytes
    refine ⟨⟨digits, hdigits, ?_⟩, ?_⟩
    · rw [toNat_replicate_append, toNat_bytesOf]
    · rw [List.takeWhile_append, takeWhile_bytesOf]
      simp
  · rintro ⟨⟨digits, hdigits, hnumber⟩, hzeros⟩
    rw [decodeChars?, hdigits, Option.bind_eq_bind, Option.bind_some, hnumber, hzeros,
      (bytesOf_toNat bytes).1, replicate_length_takeWhile, List.takeWhile_append_dropWhile]

/-! ## Writing -/

/-- A character has the value of the digit that it is. -/
theorem digit_value? {c : Char} {d : Nat} (h : value? c = some d) : d < 58 ∧ digit d = c := by
  obtain ⟨hd, hget, -⟩ := List.findIdx?_eq_some_iff_getElem.1 h
  refine ⟨hd, ?_⟩
  rw [digit, List.getD_eq_getElem?_getD, List.getElem?_eq_getElem hd]
  exact eq_of_beq hget

theorem mapM_value? {text : List Char} {digits : List Nat} (h : text.mapM value? = some digits) :
    text = digits.map digit ∧ ∀ d ∈ digits, d < 58 := by
  induction text generalizing digits with
  | nil =>
      cases h
      exact ⟨rfl, nofun⟩
  | cons c text ih =>
      rw [List.mapM_cons] at h
      obtain ⟨d, hd, h⟩ := Option.bind_eq_some_iff.1 h
      obtain ⟨rest, hrest, h⟩ := Option.bind_eq_some_iff.1 h
      cases h
      obtain ⟨hsmall, rfl⟩ := digit_value? hd
      obtain ⟨rfl, hall⟩ := ih hrest
      exact ⟨rfl, List.forall_mem_cons.2 ⟨hsmall, hall⟩⟩

theorem digitsOf_eq (n : Nat) : digitsOf n = (Nat.digits 58 n).reverse := by
  fun_induction digitsOf n with
  | case1 => simp
  | case2 n h ih =>
      rw [ih, Nat.digits_def' (by decide) (Nat.pos_of_ne_zero h), List.reverse_cons]

theorem ofDigits_eq (digits : List Nat) : ofDigits digits = Nat.ofDigits 58 digits.reverse := by
  induction digits using List.reverseRecOn with
  | nil => rfl
  | append_singleton digits d ih =>
      rw [ofDigits_append, List.reverse_append, List.reverse_singleton, List.singleton_append,
        Nat.ofDigits_cons, ih]
      exact Nat.add_comm _ _

/-- Digits are those of the number that they spell, unless they begin with a zero. -/
theorem digitsOf_ofDigits {digits : List Nat} (small : ∀ d ∈ digits, d < 58)
    (first : digits.head? ≠ some 0) : digitsOf (ofDigits digits) = digits := by
  have hlast : ∀ h : digits.reverse ≠ [], digits.reverse.getLast h ≠ 0 := by
    intro h hzero
    rw [List.getLast_reverse] at hzero
    exact first ((List.head_eq_iff_head?_eq_some _).1 hzero)
  rw [digitsOf_eq, ofDigits_eq,
    Nat.digits_ofDigits 58 (by decide) _ (fun d hd => small d (List.mem_reverse.1 hd)) hlast,
    List.reverse_reverse]

/-- A text of digits is some marks of zero and the digits of a number that begins with none. -/
theorem exists_marks {text : List Char} {digits : List Nat} (h : text.mapM value? = some digits) :
    ∃ rest, text = List.replicate (text.takeWhile (· = '1')).length '1' ++ rest.map digit ∧
      (∀ d ∈ rest, d < 58) ∧ rest.head? ≠ some 0 ∧ ofDigits rest = ofDigits digits := by
  induction text generalizing digits with
  | nil =>
      cases h
      exact ⟨[], rfl, nofun, nofun, rfl⟩
  | cons c text ih =>
      obtain ⟨htext, hsmall⟩ := mapM_value? h
      rw [List.mapM_cons] at h
      obtain ⟨d, hd, h⟩ := Option.bind_eq_some_iff.1 h
      obtain ⟨later, hlater, h⟩ := Option.bind_eq_some_iff.1 h
      cases h
      by_cases hc : c = '1'
      · subst hc
        cases hd
        obtain ⟨rest, hrest, hall, hfirst, hvalue⟩ := ih hlater
        refine ⟨rest, ?_, hall, hfirst, hvalue⟩
        rw [List.takeWhile_cons_of_pos (by simp), List.length_cons, List.replicate_succ,
          List.cons_append, ← hrest]
      · refine ⟨d :: later, ?_, hsmall, ?_, rfl⟩
        · rw [List.takeWhile_cons_of_neg (by simpa using hc)]
          exact htext
        · intro hzero
          cases hzero
          exact hc (digit_value? hd).2.symm

/-- Each byte string is written by one text, the one that writing makes. -/
theorem writes_iff {text : List Char} {bytes : Bytes} :
    Writes text bytes ↔ text = encodeChars bytes := by
  constructor
  · rintro ⟨⟨digits, hdigits, hnumber⟩, hzeros⟩
    obtain ⟨rest, htext, hsmall, hfirst, hvalue⟩ := exists_marks hdigits
    rw [encodeChars, ← hnumber, ← hvalue, digitsOf_ofDigits hsmall hfirst, ← hzeros]
    exact htext
  · rintro rfl
    exact decodeChars?_eq_some_iff.1 (decodeChars?_encodeChars bytes)

end Base58

namespace Multibase

theorem decode_eq_ok_iff {text : String} {bytes : Bytes} :
    decode text = .ok bytes ↔ text = encode bytes := by
  constructor
  · intro h
    rw [decode] at h
    split at h
    · next rest htext =>
      split at h
      · next found hfound =>
        cases h
        rw [encode, ← Base58.writes_iff.1 (Base58.decodeChars?_eq_some_iff.1 hfound), ← htext,
          String.ofList_toList]
      · cases h
    · cases h
  · rintro rfl
    exact decode_encode bytes

end Multibase

theorem PublicKey.ofMultikey_eq_ok_iff {text : String} {key : PublicKey} :
    ofMultikey text = .ok key ↔ text = key.toMultikey := by
  constructor
  · intro h
    rw [ofMultikey] at h
    split at h
    · cases h
    · next bytes hdecode =>
      split at h
      · next found hfound =>
        cases h
        have hbytes : bytes = key.bytes := by
          rw [ofBytes?] at hfound
          split at hfound
          · cases hfound
            rfl
          · cases hfound
        rw [Multibase.decode_eq_ok_iff.1 hdecode, hbytes]
        rfl
      · cases h
    · cases h
  · rintro rfl
    exact ofMultikey_toMultikey key

theorem Signature.ofMultibase_eq_ok_iff {text : String} {s : Signature} :
    ofMultibase text = .ok s ↔ text = s.toMultibase := by
  constructor
  · intro h
    rw [ofMultibase] at h
    split at h
    · cases h
    · next bytes hdecode =>
      split at h
      · cases h
        exact Multibase.decode_eq_ok_iff.1 hdecode
      · cases h
  · rintro rfl
    exact ofMultibase_toMultibase s

/-- Keys and signatures have one spelling each. Whatever is read as a key or as a signature is what
is written for it, and what is written is read. That is, behind the letter, the text of base 58 that
spells the same number as the bytes and begins with a mark for each zero byte at their start. -/
theorem Multibase.read_iff_written :
    (∀ (text : String) (key : PublicKey),
      PublicKey.ofMultikey text = .ok key ↔ text = key.toMultikey) ∧
    (∀ (text : String) (s : Signature), Signature.ofMultibase text = .ok s ↔ text = s.toMultibase) ∧
    ∀ (text : List Char) (bytes : Bytes),
      String.ofList ('z' :: text) = Multibase.encode bytes ↔ Base58.Writes text bytes := by
  refine ⟨fun _ _ => PublicKey.ofMultikey_eq_ok_iff, fun _ _ => Signature.ofMultibase_eq_ok_iff, ?_⟩
  intro text bytes
  rw [Base58.writes_iff, Multibase.encode, String.ofList_inj, List.cons.injEq]
  exact and_iff_right rfl

end AnchoredDid
