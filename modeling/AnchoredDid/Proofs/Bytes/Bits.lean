import AnchoredDid.Bytes
import Mathlib.Data.Nat.Bitwise

/-!
# Bits of byte strings are read as they were written

Byte strings and lists of whole bytes of bits are the same thing (`Bytes.ofBits_bits`,
`Bytes.bits_ofBits`); of any other list of bits the last few are not read. Byte strings of one
length are ordered by the first bit in which they differ (`Bytes.compare_eq_lt_of_bit`).
-/

namespace AnchoredDid.Bytes

theorem ofNat_natOfBits_bitsOfByte (b : UInt8) : UInt8.ofNat (natOfBits (bitsOfByte b)) = b := by
  have hall : ∀ n : Fin 256, natOfBits (bitsOfByte (UInt8.ofNat n)) = n := by decide +kernel
  have hb : natOfBits (bitsOfByte b) = b.toNat := by
    simpa using hall ⟨b.toNat, b.toNat_lt⟩
  rw [hb, UInt8.ofNat_toNat]

/-- Eight bits are the bits of the byte that they spell. -/
theorem bitsOfByte_ofNat : ∀ b7 b6 b5 b4 b3 b2 b1 b0 : Bool,
    bitsOfByte (UInt8.ofNat (natOfBits [b7, b6, b5, b4, b3, b2, b1, b0])) =
      [b7, b6, b5, b4, b3, b2, b1, b0] := by
  decide +kernel

@[simp] theorem bits_nil : bits [] = [] := rfl

@[simp] theorem bits_cons (b : UInt8) (bytes : Bytes) :
    bits (b :: bytes) = bitsOfByte b ++ bits bytes := rfl

@[simp] theorem ofBits_bitsOfByte_append (b : UInt8) (rest : List Bool) :
    ofBits (bitsOfByte b ++ rest) = b :: ofBits rest :=
  congrArg (· :: ofBits rest) (ofNat_natOfBits_bitsOfByte b)

/-- Bits that fill no byte are not read. -/
theorem ofBits_of_length_lt {few : List Bool} (h : few.length < 8) : ofBits few = [] := by
  rw [ofBits]
  rintro b7 b6 b5 b4 b3 b2 b1 b0 rest rfl
  simp only [List.length_cons] at h
  omega

theorem ofBits_bits_append (bytes : Bytes) (rest : List Bool) :
    ofBits (bits bytes ++ rest) = bytes ++ ofBits rest := by
  induction bytes with
  | nil => rfl
  | cons b bytes ih =>
    rw [bits_cons, List.append_assoc, ofBits_bitsOfByte_append, ih, List.cons_append]

@[simp] theorem ofBits_bits (bytes : Bytes) : ofBits (bits bytes) = bytes := by
  have hnil : ofBits [] = [] := ofBits_of_length_lt (by decide)
  have h := ofBits_bits_append bytes []
  rwa [List.append_nil, hnil, List.append_nil] at h

/-- The bits of the bytes that were read come first, and those left over behind them. -/
theorem bits_ofBits (bits : List Bool) :
    ∃ few, bits = Bytes.bits (ofBits bits) ++ few ∧ few.length = bits.length % 8 := by
  fun_induction ofBits bits with
  | case1 b7 b6 b5 b4 b3 b2 b1 b0 rest ih =>
      obtain ⟨few, hfew, hlength⟩ := ih
      refine ⟨few, ?_, by simp only [List.length_cons]; omega⟩
      rw [bits_cons, bitsOfByte_ofNat, List.append_assoc, ← hfew]
      rfl
  | case2 few hfew =>
      have hshort : few.length < 8 := by
        match few with
        | [] | [_] | [_, _] | [_, _, _] | [_, _, _, _] | [_, _, _, _, _] | [_, _, _, _, _, _]
        | [_, _, _, _, _, _, _] => simp
        | _ :: _ :: _ :: _ :: _ :: _ :: _ :: _ :: _ => exact absurd rfl (hfew _ _ _ _ _ _ _ _ _)
      exact ⟨few, rfl, (Nat.mod_eq_of_lt hshort).symm⟩

/-- The bits of whole bytes are all read. -/
theorem bits_ofBits_of_length {bits : List Bool} {n : Nat} (h : bits.length = 8 * n) :
    Bytes.bits (ofBits bits) = bits ∧ (ofBits bits).length = n := by
  obtain ⟨few, hbits, hfew⟩ := bits_ofBits bits
  obtain rfl : few = [] := List.eq_nil_of_length_eq_zero (by rw [hfew, h]; omega)
  rw [List.append_nil] at hbits
  refine ⟨hbits.symm, ?_⟩
  have hlength := length_bits (ofBits bits)
  rw [← hbits, h] at hlength
  omega

@[simp] theorem bit_nil (i : Nat) : bit [] i = false := by
  simp [bit]

theorem bit_cons_of_lt (b : UInt8) (bytes : Bytes) {i : Nat} (h : i < 8) :
    bit (b :: bytes) i = b.toNat.testBit (7 - i) := by
  simp [bit, Nat.div_eq_of_lt h, Nat.mod_eq_of_lt h]

theorem bit_cons_add (b : UInt8) (bytes : Bytes) (i : Nat) :
    bit (b :: bytes) (i + 8) = bit bytes i := by
  simp [bit]

theorem getElem?_bitsOfByte (b : UInt8) {i : Nat} (h : i < 8) :
    (bitsOfByte b)[i]? = some (b.toNat.testBit (7 - i)) := by
  match i with
  | 0 | 1 | 2 | 3 | 4 | 5 | 6 | 7 => rfl
  | i + 8 => omega

theorem getElem?_bits (bytes : Bytes) {i : Nat} (h : i < 8 * bytes.length) :
    (bits bytes)[i]? = some (bit bytes i) := by
  induction bytes generalizing i with
  | nil => simp at h
  | cons b bytes ih =>
      rw [bits_cons]
      rcases Nat.lt_or_ge i 8 with hi | hi
      · rw [List.getElem?_append_left (by simpa using hi), getElem?_bitsOfByte b hi,
          bit_cons_of_lt b bytes hi]
      · obtain ⟨i, rfl⟩ := Nat.exists_eq_add_of_le' hi
        rw [List.getElem?_append_right (by simp), bit_cons_add]
        simpa using ih (i := i) (by simp only [List.length_cons] at h; omega)

theorem testBit_byte_of_ge (b : UInt8) {i : Nat} (h : 8 ≤ i) : b.toNat.testBit i = false :=
  Nat.testBit_lt_two_pow (Nat.lt_of_lt_of_le b.toNat_lt (Nat.pow_le_pow_right (by decide) h))

/-- The bits of a byte below a number decide the byte from its most significant bit on. -/
theorem testBit_eq_of_bit_eq {a b : UInt8} {as bs : Bytes} {i : Nat} (hi : i ≤ 8)
    (hsame : ∀ j < i, bit (a :: as) j = bit (b :: bs) j) (k : Nat) (hk : 8 - i ≤ k) :
    a.toNat.testBit k = b.toNat.testBit k := by
  rcases Nat.lt_or_ge k 8 with hk8 | hk8
  · have h := hsame (7 - k) (by omega)
    rw [bit_cons_of_lt _ _ (by omega), bit_cons_of_lt _ _ (by omega)] at h
    rwa [show 7 - (7 - k) = k by omega] at h
  · rw [testBit_byte_of_ge a hk8, testBit_byte_of_ge b hk8]

/-- Byte strings of one length are ordered by the first bit in which they differ. -/
theorem compare_eq_lt_of_bit {a b : Bytes} {i : Nat} (hlength : a.length = b.length)
    (hsame : ∀ j < i, bit a j = bit b j) (ha : bit a i = false) (hb : bit b i = true) :
    compare a b = .lt := by
  induction a generalizing b i with
  | nil =>
      obtain rfl := List.eq_nil_of_length_eq_zero hlength.symm
      simp at hb
  | cons x as ih =>
      cases b with
      | nil => simp at hb
      | cons y bs =>
          rw [List.compare_cons_cons]
          rcases Nat.lt_or_ge i 8 with hi | hi
          · -- The bytes in front differ, first in this bit.
            rw [bit_cons_of_lt _ _ hi] at ha hb
            have hxy : x.toNat < y.toNat :=
              Nat.lt_of_testBit (7 - i) ha hb fun k hk =>
                testBit_eq_of_bit_eq (by omega) hsame k (by omega)
            rw [Std.compare_eq_lt.mpr (UInt8.lt_iff_toNat_lt.mpr hxy)]
            rfl
          · obtain ⟨i, rfl⟩ := Nat.exists_eq_add_of_le' hi
            have hxy : x = y := UInt8.toNat_inj.mp <| Nat.eq_of_testBit_eq fun k =>
              testBit_eq_of_bit_eq (Nat.le_refl 8) (fun j hj => hsame j (by omega)) k (by omega)
            rw [bit_cons_add] at ha hb
            have htail := ih (by simpa using hlength) (fun j hj => by
              simpa only [bit_cons_add] using hsame (j + 8) (by omega)) ha hb
            rw [hxy, Std.ReflOrd.compare_self, htail]
            rfl

end AnchoredDid.Bytes
