import Mathlib.Algebra.Group.Nat.Defs
import Mathlib.Data.List.Induction

/-!
# Decimal digits

The digits of a number have no zero in front, so they determine it, and digits without a zero in
front are those of a number.
-/

namespace AnchoredDid.Digits

theorem isDigit_of_mem {n : Nat} {c : Char} (h : c ∈ Nat.toDigits 10 n) : c.isDigit = true :=
  Nat.isDigit_of_mem_toDigits (by decide) (by decide) h

theorem toDigits_injective {m n : Nat} (h : Nat.toDigits 10 m = Nat.toDigits 10 n) : m = n := by
  rw [← Nat.ofDigitChars_ten_toDigits (n := m), h, Nat.ofDigitChars_ten_toDigits]

/-- A positive number is written without a zero in front. -/
theorem head?_toDigits {n : Nat} (h : 0 < n) : (Nat.toDigits 10 n).head? ≠ some '0' := by
  induction n using Nat.strongRecOn with
  | ind n ih =>
      rw [Nat.toDigits_eq_if (by decide)]
      split
      · next hsmall =>
        have hdigit : ∀ k < 10, 0 < k → k.digitChar ≠ '0' := by decide
        simpa using hdigit n hsmall h
      · next hlarge =>
        have hfirst := ih (n / 10) (by omega) (by omega)
        obtain ⟨c, rest, hdigits⟩ := List.exists_cons_of_ne_nil
          (Nat.toDigits_ne_nil (b := 10) (n := n / 10))
        rw [hdigits] at hfirst ⊢
        exact hfirst

/-- A number lies between the powers of ten that its digits tell. -/
theorem pow_le_of_length {n : Nat} (h : 0 < n) :
    10 ^ ((Nat.toDigits 10 n).length - 1) ≤ n ∧ n < 10 ^ (Nat.toDigits 10 n).length := by
  have hlength := Nat.length_toDigits_pos (b := 10) (n := n)
  refine ⟨Nat.not_lt.1 fun hlt => ?_, ?_⟩
  · rcases Nat.eq_zero_or_pos ((Nat.toDigits 10 n).length - 1) with hzero | hpos
    · rw [hzero, Nat.pow_zero] at hlt
      omega
    · have hle := (Nat.length_toDigits_le_iff (by decide) hpos).2 hlt
      omega
  · exact (Nat.length_toDigits_le_iff (by decide) hlength).1 (Nat.le_refl _)

theorem length_eq {n k : Nat} (hk : 0 < k) (lower : 10 ^ (k - 1) ≤ n) (upper : n < 10 ^ k) :
    (Nat.toDigits 10 n).length = k := by
  refine Nat.le_antisymm ((Nat.length_toDigits_le_iff (by decide) hk).2 upper)
    (Nat.not_lt.1 fun hlt => ?_)
  have hlength := Nat.length_toDigits_pos (b := 10) (n := n)
  have hsmall := (Nat.length_toDigits_le_iff (by decide) hlength).1 (Nat.le_refl _)
  have hpower : 10 ^ (Nat.toDigits 10 n).length ≤ 10 ^ (k - 1) :=
    Nat.pow_le_pow_right (by decide) (by omega)
  omega

/-- Ten times a number has one more digit. -/
theorem toDigits_mul_pow {n : Nat} (h : 0 < n) (j : Nat) :
    Nat.toDigits 10 (n * 10 ^ j) = Nat.toDigits 10 n ++ List.replicate j '0' := by
  induction j with
  | zero => rw [Nat.pow_zero, Nat.mul_one, List.replicate_zero, List.append_nil]
  | succ j ih =>
      have hpositive : 0 < n * 10 ^ j := Nat.mul_pos h (Nat.pow_pos (by decide))
      have htens : n * 10 ^ (j + 1) = n * 10 ^ j * 10 := by rw [Nat.pow_succ, Nat.mul_assoc]
      rw [htens, Nat.toDigits_eq_if (by decide), if_neg (by omega),
        Nat.mul_div_cancel _ (by decide), Nat.mul_mod_left, ih, List.replicate_succ',
        List.append_assoc]
      rfl

theorem bounds_of_isDigit {c : Char} (h : c.isDigit = true) : 48 ≤ c.toNat ∧ c.toNat ≤ 57 := by
  simpa [Char.isDigit, UInt32.le_iff_toNat_le] using h

theorem toDigits_digit {c : Char} (h : c.isDigit = true) :
    Nat.toDigits 10 (c.toNat - 48) = [c] := by
  have hbounds := bounds_of_isDigit h
  have hchar : ∀ k < 10, k.digitChar = Char.ofNat (k + 48) := by decide
  rw [Nat.toDigits_of_lt_base (by omega), hchar _ (by omega), Nat.sub_add_cancel hbounds.1,
    Char.ofNat_toNat]

/-- Digits without a zero in front are those of the number that they tell. -/
theorem toDigits_ofDigitChars {digits : List Char} (hne : digits ≠ [])
    (hdigits : ∀ c ∈ digits, c.isDigit = true) (hfirst : digits.head? ≠ some '0') :
    Nat.toDigits 10 (Nat.ofDigitChars 10 digits 0) = digits := by
  induction digits using List.reverseRecOn with
  | nil => exact absurd rfl hne
  | append_singleton digits c ih =>
      have hlast : c.isDigit = true := hdigits c (by simp)
      rw [Nat.ofDigitChars_append, Nat.ofDigitChars_cons, Nat.ofDigitChars_nil]
      cases digits with
      | nil => simpa using toDigits_digit hlast
      | cons d digits =>
          have hfront := ih (List.cons_ne_nil d digits)
            (fun x hx => hdigits x (List.mem_append_left _ hx)) (by simpa using hfirst)
          have hpositive : 0 < Nat.ofDigitChars 10 (d :: digits) 0 := by
            refine Nat.pos_of_ne_zero fun hzero => hfirst ?_
            rw [hzero, Nat.toDigits_zero] at hfront
            rw [← hfront]
            rfl
          have hsmall : c.toNat - '0'.toNat < 10 := by
            have hbounds := bounds_of_isDigit hlast
            change c.toNat - 48 < 10
            omega
          rw [← Nat.toDigits_append_toDigits (by decide) hpositive hsmall, hfront]
          exact congrArg _ (toDigits_digit hlast)

end AnchoredDid.Digits
