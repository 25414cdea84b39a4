import Mathlib.Data.Nat.Factorization.Basic
import Mathlib.Tactic.FieldSimp
import AnchoredDid.Json.Canonical
import AnchoredDid.Proofs.Json.Integers
import AnchoredDid.Proofs.Number.Shortest

/-!
# How ECMAScript prints a double

ECMAScript prints zero without a sign and every other double by its shortest decimal, the sign in
front (`Double.Prints`). Doubles in canonical texts are printed so (`Double.prints_text`). An
integer of less than fifty-four bits is a double, and its text is the digits of the integer
(`Double.exists_prints_integerText`).
-/

namespace AnchoredDid

namespace Decimal

/-- The digits with the point behind the first `n` of them: zeros fill the gap to the point as long
as the number has no more than twenty-one digits, or six zeros with the one in front of the
point. -/
def ecmascript (digits : List Char) (n : ℤ) : List Char :=
  if digits.length ≤ n ∧ n ≤ 21 then digits ++ List.replicate (n - digits.length).toNat '0'
  else if 0 < n ∧ n ≤ 21 then digits.take n.toNat ++ '.' :: digits.drop n.toNat
  else if -6 < n ∧ n ≤ 0 then '0' :: '.' :: (List.replicate (-n).toNat '0' ++ digits)
  else
    let exponent := 'e' :: (if n < 0 then '-' else '+') :: Nat.toDigits 10 (n - 1).natAbs
    if digits.length = 1 then digits ++ exponent
    else digits.take 1 ++ '.' :: digits.drop 1 ++ exponent

/-- The style of canonical texts places the point as ECMAScript does. -/
theorem styled_eq_ecmascript {digits : List Char} (h : digits ≠ []) (n : ℤ) :
    (if Json.canonicalStyle.leastPoint ≤ n && n ≤ Json.canonicalStyle.greatestPoint
      then Json.canonicalStyle.positional ⟨digits, n⟩ else NumberStyle.scientific ⟨digits, n⟩) =
        ecmascript digits n := by
  have hlength := List.length_pos_iff.2 h
  have hcondition : (Json.canonicalStyle.leastPoint ≤ n && n ≤ Json.canonicalStyle.greatestPoint) =
      decide (-5 ≤ n ∧ n ≤ 21) := (Bool.decide_and _ _).symm
  rw [hcondition]
  simp only [decide_eq_true_eq]
  by_cases hrange : -5 ≤ n ∧ n ≤ 21
  · rw [if_pos hrange, NumberStyle.positional]
    dsimp only
    by_cases hzero : n ≤ 0
    · have hafter : ¬(digits.length ≤ n ∧ n ≤ 21) := by omega
      have hinside : ¬(0 < n ∧ n ≤ 21) := by omega
      have hbefore : -6 < n ∧ n ≤ 0 := by omega
      rw [if_pos hzero, ecmascript, if_neg hafter, if_neg hinside, if_pos hbefore]
      rfl
    rw [if_neg hzero]
    by_cases hless : n < digits.length
    · have hafter : ¬(digits.length ≤ n ∧ n ≤ 21) := by omega
      have hinside : 0 < n ∧ n ≤ 21 := by omega
      rw [if_pos hless, ecmascript, if_neg hafter, if_pos hinside]
    · have hafter : digits.length ≤ n ∧ n ≤ 21 := by omega
      rw [if_neg hless, ecmascript, if_pos hafter]
      exact List.append_nil _
  · have hafter : ¬(digits.length ≤ n ∧ n ≤ 21) := by omega
    have hinside : ¬(0 < n ∧ n ≤ 21) := by omega
    have hbefore : ¬(-6 < n ∧ n ≤ 0) := by omega
    have hsign : (n - 1 < 0) = (n < 0) := propext (by omega)
    rw [if_neg hrange, ecmascript, if_neg hafter, if_neg hinside, if_neg hbefore,
      NumberStyle.scientific]
    simp only [hsign]
    obtain ⟨c, rest, rfl⟩ := List.exists_cons_of_ne_nil h
    cases rest with
    | nil => rfl
    | cons d rest => simp

end Decimal

namespace Double

variable {x y : Double} {q : ℚ} {text other : List Char}

/-- The text of a double in ECMAScript. -/
inductive Prints : Double → List Char → Prop where
  | zero {x : Double} (zero : x.significand = 0) : Prints x ['0']
  | positive {x : Double} {s k : ℕ} {n : ℤ} (sign : x.negative = false)
      (nonzero : 0 < x.significand) (shortest : Decimal.Shortest x s n k) :
      Prints x (Decimal.ecmascript (Nat.toDigits 10 s) n)
  | negative {x : Double} {text : List Char} (sign : x.negative = true)
      (nonzero : 0 < x.significand) (magnitude : Prints x.opposite text) : Prints x ('-' :: text)

/-- A double has one text. -/
theorem Prints.unique (hx : Prints x text) (hy : Prints x other) : text = other := by
  induction hx generalizing other with
  | zero hzero =>
      cases hy with
      | zero _ => rfl
      | positive _ hnonzero _ => exact absurd hzero hnonzero.ne'
      | negative _ hnonzero _ => exact absurd hzero hnonzero.ne'
  | positive hsign hnonzero hshortest =>
      cases hy with
      | zero hzero => exact absurd hzero hnonzero.ne'
      | positive _ _ hshortest' =>
          obtain ⟨rfl, rfl, -⟩ := hshortest.unique hshortest' hsign hnonzero
          rfl
      | negative hsign' _ _ => exact absurd (hsign.symm.trans hsign') Bool.false_ne_true
  | negative hsign hnonzero _ ih =>
      cases hy with
      | zero hzero => exact absurd hzero hnonzero.ne'
      | positive hsign' _ _ => exact absurd (hsign'.symm.trans hsign) Bool.false_ne_true
      | negative _ _ hmagnitude => exact congrArg ('-' :: ·) (ih hmagnitude)

/-- Only zero has two representations, and they have one text. -/
theorem Prints.eq_of_value_eq (hx : x.Representable) (hy : y.Representable)
    (hvalue : x.value = y.value) (left : Prints x text) (right : Prints y other) :
    text = other := by
  obtain rfl | ⟨hxzero, hyzero⟩ := hx.eq_of_value_eq hy hvalue
  · exact left.unique right
  · exact (left.unique (.zero hxzero)).trans ((Prints.zero hyzero).unique right)

/-- The shortest decimal of the magnitude is what is printed. -/
theorem prints_magnitude (hx : x.Representable) (hsign : x.negative = false)
    (hnonzero : 0 < x.significand) :
    Prints x (Decimal.ecmascript (Decimal.shortest x.significand x.exponent).digits
      (Decimal.shortest x.significand x.exponent).point) := by
  obtain ⟨s, n, k, hshortest, heq⟩ := Decimal.shortest_spec hx hsign hnonzero
  rw [heq]
  exact .positive hsign hnonzero hshortest

/-- Canonical texts hold doubles as ECMAScript prints them. -/
theorem prints_text (hx : x.Representable) : Prints x (Json.canonicalStyle.text x) := by
  unfold NumberStyle.text isZero
  simp only [decide_eq_true_eq]
  split
  · next hzero => exact .zero hzero
  · next hnonzero =>
    have hpositive := Nat.pos_of_ne_zero hnonzero
    have hdigits : (Decimal.shortest x.significand x.exponent).digits ≠ [] := by
      obtain ⟨s, n, k, -, heq⟩ := Decimal.shortest_spec (x := { x with negative := false })
        ⟨hx.least, hx.fits, hx.full⟩ rfl hpositive
      rw [heq]
      exact Nat.toDigits_ne_nil
    rw [Decimal.styled_eq_ecmascript hdigits]
    cases hsign : x.negative with
    | false => exact prints_magnitude hx hsign hpositive
    | true =>
        have hopposite : x.opposite.negative = false := by rw [opposite, hsign]; rfl
        exact .negative hsign hpositive (prints_magnitude hx.opposite hopposite hpositive)

/-- What is printed is written with the characters of numbers. -/
theorem Prints.numerals (h : Prints x text) :
    text ≠ [] ∧ ∀ c ∈ text, Json.isNumeral c = true := by
  induction h with
  | zero _ => exact ⟨List.cons_ne_nil _ _, List.forall_mem_singleton.2 rfl⟩
  | positive hsign hnonzero hshortest =>
      have hrepresentable := hshortest.readsBack.nearest.representable
      rw [(Prints.positive hsign hnonzero hshortest).unique (prints_text hrepresentable)]
      exact ⟨Json.text_ne_nil _, Json.isNumeral_text _⟩
  | negative _ _ _ ih => exact ⟨List.cons_ne_nil _ _, List.forall_mem_cons.2 ⟨rfl, ih.2⟩⟩

/-! ## Integers -/

/-- The double of a natural number, with a last place that is worth one at most. -/
structure Whole (x : Double) (n : ℕ) : Prop where
  representable : x.Representable
  sign : x.negative = false
  unit : x.exponent ≤ 0
  magnitude : x.magnitude = n

/-- Every natural number of less than fifty-four bits is such a double. -/
theorem exists_whole {n : ℕ} (h : n < 2 ^ 53) : ∃ x : Double, x.Whole n := by
  rcases Nat.eq_zero_or_pos n with rfl | hpositive
  · exact ⟨zero false, representable_zero, rfl, by decide, by simp [magnitude, zero]⟩
  obtain ⟨j, hj⟩ : ∃ j, n.log2 + j = 52 :=
    ⟨52 - n.log2, Nat.add_sub_cancel' (Nat.le_of_lt_succ ((Nat.log2_lt hpositive.ne').2 h))⟩
  have hlower : 2 ^ 52 ≤ n * 2 ^ j := by
    rw [← hj, pow_add]
    exact Nat.mul_le_mul_right _ (Nat.log2_self_le hpositive.ne')
  have hupper : n * 2 ^ j < 2 ^ 53 := by
    have hpower : (2 : ℕ) ^ 53 = 2 ^ (n.log2 + 1) * 2 ^ j := by
      rw [← pow_add]
      congr 1
      omega
    rw [hpower]
    exact Nat.mul_lt_mul_of_pos_right Nat.lt_log2_self (Nat.two_pow_pos j)
  refine ⟨⟨false, n * 2 ^ j, -j⟩, ⟨?_, hupper, fun _ => hlower⟩, rfl, by simp, ?_⟩
  · rw [leastExponent]
    dsimp only
    omega
  · rw [magnitude, zpow_neg, zpow_natCast]
    push_cast
    field_simp

namespace Whole

variable {n c j : ℕ}

theorem value (h : x.Whole n) : x.value = n :=
  (value_of_positive h.sign).trans h.magnitude

theorem significand_pos (h : x.Whole n) (hpositive : 0 < n) : 0 < x.significand := by
  refine Nat.pos_of_ne_zero fun hzero => ?_
  have hmagnitude := h.magnitude
  rw [Double.magnitude, hzero, Nat.cast_zero, zero_mul] at hmagnitude
  exact hpositive.ne (Nat.cast_injective (R := ℚ) (by rw [Nat.cast_zero, hmagnitude]))

/-- What rounds to such a double is at most a half away from it. -/
theorem within_half (h : x.Whole n) (hpositive : 0 < n) (hq : Nearest q x) :
    2 * (n : ℚ) - 1 ≤ 2 * q ∧ 2 * q ≤ 2 * n + 1 := by
  have hsignificand := h.significand_pos hpositive
  have hmagnitude := h.magnitude
  have hrounds := (nearest_iff h.representable h.sign hsignificand).1 hq
  have hprior := magnitude_prior_next hsignificand
  have hnext := x.magnitude_next
  have hunit : (2 : ℚ) ^ x.exponent ≤ 1 := zpow_le_one_of_nonpos₀ (by norm_num) h.unit
  have hunit' : (2 : ℚ) ^ x.prior.exponent ≤ 1 := by
    have hexponent := h.unit
    refine zpow_le_one_of_nonpos₀ (by norm_num) ?_
    unfold prior
    split
    · dsimp only
      omega
    · exact hexponent
  constructor
  · linarith [hrounds.lower]
  · linarith [hrounds.upper]

/-- A decimal that rounds to such a double is the number itself if it is a whole number. -/
theorem eq_of_nearest (h : x.Whole n) (hpositive : 0 < n) {m : ℕ} (hm : Nearest m x) : m = n := by
  obtain ⟨hbelow, habove⟩ := h.within_half hpositive hm
  have hbelow' : 2 * n ≤ 2 * m + 1 := by
    have hcast : 2 * (n : ℚ) ≤ 2 * m + 1 := by linarith
    exact_mod_cast hcast
  have habove' : 2 * m ≤ 2 * n + 1 := by exact_mod_cast habove
  omega

/-- A number that becomes a multiple of a smaller one by zeros at its end has a zero at its end. -/
theorem dvd_of_mul_pow_eq {s t : ℕ} (hless : s < c) (h : s * 10 ^ t = c * 10 ^ j) : 10 ∣ c := by
  rcases le_or_gt t j with htj | htj
  · obtain ⟨u, rfl⟩ := Nat.exists_eq_add_of_le htj
    rw [pow_add, mul_left_comm, mul_comm s] at h
    have hequal := Nat.eq_of_mul_eq_mul_left (Nat.pow_pos (by decide)) h
    have hmore := Nat.le_mul_of_pos_right c (Nat.pow_pos (n := u) (show 0 < 10 by decide))
    omega
  · obtain ⟨u, rfl⟩ := Nat.exists_eq_add_of_lt htj
    rw [add_assoc, pow_add, mul_left_comm, mul_comm c] at h
    have hequal := Nat.eq_of_mul_eq_mul_left (Nat.pow_pos (by decide)) h
    exact hequal ▸ Dvd.dvd.mul_left (dvd_pow_self 10 (Nat.succ_ne_zero u)) s

/-- A decimal that rounds to such a double, of fewer digits than the number has without the zeros at
its end, would be a multiple of a higher power of ten or far smaller. -/
theorem length_le_of_readsBack (h : x.Whole n) (hn : n = c * 10 ^ j) (hc : ¬10 ∣ c) {s i : ℕ}
    {m : ℤ} (hs : Decimal.ReadsBack x s m i) : (Nat.toDigits 10 c).length ≤ i := by
  have hcpositive : 0 < c := Nat.pos_of_ne_zero fun hzero => hc (hzero ▸ dvd_zero 10)
  have hpositive : 0 < n := hn ▸ Nat.mul_pos hcpositive (Nat.pow_pos (by decide))
  have hlower := (Digits.pow_le_of_length hcpositive).1
  generalize (Nat.toDigits 10 c).length = k at hlower ⊢
  by_contra hle
  obtain ⟨hi, hlow, hhigh, hnearest⟩ := hs
  rcases le_or_gt (i : ℤ) m with hwhole | hfraction
  · obtain ⟨t, rfl⟩ := Int.exists_add_of_le hwhole
    have hdecimal : (s : ℚ) * 10 ^ ((i : ℤ) + t - i) = (s * 10 ^ t : ℕ) := by
      rw [add_sub_cancel_left, zpow_natCast]
      push_cast
      rfl
    rw [hdecimal] at hnearest
    have hsame : s * 10 ^ t = c * 10 ^ j := (h.eq_of_nearest hpositive hnearest).trans hn
    have hless : s < c := by
      have hpower : 10 ^ i ≤ 10 ^ (k - 1) := Nat.pow_le_pow_right (by decide) (by omega)
      omega
    exact hc (dvd_of_mul_pow_eq hless hsame)
  · obtain ⟨w, rfl⟩ : ∃ w, k = w + 2 := ⟨k - 2, by omega⟩
    obtain ⟨hbelow, -⟩ := h.within_half hpositive hnearest
    obtain ⟨-, hsmall⟩ := Decimal.decimal_bounds hi hlow hhigh m
    have hpower : (10 : ℚ) ^ m ≤ 10 ^ w := by
      rw [← zpow_natCast]
      exact zpow_le_zpow_right₀ (by norm_num) (by omega)
    have hone : (1 : ℚ) ≤ 10 ^ w := one_le_pow₀ (by norm_num)
    have hlarge : (10 : ℚ) ^ w * 10 ≤ n := by
      have hnat : 10 ^ w * 10 ≤ n := by
        rw [hn]
        exact le_trans hlower (Nat.le_mul_of_pos_right c (Nat.pow_pos (by decide)))
      exact_mod_cast hnat
    linarith

/-- The digits of such a number without the zeros at its end are the shortest decimal. -/
theorem shortest (h : x.Whole n) (hn : n = c * 10 ^ j) (hc : ¬10 ∣ c) :
    Decimal.Shortest x c ((Nat.toDigits 10 c).length + j : ℕ) (Nat.toDigits 10 c).length := by
  have hcpositive : 0 < c := Nat.pos_of_ne_zero fun hzero => hc (hzero ▸ dvd_zero 10)
  obtain ⟨hlower, hupper⟩ := Digits.pow_le_of_length hcpositive
  have hlength := Nat.length_toDigits_pos (b := 10) (n := c)
  have hfewest := fun s m i => h.length_le_of_readsBack hn hc (s := s) (m := m) (i := i)
  generalize (Nat.toDigits 10 c).length = k at *
  have hdecimal : (c : ℚ) * 10 ^ (((k + j : ℕ) : ℤ) - k) = x.value := by
    have hpoint : ((k + j : ℕ) : ℤ) - k = (j : ℕ) := by
      push_cast
      ring
    rw [hpoint, zpow_natCast, h.value, hn]
    push_cast
    rfl
  have hreads : Decimal.ReadsBack x c ((k + j : ℕ) : ℤ) k :=
    ⟨hlength, hlower, hupper, hdecimal ▸ h.representable.nearest⟩
  refine ⟨hreads, hfewest, fun s m hs => ?_, fun s m hs hsame => .inl ?_⟩
  · rw [hdecimal, sub_self, abs_zero]
    exact abs_nonneg _
  · rw [hdecimal, sub_self, abs_zero, eq_comm, abs_eq_zero, sub_eq_zero, ← hdecimal] at hsame
    exact Decimal.decimal_injective hlength hs.lower hs.upper hlower hupper hsame

theorem prints (h : x.Whole n) (hsmall : n < 2 ^ 53) : Prints x (Nat.toDigits 10 n) := by
  rcases Nat.eq_zero_or_pos n with rfl | hpositive
  · refine .zero (Nat.eq_zero_of_not_pos fun hsignificand => ?_)
    exact (magnitude_pos hsignificand).ne' (by rw [h.magnitude, Nat.cast_zero])
  obtain ⟨j, c, hc, hn⟩ := Nat.exists_eq_pow_mul_and_not_dvd hpositive.ne' 10 (by decide)
  rw [mul_comm] at hn
  have hcpositive : 0 < c := Nat.pos_of_ne_zero fun hzero => hc (hzero ▸ dvd_zero 10)
  have hdigits : Nat.toDigits 10 n = Nat.toDigits 10 c ++ List.replicate j '0' := by
    rw [hn, Digits.toDigits_mul_pow hcpositive]
  have hlength : (Nat.toDigits 10 c).length + j ≤ 16 := by
    have hall : (Nat.toDigits 10 n).length ≤ 16 :=
      (Nat.length_toDigits_le_iff (by decide) (by decide)).2 (lt_trans hsmall (by decide))
    rwa [hdigits, List.length_append, List.length_replicate] at hall
  have htext : Decimal.ecmascript (Nat.toDigits 10 c) ((Nat.toDigits 10 c).length + j : ℕ) =
      Nat.toDigits 10 n := by
    rw [Decimal.ecmascript, if_pos ⟨by omega, by omega⟩, hdigits]
    congr 2
    omega
  rw [← htext]
  exact .positive h.sign (h.significand_pos hpositive) (h.shortest hn hc)

end Whole

/-- An integer of less than fifty-four bits is a double, which is printed by the integer's
digits. -/
theorem exists_prints_integerText {n : ℤ} (h : n.natAbs < 2 ^ 53) :
    ∃ x : Double, Nearest n x ∧ Prints x (Json.integerText n) := by
  obtain ⟨x, whole⟩ := exists_whole h
  have hprints := whole.prints h
  rcases lt_or_ge n 0 with hneg | hnonneg
  · have hvalue : x.opposite.value = n := by
      rw [value_opposite, whole.value, Nat.cast_natAbs, abs_of_neg hneg, Int.cast_neg, neg_neg]
    rw [← hvalue, Json.integerText_of_neg hneg]
    refine ⟨x.opposite, whole.representable.opposite.nearest, .negative ?_ ?_ ?_⟩
    · rw [opposite, whole.sign]
      rfl
    · exact whole.significand_pos (Int.natAbs_pos.2 hneg.ne)
    · rwa [opposite_opposite]
  · have hvalue : x.value = n := by
      rw [whole.value, Nat.cast_natAbs, abs_of_nonneg hnonneg]
    rw [← hvalue, Json.integerText_of_nonneg hnonneg]
    exact ⟨x, whole.representable.nearest, hprints⟩

end Double

end AnchoredDid
