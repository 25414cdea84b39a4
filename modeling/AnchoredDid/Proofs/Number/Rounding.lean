import AnchoredDid.Proofs.Number.Digits
import AnchoredDid.Proofs.Number.Nearest

/-!
# Rounding to the nearest double

A number that is rounded to a multiple of the unit of its leading bits becomes the double nearest to
it (`Double.nearest_of_rounded`). So every quotient, and with it every decimal literal that is not
refused, becomes the nearest double (`Double.nearest_of_ofDecimal?`).
-/

namespace AnchoredDid.Double

/-! ## Rounding to a multiple -/

/-- A natural number at most a half away is the nearest one, and the only one if it is less than a
half away. -/
theorem nearest_of_half {n : ℕ} {v : ℚ} (half : |n - v| ≤ 1 / 2)
    (even : |n - v| = 1 / 2 → Even n) (m : ℕ) :
    |n - v| ≤ |m - v| ∧ (|n - v| = |m - v| → m = n ∨ Even n) := by
  rcases eq_or_ne m n with rfl | hne
  · exact ⟨le_rfl, fun _ => .inl rfl⟩
  · have hstep : (1 : ℚ) ≤ |(m : ℚ) - n| := by
      exact_mod_cast Int.one_le_abs (show (m : ℤ) - n ≠ 0 by omega)
    have htriangle : |(m : ℚ) - n| ≤ |m - v| + |n - v| := by
      rw [abs_sub_comm (n : ℚ) v]
      exact abs_sub_le _ _ _
    exact ⟨by linarith, fun hsame => .inr (even (by linarith))⟩

/-- The distance of a multiple of a unit, in units. -/
theorem abs_mul_sub {unit : ℚ} (hunit : 0 < unit) (m v : ℚ) :
    |m * unit - v| = |m - v / unit| * unit := by
  rw [← abs_of_pos hunit, ← abs_mul, abs_of_pos hunit, sub_mul, div_mul_cancel₀ _ hunit.ne']

/-- A multiple of a unit at most half a unit away is a nearest multiple. -/
theorem nearest_multiple {n : ℕ} {unit v : ℚ} (hunit : 0 < unit) (half : |n - v / unit| ≤ 1 / 2)
    (even : |n - v / unit| = 1 / 2 → Even n) (m : ℕ) :
    |n * unit - v| ≤ |m * unit - v| ∧ (|n * unit - v| = |m * unit - v| → m = n ∨ Even n) := by
  obtain ⟨hcloser, hsame⟩ := nearest_of_half half even m
  rw [abs_mul_sub hunit, abs_mul_sub hunit]
  exact ⟨mul_le_mul_of_nonneg_right hcloser hunit.le,
    fun h => hsame (mul_right_cancel₀ hunit.ne' h)⟩

/-- Rounding a quotient gives one of the two integers around it. -/
theorem roundDiv_cases (num den : ℕ) :
    roundDiv num den = num / den ∨ roundDiv num den = num / den + 1 := by
  unfold roundDiv
  dsimp only
  split
  · exact .inl rfl
  · split
    · exact .inr rfl
    · split
      · exact .inl rfl
      · exact .inr rfl

/-- A rounded quotient is at most a half away, and even if it is a half away. -/
theorem roundDiv_half (num : ℕ) {den : ℕ} (hden : 0 < den) :
    |(roundDiv num den : ℚ) - num / den| ≤ 1 / 2 ∧
      (|(roundDiv num den : ℚ) - num / den| = 1 / 2 → Even (roundDiv num den)) := by
  have hden' : (0 : ℚ) < den := Nat.cast_pos.2 hden
  have hremainder : ((num % den : ℕ) : ℚ) = num - den * (num / den : ℕ) := by
    rw [eq_sub_iff_add_eq]
    exact_mod_cast Nat.mod_add_div num den
  rw [← mul_le_mul_iff_left₀ hden', ← mul_left_inj' hden'.ne', ← abs_mul_sub hden']
  unfold roundDiv
  dsimp only
  have hnonneg : (0 : ℚ) ≤ (num % den : ℕ) := Nat.cast_nonneg _
  have hsmaller : ((num % den : ℕ) : ℚ) < den := Nat.cast_lt.2 (Nat.mod_lt _ hden)
  have hbelow : |((num / den : ℕ) : ℚ) * den - num| = (num % den : ℕ) := by
    rw [abs_sub_comm, abs_of_nonneg] <;> linarith
  have habove : |((num / den + 1 : ℕ) : ℚ) * den - num| = den - (num % den : ℕ) := by
    push_cast
    rw [abs_of_nonneg] <;> linarith
  split
  · next hless =>
    have hless' : 2 * ((num % den : ℕ) : ℚ) < den := by exact_mod_cast hless
    rw [hbelow]
    exact ⟨by linarith, fun h => by linarith⟩
  · split
    · next hmore =>
      have hmore' : (den : ℚ) < 2 * (num % den : ℕ) := by exact_mod_cast hmore
      rw [habove]
      exact ⟨by linarith, fun h => by linarith⟩
    · next hless hmore =>
      have hhalf : 2 * ((num % den : ℕ) : ℚ) = den := by
        exact_mod_cast le_antisymm (not_lt.1 hmore) (not_lt.1 hless)
      split
      · next heven =>
        rw [hbelow]
        exact ⟨by linarith, fun _ => Nat.even_iff.2 heven⟩
      · next hodd =>
        rw [habove]
        exact ⟨by linarith, fun _ => (Nat.not_even_iff_odd.1 (mt Nat.even_iff.1 hodd)).add_one⟩


/-- So is a quotient that is rounded to a multiple of a power of two. -/
theorem roundAt_half (e : ℤ) (num : ℕ) {den : ℕ} (hden : 0 < den) :
    |(roundAt e num den : ℚ) - num / den / 2 ^ e| ≤ 1 / 2 ∧
      (|(roundAt e num den : ℚ) - num / den / 2 ^ e| = 1 / 2 → Even (roundAt e num den)) := by
  unfold roundAt
  split
  · next h =>
    obtain ⟨n, rfl⟩ := Int.eq_ofNat_of_zero_le h
    have hhalf := roundDiv_half num (Nat.mul_pos hden (Nat.two_pow_pos n))
    push_cast at hhalf
    rw [← div_div] at hhalf
    rw [zpow_natCast]
    exact hhalf
  · next h =>
    obtain ⟨n, rfl⟩ := Int.exists_eq_neg_ofNat (le_of_not_ge h)
    have hhalf := roundDiv_half (num * 2 ^ n) hden
    push_cast at hhalf
    rw [zpow_neg, zpow_natCast, div_inv_eq_mul, div_mul_eq_mul_div, neg_neg]
    exact hhalf

variable {x y : Double} {q : ℚ}

/-- A double is a multiple of a unit, or negative, or below the fifty-third bit of that unit. -/
theorem multiple_or_below (hy : y.Representable) (e : ℤ) :
    (∃ m : ℕ, y.value = m * 2 ^ e) ∨ y.value < (0 : ℕ) * 2 ^ e ∨
      leastExponent < e ∧ y.value < (2 ^ 52 : ℕ) * 2 ^ e := by
  rcases lt_or_ge y.value 0 with hnegative | hnonneg
  · rw [Nat.cast_zero, zero_mul]
    exact .inr (.inl hnegative)
  rw [← magnitude_eq_value hnonneg]
  rcases le_or_gt e y.exponent with hle | hlt
  · obtain ⟨k, hk⟩ := Int.exists_add_of_le hle
    exact .inl ⟨y.significand * 2 ^ k, magnitude_eq_mul hk⟩
  · have hfits : (y.significand : ℚ) < 2 ^ 53 := by exact_mod_cast hy.fits
    have hsmaller : (0 : ℚ) < 2 ^ y.exponent := by positivity
    have hstep : (2 : ℚ) ^ (y.exponent + 1) ≤ 2 ^ e := zpow_le_zpow_right₀ (by norm_num) hlt
    rw [zpow_add_one₀ two_ne_zero] at hstep
    refine .inr (.inr ⟨lt_of_le_of_lt hy.least hlt, ?_⟩)
    calc y.magnitude = y.significand * 2 ^ y.exponent := rfl
      _ < 2 ^ 53 * 2 ^ y.exponent := by gcongr
      _ = (2 ^ 52 : ℕ) * (2 ^ y.exponent * 2) := by
          push_cast
          ring
      _ ≤ (2 ^ 52 : ℕ) * 2 ^ e := by gcongr

/-- A number rounded to a multiple of a unit is rounded to the nearest double if its own leading bit
is not below the fifty-third bit of the unit, or if there is no smaller unit. -/
theorem nearest_of_rounded (hq : 0 ≤ q) {s : ℕ} {e : ℤ} (half : |s - q / 2 ^ e| ≤ 1 / 2)
    (even : |s - q / 2 ^ e| = 1 / 2 → Even s) (hfull : leastExponent < e → 2 ^ 52 ≤ q / 2 ^ e)
    (hx : x.Representable) (hvalue : x.value = s * 2 ^ e) (hparity : Even s → Even x.significand) :
    Nearest q x := by
  have hunit : (0 : ℚ) < 2 ^ e := by positivity
  have hmultiple : ∀ m : ℕ, |x.value - q| ≤ |m * 2 ^ e - q| ∧
      (|x.value - q| = |m * 2 ^ e - q| → m = s ∨ Even s) := by
    rw [hvalue]
    exact nearest_multiple hunit half even
  -- What is below a multiple that the number is not below is farther away than the multiple.
  have hfarther : ∀ (y : Double) (m : ℕ), y.value < m * 2 ^ e → m * 2 ^ e ≤ q →
      |x.value - q| < |y.value - q| := by
    intro y m hbelow hle
    refine lt_of_le_of_lt (hmultiple m).1 ?_
    rw [abs_of_nonpos (by linarith), abs_of_nonpos (by linarith)]
    linarith
  have hall : ∀ y : Double, y.Representable → (∃ m : ℕ, y.value = m * 2 ^ e) ∨
      |x.value - q| < |y.value - q| := by
    intro y hy
    refine (multiple_or_below hy e).imp_right ?_
    rintro (hnegative | ⟨hnormal, hbelow⟩)
    · exact hfarther y 0 hnegative (by rwa [Nat.cast_zero, zero_mul])
    · refine hfarther y (2 ^ 52) hbelow ?_
      rw [Nat.cast_pow, Nat.cast_ofNat]
      exact (le_div_iff₀ hunit).1 (hfull hnormal)
  refine ⟨hx, fun y hy => ?_, fun y hy hsame hother => ?_⟩
  · obtain ⟨m, hm⟩ | hlt := hall y hy
    · rw [hm]
      exact (hmultiple m).1
    · exact hlt.le
  · obtain ⟨m, hm⟩ | hlt := hall y hy
    · rw [hm] at hsame
      refine hparity (((hmultiple m).2 hsame.symm).resolve_left ?_)
      rintro rfl
      exact hother (hm.trans hvalue.symm)
    · exact absurd hsame hlt.ne'

/-! ## Quotients -/

/-- Comparisons with a power of two are made without division. -/
theorem pow_le_quotient_iff (num : ℕ) {den : ℕ} (hden : 0 < den) (size : ℤ) :
    (if 0 ≤ size then den * Nat.pow 2 size.toNat ≤ num else den ≤ num * Nat.pow 2 (-size).toNat) ↔
      (2 : ℚ) ^ size ≤ num / den := by
  have hden' : (0 : ℚ) < den := Nat.cast_pos.2 hden
  rw [le_div_iff₀ hden']
  split
  · next h =>
    obtain ⟨n, rfl⟩ := Int.eq_ofNat_of_zero_le h
    rw [zpow_natCast, mul_comm]
    exact_mod_cast Iff.rfl
  · next h =>
    obtain ⟨n, rfl⟩ := Int.exists_eq_neg_ofNat (le_of_not_ge h)
    have hpower : (0 : ℚ) < 2 ^ n := by positivity
    rw [zpow_neg, zpow_natCast, inv_mul_le_iff₀ hpower, mul_comm, neg_neg]
    exact_mod_cast Iff.rfl

/-- The leading bit of a quotient. -/
theorem leading_bit {num den : ℕ} (hnum : 0 < num) (hden : 0 < den) {lead : ℤ}
    (hlead : lead = if (2 : ℚ) ^ ((num.log2 : ℤ) - den.log2) ≤ num / den
      then (num.log2 : ℤ) - den.log2 else num.log2 - den.log2 - 1) :
    (2 : ℚ) ^ lead ≤ num / den ∧ (num : ℚ) / den < 2 ^ (lead + 1) := by
  have hden' : (0 : ℚ) < den := Nat.cast_pos.2 hden
  have hnumLower : (2 : ℚ) ^ num.log2 ≤ num := by exact_mod_cast Nat.log2_self_le hnum.ne'
  have hnumUpper : (num : ℚ) < 2 ^ (num.log2 + 1) := by exact_mod_cast Nat.lt_log2_self
  have hdenLower : (2 : ℚ) ^ den.log2 ≤ den := by exact_mod_cast Nat.log2_self_le hden.ne'
  have hdenUpper : (den : ℚ) < 2 ^ (den.log2 + 1) := by exact_mod_cast Nat.lt_log2_self
  have hbelow : (2 : ℚ) ^ ((num.log2 : ℤ) - den.log2 - 1) ≤ num / den := by
    rw [le_div_iff₀ hden']
    calc (2 : ℚ) ^ ((num.log2 : ℤ) - den.log2 - 1) * den
        ≤ 2 ^ ((num.log2 : ℤ) - den.log2 - 1) * 2 ^ (den.log2 + 1) := by gcongr
      _ = 2 ^ num.log2 := by
          rw [← zpow_natCast, ← zpow_natCast, ← zpow_add₀ two_ne_zero]
          push_cast
          ring_nf
      _ ≤ num := hnumLower
  have habove : (num : ℚ) / den < 2 ^ ((num.log2 : ℤ) - den.log2 + 1) := by
    rw [div_lt_iff₀ hden']
    calc (num : ℚ) < 2 ^ (num.log2 + 1) := hnumUpper
      _ = 2 ^ ((num.log2 : ℤ) - den.log2 + 1) * 2 ^ den.log2 := by
          rw [← zpow_natCast, ← zpow_natCast, ← zpow_add₀ two_ne_zero]
          push_cast
          ring_nf
      _ ≤ 2 ^ ((num.log2 : ℤ) - den.log2 + 1) * den := by gcongr
  split at hlead
  · next h =>
    rw [hlead]
    exact ⟨h, habove⟩
  · next h =>
    rw [hlead, sub_add_cancel]
    exact ⟨hbelow, not_le.1 h⟩

/-- A positive number is rounded to a multiple of the unit of its fifty-third bit, or of the least
unit, and the result is brought to fifty-three bits if it has one more. -/
theorem nearest_of_leading_bit {lead e : ℤ} {s : ℕ} (hlower : 2 ^ lead ≤ q)
    (hupper : q < 2 ^ (lead + 1)) (he : e = max (lead - 52) leastExponent)
    (half : |s - q / 2 ^ e| ≤ 1 / 2) (even : |s - q / 2 ^ e| = 1 / 2 → Even s) :
    Nearest q (if s = 2 ^ 53 then ⟨false, 2 ^ 52, e + 1⟩ else ⟨false, s, e⟩) := by
  have hunit : (0 : ℚ) < 2 ^ e := by positivity
  have hleast : leastExponent ≤ e := he ▸ le_max_right _ _
  have hpositive : 0 ≤ q := le_trans (by positivity) hlower
  have hsmall : q / 2 ^ e < 2 ^ 53 := by
    have hpower : (2 : ℚ) ^ (lead + 1) ≤ 2 ^ (53 + e) :=
      zpow_le_zpow_right₀ (by norm_num) (by omega)
    rw [zpow_add₀ two_ne_zero 53] at hpower
    rw [div_lt_iff₀ hunit]
    exact lt_of_lt_of_le hupper hpower
  have hlarge : leastExponent < e → 2 ^ 52 ≤ q / 2 ^ e := by
    intro hlt
    have hpower : (2 : ℚ) ^ lead = 2 ^ 52 * 2 ^ e := by
      rw [← zpow_natCast, ← zpow_add₀ two_ne_zero]
      congr 1
      push_cast
      omega
    rw [le_div_iff₀ hunit, ← hpower]
    exact hlower
  obtain ⟨hless, hmore⟩ := abs_le.1 half
  have hfits : s ≤ 2 ^ 53 := by
    have hcast : (s : ℚ) < 2 ^ 53 + 1 := by linarith
    exact Nat.le_of_lt_succ (by exact_mod_cast hcast)
  have hfull : leastExponent < e → 2 ^ 52 ≤ s := by
    intro hlt
    have hcast : (2 : ℚ) ^ 52 < s + 1 := by linarith [hlarge hlt]
    exact Nat.le_of_lt_succ (by exact_mod_cast hcast)
  split
  · next hlast =>
    refine nearest_of_rounded hpositive half even hlarge
      ⟨by dsimp only; omega, Nat.pow_lt_pow_right (by decide) (by decide), fun _ => le_rfl⟩ ?_
      fun _ => Nat.even_pow.2 ⟨by decide, by decide⟩
    rw [value_of_positive rfl, magnitude, hlast, zpow_add_one₀ two_ne_zero]
    push_cast
    ring
  · next hother =>
    exact nearest_of_rounded hpositive half even hlarge
      ⟨hleast, lt_of_le_of_ne hfits hother, hfull⟩ (value_of_positive rfl) id

/-- Every number has a nearest double, however large it is. -/
theorem exists_nearest (q : ℚ) : ∃ x, Nearest q x := by
  have hpositive : ∀ r : ℚ, 0 < r → ∃ x, Nearest r x := by
    intro r hr
    have hquotient : (r.num.natAbs : ℚ) / r.den = r := by
      rw [Nat.cast_natAbs, abs_of_pos (Rat.num_pos.2 hr), Rat.num_div_den]
    obtain ⟨hlower, hupper⟩ := leading_bit (Int.natAbs_pos.2 (Rat.num_pos.2 hr).ne') r.pos rfl
    obtain ⟨hhalf, heven⟩ := roundAt_half (max (_ - 52) leastExponent) r.num.natAbs r.pos
    have hnearest := nearest_of_leading_bit hlower hupper rfl hhalf heven
    rw [hquotient] at hnearest
    exact ⟨_, hnearest⟩
  rcases lt_trichotomy q 0 with hlt | rfl | hgt
  · obtain ⟨x, hx⟩ := hpositive (-q) (neg_pos.2 hlt)
    exact ⟨x.opposite, neg_neg q ▸ hx.opposite⟩
  · exact ⟨zero false, nearest_zero⟩
  · exact hpositive q hgt

/-- A number with the sign in front. -/
def signed (negative : Bool) (q : ℚ) : ℚ :=
  if negative then -q else q

theorem Nearest.signed {significand : ℕ} {exponent : ℤ}
    (h : Nearest q ⟨false, significand, exponent⟩) (negative : Bool) :
    Nearest (signed negative q) ⟨negative, significand, exponent⟩ := by
  cases negative with
  | false => exact h
  | true => exact h.opposite

/-- A quotient that is not too large becomes the nearest double. -/
theorem nearest_of_ofRatio? {negative : Bool} {num den : ℕ} (hden : 0 < den)
    (h : ofRatio? negative num den = some x) : Nearest (signed negative (num / den)) x := by
  unfold ofRatio? at h
  split at h
  · next hzero =>
    rw [← Option.some.inj h, hzero, Nat.cast_zero, zero_div]
    exact nearest_zero.signed negative
  next hnum =>
  simp only [pow_le_quotient_iff num hden] at h
  simp only [Nat.pow_eq] at h
  obtain ⟨hlower, hupper⟩ := leading_bit (Nat.pos_of_ne_zero hnum) hden rfl
  generalize (if (2 : ℚ) ^ ((num.log2 : ℤ) - den.log2) ≤ num / den
      then (num.log2 : ℤ) - den.log2 else num.log2 - den.log2 - 1) = lead at *
  obtain ⟨hhalf, heven⟩ := roundAt_half (max (lead - 52) leastExponent) num hden
  have hnearest := nearest_of_leading_bit hlower hupper rfl hhalf heven
  split at h
  · next hlast =>
    rw [if_pos hlast] at hnearest
    split at h
    · cases h
    · rw [← Option.some.inj h]
      exact hnearest.signed negative
  · next hother =>
    rw [if_neg hother] at hnearest
    split at h
    · cases h
    · rw [← Option.some.inj h]
      exact hnearest.signed negative

/-! ## Decimal literals -/

/-- Such a number is less than half of the least unit. -/
theorem nearest_zero_of_le (hq : 0 ≤ q) (h : q ≤ 10 ^ (-401 : ℤ)) : Nearest q (zero false) := by
  have hpower : (2 : ℚ) ^ 1074 * 2 ≤ 10 ^ 401 :=
    calc (2 : ℚ) ^ 1074 * 2 = 2 ^ 1075 := (pow_succ _ _).symm
      _ ≤ 2 ^ (3 * 401) := pow_le_pow_right₀ (by norm_num) (by norm_num)
      _ = (2 ^ 3) ^ 401 := pow_mul _ _ _
      _ ≤ 10 ^ 401 := pow_le_pow_left₀ (by norm_num) (by norm_num) _
  have hhalf : q / 2 ^ leastExponent ≤ 1 / 2 := by
    rw [leastExponent, zpow_neg, div_inv_eq_mul, le_div_iff₀ two_pos, mul_assoc]
    rw [zpow_neg] at h
    calc q * (2 ^ (1074 : ℤ) * 2) ≤ (10 ^ (401 : ℤ))⁻¹ * 10 ^ (401 : ℤ) := by
          gcongr
          exact_mod_cast hpower
      _ = 1 := inv_mul_cancel₀ (by positivity)
  have hdistance : |((0 : ℕ) : ℚ) - q / 2 ^ leastExponent| = q / 2 ^ leastExponent := by
    rw [Nat.cast_zero, zero_sub, abs_neg, abs_of_nonneg (by positivity)]
  refine nearest_of_rounded hq (s := 0) (e := leastExponent) ?_ (fun _ => Even.zero)
    (fun hlt => absurd hlt (lt_irrefl _)) representable_zero ?_ id
  · rw [hdistance]
    exact hhalf
  · rw [value_zero, Nat.cast_zero, zero_mul]

/-- A decimal literal that is not refused becomes the nearest double. Those with too few digits for
the least unit become zero. -/
theorem nearest_of_ofDecimal? {negative : Bool} {digits : ℕ} {scale : ℤ}
    (h : ofDecimal? negative digits scale = some x) :
    Nearest (signed negative (digits * 10 ^ scale)) x := by
  unfold ofDecimal? at h
  split at h
  · next hzero =>
    rw [← Option.some.inj h, hzero, Nat.cast_zero, zero_mul]
    exact nearest_zero.signed negative
  next hdigits =>
  dsimp only at h
  split at h
  · cases h
  split at h
  · next hsmall =>
    rw [← Option.some.inj h]
    refine (nearest_zero_of_le (by positivity) ?_).signed negative
    have hlength := (Digits.pow_le_of_length (Nat.pos_of_ne_zero hdigits)).2
    generalize (Nat.toDigits 10 digits).length = size at hlength hsmall
    have hdigits : (digits : ℚ) ≤ 10 ^ size := by exact_mod_cast hlength.le
    calc (digits : ℚ) * 10 ^ scale ≤ 10 ^ size * 10 ^ scale := by gcongr
      _ = 10 ^ (size + scale) := by rw [← zpow_natCast, ← zpow_add₀ (by norm_num)]
      _ ≤ 10 ^ (-401 : ℤ) := zpow_le_zpow_right₀ (by norm_num) (by omega)
  · split at h
    · next hscale =>
      obtain ⟨n, rfl⟩ := Int.eq_ofNat_of_zero_le hscale
      convert nearest_of_ofRatio? Nat.one_pos h using 2
      simp
    · next hscale =>
      obtain ⟨n, rfl⟩ := Int.exists_eq_neg_ofNat (le_of_not_ge hscale)
      convert nearest_of_ofRatio? (Nat.pow_pos (by decide)) h using 2
      simp [div_eq_mul_inv]

end AnchoredDid.Double
