import Mathlib.Data.Nat.Prime.Basic
import Mathlib.Tactic.FieldSimp
import AnchoredDid.Number.Shortest
import AnchoredDid.Proofs.Number.Rounding

/-!
# The shortest decimal of a double

A decimal of a positive double is one to which the double is nearest. The shortest has the fewest
digits, is the closest of those and, of two that are equally close, the even one; there is only one
such decimal (`Decimal.Shortest.unique`), and the search finds it (`Decimal.shortest_spec`). On each
grid of powers of ten the search looks at the two multiples around the double, because the numbers
that round to it are an interval.
-/

namespace AnchoredDid.Decimal

/-! ## Quotients -/

namespace Ratio

variable {r : Ratio} {k : ℤ} {n : ℕ}

/-- The number that a quotient stands for. -/
def value (r : Ratio) : ℚ :=
  r.num / r.den

theorem den_scaled_pos (a : ℕ) (e : ℤ) : 0 < (scaled a e).den := by
  unfold scaled
  split
  · exact Nat.one_pos
  · exact Nat.two_pow_pos _

theorem value_scaled (a : ℕ) (e : ℤ) : (scaled a e).value = a * 2 ^ e := by
  unfold scaled value
  split
  · next h =>
    obtain ⟨n, rfl⟩ := Int.eq_ofNat_of_zero_le h
    simp
  · next h =>
    obtain ⟨n, hn⟩ := Int.exists_eq_neg_ofNat (le_of_not_ge h)
    simp [hn, div_eq_mul_inv]

theorem den_inUnits_pos (h : 0 < r.den) (k : ℤ) : 0 < (r.inUnits k).den := by
  unfold inUnits
  split
  · exact Nat.mul_pos h (Nat.pow_pos (by decide))
  · exact h

theorem value_inUnits (r : Ratio) (k : ℤ) : (r.inUnits k).value = r.value / 10 ^ k := by
  unfold inUnits value
  split
  · next h =>
    obtain ⟨n, rfl⟩ := Int.eq_ofNat_of_zero_le h
    simp [div_div]
  · next h =>
    obtain ⟨n, hn⟩ := Int.exists_eq_neg_ofNat (le_of_not_ge h)
    simp [hn, div_eq_mul_inv, mul_right_comm]

/-- Comparisons with a multiple of a unit are made without division. -/
theorem inUnits_le_iff (h : 0 < r.den) :
    (r.inUnits k).num ≤ n * (r.inUnits k).den ↔ r.value ≤ n * 10 ^ k := by
  have hden : (0 : ℚ) < (r.inUnits k).den := Nat.cast_pos.2 (den_inUnits_pos h k)
  have hunit : (0 : ℚ) < 10 ^ k := by positivity
  rw [← div_le_iff₀ hunit, ← value_inUnits, value, div_le_iff₀ hden]
  exact_mod_cast Iff.rfl

theorem le_inUnits_iff (h : 0 < r.den) :
    n * (r.inUnits k).den ≤ (r.inUnits k).num ↔ n * 10 ^ k ≤ r.value := by
  have hden : (0 : ℚ) < (r.inUnits k).den := Nat.cast_pos.2 (den_inUnits_pos h k)
  have hunit : (0 : ℚ) < 10 ^ k := by positivity
  rw [← le_div_iff₀ hunit, ← value_inUnits, value, le_div_iff₀ hden]
  exact_mod_cast Iff.rfl

/-- The multiple of a unit below the number is found by division. -/
theorem le_div_inUnits_iff (h : 0 < r.den) :
    n ≤ (r.inUnits k).num / (r.inUnits k).den ↔ n * 10 ^ k ≤ r.value := by
  rw [Nat.le_div_iff_mul_le (den_inUnits_pos h k), le_inUnits_iff h]

/-- The magnitude of a number is that of its leading digit. -/
theorem magnitude_bounds (hnum : 0 < r.num) (hden : 0 < r.den) :
    10 ^ (r.magnitude - 1) ≤ r.value ∧ r.value < 10 ^ r.magnitude := by
  have hden' : (0 : ℚ) < r.den := Nat.cast_pos.2 hden
  have hnum' : (0 : ℚ) < r.num := Nat.cast_pos.2 hnum
  unfold magnitude
  split
  · next hle =>
    have hquotient : 0 < r.num / r.den := Nat.div_pos hle hden
    obtain ⟨hlower, hupper⟩ := Digits.pow_le_of_length hquotient
    have hlength := Nat.length_toDigits_pos (b := 10) (n := r.num / r.den)
    generalize (Nat.toDigits 10 (r.num / r.den)).length = size at hlower hupper hlength ⊢
    have hexponent : (size : ℤ) - 1 = (size - 1 : ℕ) := by omega
    rw [hexponent, zpow_natCast, zpow_natCast, value, le_div_iff₀ hden', div_lt_iff₀ hden']
    constructor
    · exact_mod_cast (Nat.le_div_iff_mul_le hden).1 hlower
    · exact_mod_cast (Nat.div_lt_iff_lt_mul hden).1 hupper
  · next hlt =>
    have hquotient : 0 < (r.den - 1) / r.num := Nat.div_pos (by omega) hnum
    obtain ⟨hlower, hupper⟩ := Digits.pow_le_of_length hquotient
    have hlength := Nat.length_toDigits_pos (b := 10) (n := (r.den - 1) / r.num)
    generalize (Nat.toDigits 10 ((r.den - 1) / r.num)).length = size at hlower hupper hlength ⊢
    have hfirst : 10 ^ (size - 1) * r.num < r.den := by
      have hle := (Nat.le_div_iff_mul_le hnum).1 hlower
      omega
    have hsecond : r.den ≤ 10 ^ size * r.num := by
      have hlt := (Nat.div_lt_iff_lt_mul hnum).1 hupper
      omega
    have hsmall : (1 : ℤ) - size - 1 = -(size : ℤ) := by ring
    have hlarge : (1 : ℤ) - size = -((size - 1 : ℕ) : ℤ) := by omega
    rw [hsmall, hlarge, zpow_neg, zpow_neg, zpow_natCast, zpow_natCast, value,
      le_div_iff₀ hden', div_lt_iff₀ hden', inv_mul_le_iff₀ (by positivity),
      lt_inv_mul_iff₀ (by positivity)]
    constructor
    · exact_mod_cast hsecond
    · exact_mod_cast hfirst

end Ratio

variable {x : Double} {k : ℤ} {n : ℕ}

/-! ## The multiples on one grid -/

theorem two_mul_value_above (x : Double) :
    2 * (Ratio.scaled (2 * x.significand + 1) (x.exponent - 1)).value =
      x.magnitude + x.next.magnitude := by
  have hunit : (2 : ℚ) ^ x.exponent = 2 ^ (x.exponent - 1) * 2 := by
    rw [← zpow_add_one₀ two_ne_zero, sub_add_cancel]
  rw [Ratio.value_scaled, Double.magnitude_next, Double.magnitude, hunit]
  push_cast
  ring

theorem two_mul_value_below (h : 0 < x.significand) :
    2 * (if x.significand = Nat.pow 2 52 && x.exponent > Double.leastExponent
      then Ratio.scaled (4 * x.significand - 1) (x.exponent - 2)
      else Ratio.scaled (2 * x.significand - 1) (x.exponent - 1)).value =
        x.prior.magnitude + x.magnitude := by
  have hprior := Double.magnitude_prior_next h
  have hunit : (2 : ℚ) ^ x.exponent = 2 ^ (x.exponent - 1) * 2 := by
    rw [← zpow_add_one₀ two_ne_zero, sub_add_cancel]
  split
  · next hpower =>
    have hboundary : x.significand = 2 ^ 52 ∧ Double.leastExponent < x.exponent := by
      simpa using hpower
    have hhalf : (2 : ℚ) ^ (x.exponent - 1) = 2 ^ (x.exponent - 2) * 2 := by
      rw [← zpow_add_one₀ two_ne_zero]
      ring_nf
    have hexponent : x.prior.exponent = x.exponent - 1 := by simp [Double.prior, hboundary]
    rw [hexponent, hhalf] at hprior
    rw [Ratio.value_scaled, eq_sub_of_add_eq hprior, Double.magnitude, hunit, hhalf]
    push_cast [Nat.cast_sub (show 1 ≤ 4 * x.significand by omega)]
    ring
  · next hpower =>
    have hother : ¬(x.significand = 2 ^ 52 ∧ Double.leastExponent < x.exponent) := by
      simpa using hpower
    have hexponent : x.prior.exponent = x.exponent := by
      rw [Double.prior, if_neg hother]
    rw [hexponent] at hprior
    rw [Ratio.value_scaled, eq_sub_of_add_eq hprior, Double.magnitude, hunit]
    push_cast [Nat.cast_sub (show 1 ≤ 2 * x.significand by omega)]
    ring

/-- A multiple passes the test if it is in the interval that rounds to the double. -/
theorem roundsTo_iff (h : 0 < x.significand) :
    roundsTo x.significand x.exponent n k = true ↔ x.Rounds (n * 10 ^ k) := by
  have hbelow := two_mul_value_below h
  have habove := two_mul_value_above x
  unfold roundsTo
  dsimp only
  have hlow : 0 < (if x.significand = Nat.pow 2 52 && x.exponent > Double.leastExponent
      then Ratio.scaled (4 * x.significand - 1) (x.exponent - 2)
      else Ratio.scaled (2 * x.significand - 1) (x.exponent - 1)).den := by
    split <;> exact Ratio.den_scaled_pos _ _
  have hhigh := Ratio.den_scaled_pos (2 * x.significand + 1) (x.exponent - 1)
  generalize (if x.significand = Nat.pow 2 52 && x.exponent > Double.leastExponent
      then Ratio.scaled (4 * x.significand - 1) (x.exponent - 2)
      else Ratio.scaled (2 * x.significand - 1) (x.exponent - 1)) = below at *
  generalize Ratio.scaled (2 * x.significand + 1) (x.exponent - 1) = above at *
  rw [Bool.and_eq_true, decide_eq_true_eq, decide_eq_true_eq]
  by_cases heven : x.significand % 2 = 0
  · rw [if_pos heven, if_pos heven, Ratio.inUnits_le_iff hlow, Ratio.le_inUnits_iff hhigh]
    constructor
    · rintro ⟨hlower, hupper⟩
      exact ⟨by linarith, by linarith, fun _ => Nat.even_iff.2 heven⟩
    · intro hrounds
      exact ⟨by linarith [hrounds.lower], by linarith [hrounds.upper]⟩
  · rw [if_neg heven, if_neg heven, ← not_le, ← not_le, Ratio.le_inUnits_iff hlow,
      Ratio.inUnits_le_iff hhigh, not_le, not_le]
    constructor
    · rintro ⟨hlower, hupper⟩
      exact ⟨by linarith, by linarith, fun hend => by rcases hend with hend | hend <;> linarith⟩
    · intro hrounds
      have hodd : ¬Even x.significand := mt Nat.even_iff.1 heven
      have hinside := not_or.1 (mt hrounds.even hodd)
      have hlower := lt_of_le_of_ne hrounds.lower hinside.1
      have hupper := lt_of_le_of_ne hrounds.upper hinside.2
      exact ⟨by linarith, by linarith⟩

/-- The nearest multiple of a power of ten that rounds to the double; of two it is the even one. -/
structure NearestMultiple (x : Double) (k : ℤ) (n : ℕ) : Prop where
  rounds : x.Rounds (n * 10 ^ k)
  closest : ∀ m : ℕ, x.Rounds (m * 10 ^ k) →
    |n * 10 ^ k - x.magnitude| ≤ |m * 10 ^ k - x.magnitude|
  even : ∀ m : ℕ, x.Rounds (m * 10 ^ k) →
    |n * 10 ^ k - x.magnitude| = |m * 10 ^ k - x.magnitude| → m = n ∨ Even n

/-- The multiple below the double. -/
def multipleBelow (x : Double) (k : ℤ) : ℕ :=
  ((Ratio.scaled x.significand x.exponent).inUnits k).num /
    ((Ratio.scaled x.significand x.exponent).inUnits k).den

theorem le_multipleBelow_iff : n ≤ multipleBelow x k ↔ n * 10 ^ k ≤ x.magnitude := by
  rw [multipleBelow, Ratio.le_div_inUnits_iff (Ratio.den_scaled_pos _ _), Ratio.value_scaled,
    Double.magnitude]

theorem multipleBelow_lt_iff : multipleBelow x k < n ↔ x.magnitude < n * 10 ^ k := by
  rw [← not_le, le_multipleBelow_iff, not_le]

theorem multipleBelow_le (x : Double) (k : ℤ) : multipleBelow x k * 10 ^ k ≤ x.magnitude :=
  le_multipleBelow_iff.1 le_rfl

theorem lt_multipleBelow_succ (x : Double) (k : ℤ) :
    x.magnitude < (multipleBelow x k + 1 : ℕ) * 10 ^ k :=
  multipleBelow_lt_iff.1 (Nat.lt_succ_self _)

theorem rounds_self (h : 0 < x.significand) : x.Rounds x.magnitude where
  lower := by linarith [Double.prior_magnitude_lt h]
  upper := by linarith [x.magnitude_lt_next]
  even := by
    rintro (hend | hend)
    · linarith [Double.prior_magnitude_lt h]
    · linarith [x.magnitude_lt_next]

/-- If any multiple rounds to the double, the one around it on the same side does. -/
theorem rounds_multiple (h : 0 < x.significand) (hn : x.Rounds (n * 10 ^ k)) :
    (n ≤ multipleBelow x k → x.Rounds (multipleBelow x k * 10 ^ k)) ∧
      (multipleBelow x k < n → x.Rounds ((multipleBelow x k + 1 : ℕ) * 10 ^ k)) := by
  constructor
  · intro hle
    refine hn.convex (rounds_self h) ?_ (multipleBelow_le x k)
    gcongr
  · intro hlt
    refine (rounds_self h).convex hn (lt_multipleBelow_succ x k).le ?_
    gcongr
    exact hlt

theorem candidate?_isSome (h : 0 < x.significand) (hn : x.Rounds (n * 10 ^ k)) :
    (candidate? x.significand x.exponent k).isSome := by
  obtain ⟨hbelow, habove⟩ := rounds_multiple h hn
  unfold candidate?
  dsimp only
  rcases le_or_gt n (multipleBelow x k) with hle | hlt
  · have hfits := (roundsTo_iff h).2 (hbelow hle)
    rw [multipleBelow] at hfits
    rw [hfits]
    split <;> simp_all
  · have hfits := (roundsTo_iff h).2 (habove hlt)
    rw [multipleBelow] at hfits
    rw [hfits]
    split <;> simp_all

/-- The multiples on which the search may settle. -/
theorem candidate?_cases (hc : candidate? x.significand x.exponent k = some n) :
    n = multipleBelow x k ∨ n = multipleBelow x k + 1 := by
  unfold candidate? at hc
  dsimp only at hc
  split at hc
  · cases hc
  · exact .inl (Option.some.inj hc).symm
  · exact .inr (Option.some.inj hc).symm
  · rw [← Option.some.inj hc]
    exact Double.roundDiv_cases _ _

/-- A multiple below the double is no nearer than the last one. -/
theorem nearestMultiple_below (hrounds : x.Rounds (multipleBelow x k * 10 ^ k))
    (hall : ∀ m : ℕ, x.Rounds (m * 10 ^ k) → m ≤ multipleBelow x k) :
    NearestMultiple x k (multipleBelow x k) := by
  have hunit : (0 : ℚ) < 10 ^ k := by positivity
  have hbelow := multipleBelow_le x k
  refine ⟨hrounds, fun m hm => ?_, fun m hm hsame => .inl ?_⟩ <;>
    have hle : (m : ℚ) * 10 ^ k ≤ multipleBelow x k * 10 ^ k := by
      gcongr
      exact hall m hm
  · rw [abs_of_nonpos (by linarith), abs_of_nonpos (by linarith)]
    linarith
  · rw [abs_of_nonpos (by linarith), abs_of_nonpos (by linarith)] at hsame
    exact Nat.cast_injective (mul_right_cancel₀ hunit.ne' (by linarith))

/-- A multiple above the double is no nearer than the first one. -/
theorem nearestMultiple_above (hrounds : x.Rounds ((multipleBelow x k + 1 : ℕ) * 10 ^ k))
    (hall : ∀ m : ℕ, x.Rounds (m * 10 ^ k) → multipleBelow x k < m) :
    NearestMultiple x k (multipleBelow x k + 1) := by
  have hunit : (0 : ℚ) < 10 ^ k := by positivity
  have habove := lt_multipleBelow_succ x k
  refine ⟨hrounds, fun m hm => ?_, fun m hm hsame => .inl ?_⟩ <;>
    have hle : ((multipleBelow x k + 1 : ℕ) : ℚ) * 10 ^ k ≤ m * 10 ^ k := by
      gcongr
      exact hall m hm
  · rw [abs_of_nonneg (by linarith), abs_of_nonneg (by linarith)]
    linarith
  · rw [abs_of_nonneg (by linarith), abs_of_nonneg (by linarith)] at hsame
    exact Nat.cast_injective (mul_right_cancel₀ hunit.ne' (by linarith))

/-- If the multiples on both sides round to the double, the rounded quotient is the nearest. -/
theorem nearestMultiple_between (hbelow : x.Rounds (multipleBelow x k * 10 ^ k))
    (habove : x.Rounds ((multipleBelow x k + 1 : ℕ) * 10 ^ k)) :
    NearestMultiple x k (Double.roundDiv ((Ratio.scaled x.significand x.exponent).inUnits k).num
      ((Ratio.scaled x.significand x.exponent).inUnits k).den) := by
  have hunit : (0 : ℚ) < 10 ^ k := by positivity
  have hden := Ratio.den_inUnits_pos (Ratio.den_scaled_pos x.significand x.exponent) k
  have hvalue := Ratio.value_inUnits (Ratio.scaled x.significand x.exponent) k
  rw [Ratio.value_scaled, Ratio.value] at hvalue
  have hcases := Double.roundDiv_cases ((Ratio.scaled x.significand x.exponent).inUnits k).num
    ((Ratio.scaled x.significand x.exponent).inUnits k).den
  obtain ⟨hhalf, heven⟩ :=
    Double.roundDiv_half ((Ratio.scaled x.significand x.exponent).inUnits k).num hden
  rw [hvalue] at hhalf heven
  rw [← multipleBelow] at hcases
  generalize Double.roundDiv _ _ = n at *
  refine ⟨?_, fun m _ => (Double.nearest_multiple hunit hhalf heven m).1,
    fun m _ => (Double.nearest_multiple hunit hhalf heven m).2⟩
  rcases hcases with rfl | rfl
  · exact hbelow
  · exact habove

/-- What the search settles on is the nearest multiple. -/
theorem candidate?_eq_some (h : 0 < x.significand)
    (hc : candidate? x.significand x.exponent k = some n) : NearestMultiple x k n := by
  unfold candidate? at hc
  dsimp only at hc
  rw [← multipleBelow] at hc
  split at hc
  · cases hc
  · next hbelow habove =>
    rw [← Option.some.inj hc]
    refine nearestMultiple_below ((roundsTo_iff h).1 hbelow) fun m hm => not_lt.1 fun hlt => ?_
    rw [(roundsTo_iff h).2 ((rounds_multiple h hm).2 hlt)] at habove
    cases habove
  · next hbelow habove =>
    rw [← Option.some.inj hc]
    refine nearestMultiple_above ((roundsTo_iff h).1 habove) fun m hm => not_le.1 fun hle => ?_
    rw [(roundsTo_iff h).2 ((rounds_multiple h hm).1 hle)] at hbelow
    cases hbelow
  · next hbelow habove =>
    rw [← Option.some.inj hc]
    exact nearestMultiple_between ((roundsTo_iff h).1 hbelow) ((roundsTo_iff h).1 habove)

/-! ## The search -/

/-- The search stops at the first grid on which a multiple rounds to the double. -/
theorem search_spec {magnitude : ℤ} (left digits last : ℕ) (hfirst : digits ≤ last)
    (hlast : last < digits + left)
    (hsome : (candidate? x.significand x.exponent (magnitude - last)).isSome) :
    ∃ d n, digits ≤ d ∧ search x.significand x.exponent magnitude left digits = (n, magnitude - d) ∧
      candidate? x.significand x.exponent (magnitude - d) = some n ∧
      ∀ d', digits ≤ d' → d' < d → candidate? x.significand x.exponent (magnitude - d') = none := by
  induction left generalizing digits with
  | zero => omega
  | succ left ih =>
      rw [search]
      cases hcandidate : candidate? x.significand x.exponent (magnitude - digits) with
      | some n =>
          exact ⟨digits, n, le_rfl, rfl, hcandidate, fun d' hd' hlt => absurd hlt hd'.not_gt⟩
      | none =>
          have hother : digits ≠ last := by
            rintro rfl
            rw [hcandidate] at hsome
            cases hsome
          obtain ⟨d, n, hd, hsearch, hn, hearlier⟩ :=
            ih (digits + 1) (Nat.lt_of_le_of_ne hfirst hother) (by omega)
          refine ⟨d, n, Nat.le_of_succ_le hd, hsearch, hn, fun d' hd' hlt => ?_⟩
          rcases Nat.eq_or_lt_of_le hd' with rfl | hlater
          · exact hcandidate
          · exact hearlier d' hlater hlt

/-- On the grid of eighteen digits the multiple above is near enough. -/
theorem candidate?_eighteen (hx : x.Representable) (h : 0 < x.significand) {p : ℤ}
    (hp : 10 ^ (p - 1) ≤ x.magnitude) :
    (candidate? x.significand x.exponent (p - 18)).isSome := by
  have hunit : (10 : ℚ) ^ (p - 1) = 10 ^ (p - 18) * 10 ^ 17 := by
    rw [← zpow_natCast, ← zpow_add₀ (by norm_num)]
    ring_nf
  have hbinary : (0 : ℚ) < 2 ^ x.exponent := by positivity
  have hfits : (x.significand : ℚ) < 2 ^ 53 := by exact_mod_cast hx.fits
  have hsmall : x.magnitude < 2 ^ 53 * 2 ^ x.exponent := by
    rw [Double.magnitude]
    gcongr
  have habove := lt_multipleBelow_succ x (p - 18)
  have hbelow := multipleBelow_le x (p - 18)
  have hnext : ((multipleBelow x (p - 18) + 1 : ℕ) : ℚ) * 10 ^ (p - 18) =
      multipleBelow x (p - 18) * 10 ^ (p - 18) + 10 ^ (p - 18) := by
    push_cast
    ring
  have hprior := Double.prior_magnitude_lt h
  have hafter := x.magnitude_next
  rw [hunit] at hp
  refine candidate?_isSome h (n := multipleBelow x (p - 18) + 1) ⟨?_, ?_, ?_⟩
  · linarith
  · linarith
  · rintro (hend | hend) <;> linarith

/-! ## Decimals of a double -/

/-- The decimal `s * 10 ^ (n - k)`, of `k` digits with the point behind the first `n` of them, is
one to which the double is nearest. -/
structure ReadsBack (x : Double) (s : ℕ) (n : ℤ) (k : ℕ) : Prop where
  positive : 0 < k
  lower : 10 ^ (k - 1) ≤ s
  upper : s < 10 ^ k
  nearest : Double.Nearest (s * 10 ^ (n - k)) x

/-- None of these decimals has fewer digits; of those with so few digits none is closer, and of two
that are equally close this is the even one. -/
structure Shortest (x : Double) (s : ℕ) (n : ℤ) (k : ℕ) : Prop where
  readsBack : ReadsBack x s n k
  fewest : ∀ s' n' k', ReadsBack x s' n' k' → k ≤ k'
  closest : ∀ s' n', ReadsBack x s' n' k →
    |s * 10 ^ (n - k) - x.value| ≤ |s' * 10 ^ (n' - k) - x.value|
  even : ∀ s' n', ReadsBack x s' n' k →
    |s * 10 ^ (n - k) - x.value| = |s' * 10 ^ (n' - k) - x.value| →
      (s' = s ∧ n' = n) ∨ Even s

/-- Decimals of as many digits lie between the powers of ten around them. -/
theorem decimal_bounds {s k : ℕ} (hk : 0 < k) (lower : 10 ^ (k - 1) ≤ s) (upper : s < 10 ^ k)
    (n : ℤ) : (10 : ℚ) ^ (n - 1) ≤ s * 10 ^ (n - k) ∧ s * 10 ^ (n - k) < (10 : ℚ) ^ n := by
  have hunit : (0 : ℚ) < 10 ^ (n - k) := by positivity
  have hlower : (10 : ℚ) ^ (n - 1) = (10 ^ (k - 1) : ℕ) * 10 ^ (n - k) := by
    push_cast
    rw [← zpow_natCast, ← zpow_add₀ (by norm_num), Nat.cast_sub hk]
    ring_nf
  have hupper : (10 : ℚ) ^ n = (10 ^ k : ℕ) * 10 ^ (n - k) := by
    push_cast
    rw [← zpow_natCast, ← zpow_add₀ (by norm_num)]
    ring_nf
  rw [hlower, hupper]
  constructor
  · gcongr
  · gcongr

/-- A decimal determines its digits, as many as they are, and where the point is. -/
theorem decimal_injective {s s' k : ℕ} {n n' : ℤ} (hk : 0 < k) (lower : 10 ^ (k - 1) ≤ s)
    (upper : s < 10 ^ k) (lower' : 10 ^ (k - 1) ≤ s') (upper' : s' < 10 ^ k)
    (h : (s : ℚ) * 10 ^ (n - k) = s' * 10 ^ (n' - k)) : s = s' ∧ n = n' := by
  obtain ⟨hlow, hhigh⟩ := decimal_bounds hk lower upper n
  obtain ⟨hlow', hhigh'⟩ := decimal_bounds hk lower' upper' n'
  have hpoint : n = n' := by
    refine le_antisymm (not_lt.1 fun hlt => ?_) (not_lt.1 fun hlt => ?_)
    · have hle : (10 : ℚ) ^ n' ≤ 10 ^ (n - 1) := zpow_le_zpow_right₀ (by norm_num) (by omega)
      linarith
    · have hle : (10 : ℚ) ^ n ≤ 10 ^ (n' - 1) := zpow_le_zpow_right₀ (by norm_num) (by omega)
      linarith
  subst hpoint
  have hunit : (10 : ℚ) ^ (n - k) ≠ 0 := by positivity
  exact ⟨Nat.cast_injective (mul_right_cancel₀ hunit h), rfl⟩

/-- A decimal that rounds to the double has on the grid of as many digits a multiple that does so
too and is at least as close. -/
theorem exists_multiple (h : 0 < x.significand) {p : ℤ} (hp : 10 ^ (p - 1) ≤ x.magnitude) {s k : ℕ}
    {n : ℤ} (hk : 0 < k) (lower : 10 ^ (k - 1) ≤ s) (upper : s < 10 ^ k)
    (hrounds : x.Rounds (s * 10 ^ (n - k))) :
    ∃ m : ℕ, x.Rounds (m * 10 ^ (p - k)) ∧
      |m * 10 ^ (p - k) - x.magnitude| ≤ |s * 10 ^ (n - k) - x.magnitude| ∧
      (|m * 10 ^ (p - k) - x.magnitude| = |s * 10 ^ (n - k) - x.magnitude| →
        (m : ℚ) * 10 ^ (p - k) = s * 10 ^ (n - k)) := by
  rcases le_or_gt p n with hle | hlt
  · obtain ⟨j, hj⟩ := Int.exists_add_of_le hle
    have hsame : ((s * 10 ^ j : ℕ) : ℚ) * 10 ^ (p - k) = s * 10 ^ (n - k) := by
      push_cast
      rw [mul_assoc, ← zpow_natCast, ← zpow_add₀ (by norm_num), hj]
      ring_nf
    refine ⟨s * 10 ^ j, ?_, ?_, fun _ => hsame⟩
    · rwa [hsame]
    · rw [hsame]
  · -- The decimal is below the power of ten that the double is not below.
    obtain ⟨-, hhigh⟩ := decimal_bounds hk lower upper n
    have hbelow : (10 : ℚ) ^ n ≤ 10 ^ (p - 1) := zpow_le_zpow_right₀ (by norm_num) (by omega)
    have hpower : ((10 ^ (k - 1) : ℕ) : ℚ) * 10 ^ (p - k) = 10 ^ (p - 1) := by
      push_cast
      rw [← zpow_natCast, ← zpow_add₀ (by norm_num), Nat.cast_sub hk]
      ring_nf
    have hcloser : |(10 : ℚ) ^ (p - 1) - x.magnitude| < |s * 10 ^ (n - k) - x.magnitude| := by
      rw [abs_of_nonpos (by linarith), abs_of_nonpos (by linarith)]
      linarith
    refine ⟨10 ^ (k - 1), ?_, ?_, fun hsame => ?_⟩ <;> rw [hpower] at *
    · exact hrounds.convex (rounds_self h) (by linarith) hp
    · exact hcloser.le
    · exact absurd hsame hcloser.ne

/-! ## The decimal that is found -/

/-- A multiple of `10 ^ (p - d)` on the first grid that has one, where `p` is the magnitude of the
double. -/
structure Found (x : Double) (p : ℤ) (d n : ℕ) : Prop where
  bounds : 10 ^ (p - 1) ≤ x.magnitude ∧ x.magnitude < 10 ^ p
  positive : 0 < d
  lower : 10 ^ (d - 1) ≤ n
  upper : n ≤ 10 ^ d
  nearest : NearestMultiple x (p - d) n
  first : ∀ d', 0 < d' → d' < d → ∀ m : ℕ, ¬x.Rounds (m * 10 ^ (p - d'))

theorem exists_found (hx : x.Representable) (h : 0 < x.significand) :
    ∃ p d n, Found x p d n ∧ search x.significand x.exponent
      (Ratio.scaled x.significand x.exponent).magnitude 18 1 = (n, p - d) := by
  have hnum : 0 < (Ratio.scaled x.significand x.exponent).num := by
    unfold Ratio.scaled
    split
    · exact Nat.mul_pos h (Nat.two_pow_pos _)
    · exact h
  have hbounds := Ratio.magnitude_bounds hnum (Ratio.den_scaled_pos _ _)
  rw [Ratio.value_scaled, ← Double.magnitude] at hbounds
  generalize (Ratio.scaled x.significand x.exponent).magnitude = p at hbounds ⊢
  obtain ⟨d, n, hd, hsearch, hn, hearlier⟩ := search_spec 18 1 18 (by decide) (by decide)
    (candidate?_eighteen hx h hbounds.1)
  have hlower : 10 ^ (d - 1) ≤ multipleBelow x (p - d) := by
    rw [le_multipleBelow_iff]
    convert hbounds.1 using 1
    push_cast
    rw [← zpow_natCast, ← zpow_add₀ (by norm_num), Nat.cast_sub hd]
    ring_nf
  have hupper : multipleBelow x (p - d) < 10 ^ d := by
    rw [multipleBelow_lt_iff]
    convert hbounds.2 using 1
    push_cast
    rw [← zpow_natCast, ← zpow_add₀ (by norm_num)]
    ring_nf
  have hcases := candidate?_cases hn
  refine ⟨p, d, n, ⟨hbounds, hd, by omega, by omega, candidate?_eq_some h hn, ?_⟩, hsearch⟩
  intro d' hpositive hlt m hrounds
  have hsome := candidate?_isSome h hrounds
  rw [hearlier d' hpositive hlt] at hsome
  cases hsome

namespace Found

variable {p : ℤ} {d : ℕ}

/-- Whatever decimal reads back, it has no fewer digits and is no closer than what is found. -/
theorem readsBack (found : Found x p d n) (hx : x.Representable) (hsign : x.negative = false)
    (h : 0 < x.significand) {s k : ℕ} {m : ℤ} (hs : ReadsBack x s m k) :
    d ≤ k ∧ (k = d → |n * 10 ^ (p - d) - x.magnitude| ≤ |s * 10 ^ (m - k) - x.magnitude| ∧
      (|n * 10 ^ (p - d) - x.magnitude| = |s * 10 ^ (m - k) - x.magnitude| →
        (n : ℚ) * 10 ^ (p - d) = s * 10 ^ (m - k) ∨ Even n)) := by
  obtain ⟨multiple, hrounds, hcloser, hsame⟩ := exists_multiple h found.bounds.1 hs.positive
    hs.lower hs.upper ((Double.nearest_iff hx hsign h).1 hs.nearest)
  refine ⟨not_lt.1 fun hlt => found.first k hs.positive hlt multiple hrounds, ?_⟩
  rintro rfl
  have hclosest := found.nearest.closest multiple hrounds
  refine ⟨hclosest.trans hcloser, fun hequal => ?_⟩
  have hboth := le_antisymm hclosest (hequal ▸ hcloser)
  refine (found.nearest.even multiple hrounds hboth).imp_left ?_
  rintro rfl
  exact hsame hequal

/-- On the first grid that has a multiple, no multiple of ten is one, but ten itself. -/
theorem mod_ten (found : Found x p d n) (hlt : n < 10 ^ d) : n % 10 ≠ 0 := by
  intro hzero
  have hpositive := found.positive
  have hlower := found.lower
  have hn : 0 < n := Nat.lt_of_lt_of_le (Nat.pow_pos (by decide)) hlower
  have hd : 1 < d := by
    by_contra hone
    obtain rfl : d = 1 := by omega
    omega
  refine found.first (d - 1) (by omega) (by omega) (n / 10) ?_
  convert found.nearest.rounds using 1
  have htens : (n : ℚ) = (n / 10 : ℕ) * 10 := by
    exact_mod_cast (Nat.div_mul_cancel (Nat.dvd_of_mod_eq_zero hzero)).symm
  rw [htens, mul_assoc, ← zpow_one_add₀ (by norm_num), Nat.cast_sub hpositive]
  ring_nf

/-- A multiple of as many digits as the grid stands for is the shortest decimal. -/
theorem shortest_of_lt (found : Found x p d n) (hx : x.Representable) (hsign : x.negative = false)
    (h : 0 < x.significand) (hlt : n < 10 ^ d) : Shortest x n p d := by
  have hvalue := Double.value_of_positive hsign
  refine ⟨⟨found.positive, found.lower, hlt,
    (Double.nearest_iff hx hsign h).2 found.nearest.rounds⟩,
    fun s m k hs => (found.readsBack hx hsign h hs).1, fun s m hs => ?_, fun s m hs hsame => ?_⟩
  · rw [hvalue]
    exact ((found.readsBack hx hsign h hs).2 rfl).1
  · rw [hvalue] at hsame
    refine (((found.readsBack hx hsign h hs).2 rfl).2 hsame).imp_left fun hequal => ?_
    obtain ⟨rfl, rfl⟩ := decimal_injective found.positive found.lower hlt hs.lower hs.upper hequal
    exact ⟨rfl, rfl⟩

/-- The grid above a power of ten has it as a multiple, so only the first grid may end with one. -/
theorem eq_one (found : Found x p d n) (heq : n = 10 ^ d) : d = 1 := by
  by_contra hother
  have hpositive := found.positive
  refine found.first 1 Nat.one_pos (by omega) 10 ?_
  convert found.nearest.rounds using 1
  rw [heq]
  push_cast
  rw [← zpow_natCast, ← zpow_add₀ (by norm_num), ← zpow_one_add₀ (by norm_num)]
  ring_nf

end Found

/-- There is a factor of five on one side only. -/
theorem mul_ten_pow_ne {s i t : ℕ} (hi : i ≠ 0) : 2 * s * 10 ^ i ≠ 19 * 2 ^ t := by
  intro h
  have hfive : 5 ∣ 19 * 2 ^ t := by
    rw [← h]
    exact Dvd.dvd.mul_left (dvd_pow (by decide) hi) _
  rcases (Nat.Prime.dvd_mul Nat.prime_five).1 hfive with hdvd | hdvd
  · exact absurd hdvd (by decide)
  · exact absurd (Nat.Prime.dvd_of_dvd_pow Nat.prime_five hdvd) (by decide)

/-- No double lies in the middle between nine and ten times a power of ten and is so small that both
round to it: it would have to be a few units of the least exponent, which nineteen times a negative
power of ten never is. -/
theorem not_midpoint (hx : x.Representable) {j : ℤ} (hmiddle : 2 * x.magnitude = 19 * 10 ^ j)
    (hrounds : x.Rounds (10 * 10 ^ j)) : False := by
  have hbinary : (0 : ℚ) < 2 ^ x.exponent := by positivity
  have hupper := hrounds.upper
  rw [Double.magnitude_next] at hupper
  have hunit : (10 : ℚ) ^ j ≤ 2 ^ x.exponent := by linarith
  have hfew : x.significand < 10 := by
    have hmagnitude : 2 * (x.significand : ℚ) * 2 ^ x.exponent ≤ 19 * 2 ^ x.exponent := by
      rw [Double.magnitude] at hmiddle
      linarith
    have hcast := le_of_mul_le_mul_right hmagnitude hbinary
    have hnat : 2 * x.significand ≤ 19 := by exact_mod_cast hcast
    omega
  have hleast : x.exponent = -1074 := by
    have hfull := hx.full
    have hexponent := hx.least
    rw [Double.leastExponent] at hfull hexponent
    by_contra hother
    have hbits := hfull (by omega)
    omega
  have hnegative : j < 0 := by
    by_contra hnonneg
    have hone : (1 : ℚ) ≤ 10 ^ j := one_le_zpow₀ (by norm_num) (not_lt.1 hnonneg)
    have hsmall : (2 : ℚ) ^ x.exponent < 1 := zpow_lt_one_of_neg₀ (by norm_num) (by omega)
    linarith
  obtain ⟨i, rfl⟩ := Int.exists_eq_neg_ofNat hnegative.le
  obtain ⟨t, ht⟩ : ∃ t : ℕ, x.exponent = -t := ⟨1074, hleast⟩
  have hwhole : 2 * x.significand * 10 ^ i = 19 * 2 ^ t := by
    rw [Double.magnitude, ht, zpow_neg, zpow_neg, zpow_natCast, zpow_natCast] at hmiddle
    field_simp at hmiddle
    rw [mul_comm 19 (2 ^ t)]
    exact_mod_cast hmiddle
  exact mul_ten_pow_ne (by omega) hwhole

/-- No other multiple is as close as a power of ten at the end of the first grid: it would be on the
other side of the double, so it would be the ninth, as a multiple between them would be closer. -/
theorem Found.eq_ten {p : ℤ} (found : Found x p 1 10) (hx : x.Representable) {m : ℕ}
    (hm : x.Rounds (m * 10 ^ (p - (1 : ℕ))))
    (hsame : |((10 : ℕ) : ℚ) * 10 ^ (p - (1 : ℕ)) - x.magnitude| =
      |m * 10 ^ (p - (1 : ℕ)) - x.magnitude|) : m = 10 := by
  by_contra hother
  have hrounds := found.nearest.rounds
  have hunit : (0 : ℚ) < 10 ^ (p - (1 : ℕ)) := by positivity
  have hmidpoint := (abs_eq_abs.1 hsame).resolve_left fun hsides => by
    have hcast := mul_right_cancel₀ hunit.ne' (sub_left_injective hsides)
    exact hother (Nat.cast_injective hcast.symm)
  have hbelow : x.magnitude < (10 : ℕ) * 10 ^ (p - (1 : ℕ)) := by
    convert found.bounds.2 using 1
    push_cast
    rw [← zpow_one_add₀ (by norm_num)]
    ring_nf
  have hless : m < 10 := by
    have hcast : (m : ℚ) * 10 ^ (p - (1 : ℕ)) < (10 : ℕ) * 10 ^ (p - (1 : ℕ)) := by linarith
    exact_mod_cast lt_of_mul_lt_mul_right hcast hunit.le
  rcases Nat.lt_or_ge m 9 with hlt | hge
  · have hbefore : (m : ℚ) * 10 ^ (p - (1 : ℕ)) < (9 : ℕ) * 10 ^ (p - (1 : ℕ)) := by gcongr
    have hafter : ((9 : ℕ) : ℚ) * 10 ^ (p - (1 : ℕ)) < (10 : ℕ) * 10 ^ (p - (1 : ℕ)) := by
      gcongr
      decide
    have hnearer := Double.abs_sub_lt_of_between hbefore hafter hsame.symm
    rw [← hsame] at hnearer
    exact absurd (found.nearest.closest 9 (hm.convex hrounds hbefore.le hafter.le)) hnearer.not_ge
  · obtain rfl : m = 9 := by omega
    refine not_midpoint hx (j := p - (1 : ℕ)) ?_ hrounds
    push_cast at hmidpoint ⊢
    linarith

/-- If the first grid ends with the power of ten, that power is the shortest decimal. -/
theorem Found.shortest_of_eq {p : ℤ} {d : ℕ} (found : Found x p d n) (hx : x.Representable)
    (hsign : x.negative = false) (h : 0 < x.significand) (heq : n = 10 ^ d) :
    Shortest x 1 (p + 1) 1 := by
  obtain rfl := found.eq_one heq
  obtain rfl : n = 10 := heq
  have hvalue := Double.value_of_positive hsign
  have hten : ((1 : ℕ) : ℚ) * 10 ^ (p + 1 - (1 : ℕ)) = (10 : ℕ) * 10 ^ (p - (1 : ℕ)) := by
    push_cast
    rw [← zpow_one_add₀ (by norm_num)]
    ring_nf
  refine ⟨⟨Nat.one_pos, le_rfl, by decide, ?_⟩, fun s m k hs => hs.positive, fun s m hs => ?_,
    fun s m hs hsame => .inl ?_⟩
  · rw [hten]
    exact (Double.nearest_iff hx hsign h).2 found.nearest.rounds
  · rw [hvalue, hten]
    exact ((found.readsBack hx hsign h hs).2 rfl).1
  · rw [hvalue, hten] at hsame
    obtain ⟨multiple, hmultiple, hcloser, hequal⟩ := exists_multiple h found.bounds.1 hs.positive
      hs.lower hs.upper ((Double.nearest_iff hx hsign h).1 hs.nearest)
    have hboth := le_antisymm (found.nearest.closest multiple hmultiple) (hsame ▸ hcloser)
    have hdecimal := hequal (hboth.symm.trans hsame)
    rw [found.eq_ten hx hmultiple hboth, ← hten] at hdecimal
    obtain ⟨rfl, rfl⟩ := decimal_injective Nat.one_pos le_rfl (by decide) hs.lower hs.upper hdecimal
    exact ⟨rfl, rfl⟩

/-! ## The shortest decimal -/

theorem trimmed_toDigits {s : ℕ} (h : s % 10 ≠ 0) :
    trimmed (Nat.toDigits 10 s) = Nat.toDigits 10 s := by
  obtain ⟨leading, hdigits⟩ : ∃ leading, Nat.toDigits 10 s = leading ++ [(s % 10).digitChar] := by
    rw [Nat.toDigits_eq_if (by decide)]
    split
    · next hsmall => exact ⟨[], by rw [Nat.mod_eq_of_lt hsmall]; rfl⟩
    · exact ⟨_, rfl⟩
  have hnonzero : ∀ d < 10, d ≠ 0 → d.digitChar ≠ '0' := by decide
  have hlast := hnonzero (s % 10) (Nat.mod_lt _ (by decide)) h
  rw [hdigits, trimmed, List.reverse_append, List.reverse_singleton, List.singleton_append,
    List.dropWhile_cons_of_neg (by simpa using hlast), List.reverse_cons, List.reverse_reverse]

/-- The digits and the point that are computed are those of the shortest decimal. -/
theorem shortest_spec (hx : x.Representable) (hsign : x.negative = false) (h : 0 < x.significand) :
    ∃ s n k, Shortest x s n k ∧
      shortest x.significand x.exponent = ⟨Nat.toDigits 10 s, n⟩ := by
  obtain ⟨p, d, n, found, hsearch⟩ := exists_found hx h
  have hshortest : shortest x.significand x.exponent =
      ⟨trimmed (Nat.toDigits 10 n), (Nat.toDigits 10 n).length + (p - d)⟩ := by
    rw [shortest, hsearch]
  rcases Nat.lt_or_eq_of_le found.upper with hlt | heq
  · refine ⟨n, p, d, found.shortest_of_lt hx hsign h hlt, ?_⟩
    rw [hshortest, trimmed_toDigits (found.mod_ten hlt),
      Digits.length_eq found.positive found.lower hlt, add_sub_cancel]
  · refine ⟨1, p + 1, 1, found.shortest_of_eq hx hsign h heq, ?_⟩
    obtain rfl := found.eq_one heq
    obtain rfl : n = 10 := heq
    have hlength : (Nat.toDigits 10 10).length = 2 := by decide
    have hpoint : ((2 : ℕ) : ℤ) + (p - (1 : ℕ)) = p + 1 := by
      push_cast
      ring
    rw [hshortest, hlength, hpoint]
    rfl

/-! ## One shortest decimal -/

namespace Shortest

variable {s s' k k' : ℕ} {n n' : ℤ}

/-- Between two even decimals of as many digits there is a third, which would be closer. -/
theorem not_lt (hs : Shortest x s n k) (hs' : Shortest x s' n' k) (hsign : x.negative = false)
    (h : 0 < x.significand) : ¬(s : ℚ) * 10 ^ (n - k) < s' * 10 ^ (n' - k) := by
  intro hlt
  have hx := hs.readsBack.nearest.representable
  obtain ⟨hk, hlower, hupper, hnearest⟩ := hs.readsBack
  obtain ⟨-, hlower', hupper', hnearest'⟩ := hs'.readsBack
  have hsame := le_antisymm (hs.closest s' n' hs'.readsBack) (hs'.closest s n hs.readsBack)
  have hother : ¬(s' = s ∧ n' = n) := by
    rintro ⟨rfl, rfl⟩
    exact lt_irrefl _ hlt
  have heven := (hs.even s' n' hs'.readsBack hsame).resolve_left hother
  have heven' := (hs'.even s n hs.readsBack hsame.symm).resolve_left fun hequal =>
    hother ⟨hequal.1.symm, hequal.2.symm⟩
  have hroom : s + 1 < 10 ^ k := by
    refine Nat.lt_of_le_of_ne hupper fun hfull => ?_
    have hpower : Even (10 ^ k) := Nat.even_pow.2 ⟨by decide, hk.ne'⟩
    exact Nat.not_even_iff_odd.2 heven.add_one (hfull ▸ hpower)
  have hunit : (0 : ℚ) < 10 ^ (n - k) := by positivity
  have hafter : (s : ℚ) * 10 ^ (n - k) < (s + 1 : ℕ) * 10 ^ (n - k) := by
    gcongr
    exact Nat.lt_succ_self s
  have hbefore : ((s + 1 : ℕ) : ℚ) * 10 ^ (n - k) < s' * 10 ^ (n' - k) := by
    obtain ⟨hlow, -⟩ := decimal_bounds hk hlower hupper n
    obtain ⟨-, hhigh⟩ := decimal_bounds hk (Nat.le_succ_of_le hlower) hroom n
    obtain ⟨hlow', hhigh'⟩ := decimal_bounds hk hlower' hupper' n'
    rcases lt_trichotomy n n' with hless | rfl | hmore
    · have hpower : (10 : ℚ) ^ n ≤ 10 ^ (n' - 1) := zpow_le_zpow_right₀ (by norm_num) (by omega)
      linarith
    · have hcast : s < s' := by exact_mod_cast lt_of_mul_lt_mul_right hlt hunit.le
      have hstep : s + 1 < s' := by
        obtain ⟨a, rfl⟩ := heven
        obtain ⟨b, rfl⟩ := heven'
        omega
      gcongr
    · have hpower : (10 : ℚ) ^ n' ≤ 10 ^ (n - 1) := zpow_le_zpow_right₀ (by norm_num) (by omega)
      linarith
  have hbetween : ReadsBack x (s + 1) n k := by
    refine ⟨hk, Nat.le_succ_of_le hlower, hroom, (Double.nearest_iff hx hsign h).2 ?_⟩
    exact ((Double.nearest_iff hx hsign h).1 hnearest).convex
      ((Double.nearest_iff hx hsign h).1 hnearest') hafter.le hbefore.le
  exact absurd (hs.closest _ _ hbetween)
    (Double.abs_sub_lt_of_between hafter hbefore hsame).not_ge

/-- The shortest decimal is unique. -/
theorem unique (hs : Shortest x s n k) (hs' : Shortest x s' n' k') (hsign : x.negative = false)
    (h : 0 < x.significand) : s = s' ∧ n = n' ∧ k = k' := by
  obtain rfl : k = k' := le_antisymm (hs.fewest _ _ _ hs'.readsBack) (hs'.fewest _ _ _ hs.readsBack)
  have hvalue := le_antisymm (le_of_not_gt (hs'.not_lt hs hsign h))
    (le_of_not_gt (hs.not_lt hs' hsign h))
  obtain ⟨hk, hlower, hupper, -⟩ := hs.readsBack
  obtain ⟨-, hlower', hupper', -⟩ := hs'.readsBack
  obtain ⟨rfl, rfl⟩ := decimal_injective hk hlower hupper hlower' hupper' hvalue
  exact ⟨rfl, rfl, rfl⟩

end Shortest

end AnchoredDid.Decimal
