import Mathlib.Algebra.Order.Field.Power
import Mathlib.Algebra.Order.Field.Rat
import Mathlib.Tactic.Linarith
import Mathlib.Tactic.Positivity
import Mathlib.Tactic.Ring
import AnchoredDid.Number.Double

/-!
# The double nearest to a number

A double stands for a rational number, and each magnitude has one representation. Between a
magnitude and the next there is no other (`Double.next_le_of_lt`). So the numbers to which a double
is nearest fill the interval between the midpoints to its neighbours, whose ends belong to it if the
significand is even (`Double.nearest_iff`), and no number has two nearest doubles
(`Double.Nearest.value_eq`).
-/

namespace AnchoredDid.Double

variable {x y : Double} {q : ℚ}

/-- The number without its sign. -/
def magnitude (x : Double) : ℚ :=
  x.significand * 2 ^ x.exponent

/-- The number that a double stands for. -/
def value (x : Double) : ℚ :=
  if x.negative then -x.magnitude else x.magnitude

/-- All fifty-three bits are used unless the exponent is the least. No exponent is the greatest
here, so a number far beyond the largest double is nearest to none of them. -/
structure Representable (x : Double) : Prop where
  least : leastExponent ≤ x.exponent
  fits : x.significand < 2 ^ 53
  full : leastExponent < x.exponent → 2 ^ 52 ≤ x.significand

/-- No double is nearer to the number, and of two that are equally near this is the even one. -/
structure Nearest (q : ℚ) (x : Double) : Prop where
  representable : x.Representable
  closest : ∀ y : Double, y.Representable → |x.value - q| ≤ |y.value - q|
  even : ∀ y : Double, y.Representable → |y.value - q| = |x.value - q| → y.value ≠ x.value →
    Even x.significand

theorem magnitude_nonneg (x : Double) : 0 ≤ x.magnitude := by
  unfold magnitude
  positivity

theorem magnitude_pos (h : 0 < x.significand) : 0 < x.magnitude := by
  unfold magnitude
  positivity

theorem value_of_positive (h : x.negative = false) : x.value = x.magnitude := by
  simp [value, h]

theorem value_le_magnitude (x : Double) : x.value ≤ x.magnitude := by
  have hnonneg := x.magnitude_nonneg
  unfold value
  split <;> linarith

theorem abs_value (x : Double) : |x.value| = x.magnitude := by
  unfold value
  split
  · rw [abs_neg, abs_of_nonneg x.magnitude_nonneg]
  · exact abs_of_nonneg x.magnitude_nonneg

/-! ## Magnitudes in order -/

/-- A magnitude in units of a smaller exponent. -/
theorem magnitude_eq_mul {e : ℤ} {k : ℕ} (h : x.exponent = e + k) :
    x.magnitude = (x.significand * 2 ^ k : ℕ) * 2 ^ e := by
  rw [magnitude, h, zpow_add₀ two_ne_zero, zpow_natCast]
  push_cast
  ring

theorem magnitude_lt_iff {k : ℕ} (h : y.exponent = x.exponent + k) :
    x.magnitude < y.magnitude ↔ x.significand < y.significand * 2 ^ k := by
  have hunit : (0 : ℚ) < 2 ^ x.exponent := by positivity
  rw [magnitude_eq_mul h, magnitude, mul_lt_mul_iff_of_pos_right hunit, Nat.cast_lt]

/-- A full significand weighs more than any at a smaller exponent. -/
theorem magnitude_lt_of_exponent_lt (hx : x.Representable) (hy : y.Representable)
    (h : x.exponent < y.exponent) : x.magnitude < y.magnitude := by
  obtain ⟨k, hk⟩ := Int.exists_add_of_le (Int.add_one_le_of_lt h)
  have hexponent : y.exponent = x.exponent + (k + 1 : ℕ) := by
    push_cast
    omega
  have hfull := hy.full (lt_of_le_of_lt hx.least h)
  have hfits := hx.fits
  have hpower : 1 ≤ 2 ^ k := Nat.one_le_two_pow
  refine (magnitude_lt_iff hexponent).2 ?_
  calc x.significand < 2 ^ 52 * (1 * 2) := hfits
    _ ≤ y.significand * (2 ^ k * 2) := by gcongr
    _ = y.significand * 2 ^ (k + 1) := by rw [pow_succ]

/-- Each magnitude has one representation. -/
theorem Representable.eq_of_magnitude_eq (hx : x.Representable) (hy : y.Representable)
    (h : x.magnitude = y.magnitude) : x.significand = y.significand ∧ x.exponent = y.exponent := by
  rcases lt_trichotomy x.exponent y.exponent with hlt | heq | hlt
  · exact absurd h (magnitude_lt_of_exponent_lt hx hy hlt).ne
  · have hunit : (2 : ℚ) ^ y.exponent ≠ 0 := by positivity
    rw [magnitude, magnitude, heq] at h
    exact ⟨Nat.cast_injective (mul_right_cancel₀ hunit h), heq⟩
  · exact absurd h (magnitude_lt_of_exponent_lt hy hx hlt).ne'

/-- Of numbers other than zero each has one representation, with the sign. -/
theorem Representable.eq_of_value_eq (hx : x.Representable) (hy : y.Representable)
    (h : x.value = y.value) : x = y ∨ x.significand = 0 ∧ y.significand = 0 := by
  have hmagnitude : x.magnitude = y.magnitude := by
    rw [← abs_value, h, abs_value]
  obtain ⟨hsignificand, hexponent⟩ := hx.eq_of_magnitude_eq hy hmagnitude
  rcases Nat.eq_zero_or_pos x.significand with hzero | hpositive
  · exact .inr ⟨hzero, hsignificand ▸ hzero⟩
  · left
    have hsign : x.negative = y.negative := by
      have hx := magnitude_pos hpositive
      unfold value at h
      rw [← hmagnitude] at h
      cases hxs : x.negative <;> cases hys : y.negative <;> simp [hxs, hys] at h ⊢ <;> linarith
    obtain ⟨sign, significand, exponent⟩ := x
    obtain ⟨sign', significand', exponent'⟩ := y
    dsimp only at hsign hsignificand hexponent
    rw [hsign, hsignificand, hexponent]

/-- The double with the next magnitude. -/
def next (x : Double) : Double :=
  if x.significand + 1 = 2 ^ 53 then ⟨x.negative, 2 ^ 52, x.exponent + 1⟩
  else { x with significand := x.significand + 1 }

theorem magnitude_next (x : Double) : x.next.magnitude = x.magnitude + 2 ^ x.exponent := by
  unfold next
  split
  · next h =>
    have hcast : (x.significand : ℚ) + 1 = 2 ^ 53 := by exact_mod_cast h
    have hfull : (x.significand : ℚ) = 2 ^ 53 - 1 := by linarith
    rw [magnitude, magnitude, zpow_add_one₀ two_ne_zero, hfull]
    push_cast
    ring
  · rw [magnitude, magnitude]
    push_cast
    ring

theorem Representable.next (h : x.Representable) : x.next.Representable := by
  have hleast := h.least
  have hfits := h.fits
  unfold Double.next
  split
  · exact ⟨by dsimp only; omega, by dsimp only; omega, fun _ => le_rfl⟩
  · exact ⟨hleast, by dsimp only; omega, fun hlt => Nat.le_succ_of_le (h.full hlt)⟩

/-- Nothing lies between a magnitude and the next. -/
theorem next_le_of_lt (hx : x.Representable) (hy : y.Representable)
    (h : x.magnitude < y.magnitude) : x.next.magnitude ≤ y.magnitude := by
  rcases lt_or_ge y.exponent x.exponent with hlt | hle
  · exact absurd h (magnitude_lt_of_exponent_lt hy hx hlt).not_gt
  · obtain ⟨k, hk⟩ := Int.exists_add_of_le hle
    have hsignificand := (magnitude_lt_iff hk).1 h
    have hcast : (x.significand : ℚ) + 1 ≤ (y.significand * 2 ^ k : ℕ) := by
      exact_mod_cast hsignificand
    calc x.next.magnitude = (x.significand + 1) * 2 ^ x.exponent := by
          rw [magnitude_next, magnitude]
          ring
      _ ≤ (y.significand * 2 ^ k : ℕ) * 2 ^ x.exponent := by gcongr
      _ = y.magnitude := (magnitude_eq_mul hk).symm

/-- The double with the magnitude before, of any but zero. -/
def prior (x : Double) : Double :=
  if x.significand = 2 ^ 52 ∧ leastExponent < x.exponent then
    ⟨x.negative, 2 ^ 53 - 1, x.exponent - 1⟩
  else { x with significand := x.significand - 1 }

theorem Representable.prior (h : x.Representable) : x.prior.Representable := by
  have hleast := h.least
  have hfits := h.fits
  unfold Double.prior
  split
  · next hpower => exact ⟨by dsimp only; omega, by dsimp only; omega, fun _ => by dsimp only; omega⟩
  · next hpower =>
    refine ⟨hleast, by dsimp only; omega, fun hlt => ?_⟩
    have hfull := h.full hlt
    have hother : x.significand ≠ 2 ^ 52 := fun heq => hpower ⟨heq, hlt⟩
    dsimp only
    omega

/-- What follows the magnitude before is the magnitude itself. -/
theorem magnitude_prior_next (h : 0 < x.significand) :
    x.prior.magnitude + 2 ^ x.prior.exponent = x.magnitude := by
  unfold prior
  split
  · next hpower =>
    have hsignificand : (x.significand : ℚ) = 2 ^ 52 := by exact_mod_cast hpower.1
    have hunit : (2 : ℚ) ^ x.exponent = 2 ^ (x.exponent - 1) * 2 := by
      rw [← zpow_add_one₀ two_ne_zero, sub_add_cancel]
    rw [magnitude, magnitude, hsignificand, hunit]
    push_cast
    ring
  · rw [magnitude, magnitude]
    push_cast [Nat.cast_sub (Nat.one_le_of_lt h)]
    ring

/-- Nothing lies between a magnitude and the one before. -/
theorem le_prior_of_lt (hx : x.Representable) (hy : y.Representable) (hpositive : 0 < x.significand)
    (h : y.magnitude < x.magnitude) : y.magnitude ≤ x.prior.magnitude := by
  by_contra hle
  have hnext := next_le_of_lt hx.prior hy (not_le.1 hle)
  rw [magnitude_next, magnitude_prior_next hpositive] at hnext
  exact absurd h hnext.not_gt

/-! ## The numbers that round to a double -/

/-- The interval between the midpoints to the neighbours of a positive double, with its ends if the
significand is even. -/
structure Rounds (x : Double) (q : ℚ) : Prop where
  lower : x.prior.magnitude + x.magnitude ≤ 2 * q
  upper : 2 * q ≤ x.magnitude + x.next.magnitude
  even : x.prior.magnitude + x.magnitude = 2 * q ∨ 2 * q = x.magnitude + x.next.magnitude →
    Even x.significand

/-- What lies between numbers that round to a double rounds to it. -/
theorem Rounds.convex {a b c : ℚ} (ha : x.Rounds a) (hb : x.Rounds b) (hac : a ≤ c) (hcb : c ≤ b) :
    x.Rounds c where
  lower := by linarith [ha.lower]
  upper := by linarith [hb.upper]
  even := by
    rintro (h | h)
    · exact ha.even (.inl (by linarith [ha.lower]))
    · exact hb.even (.inr (by linarith [hb.upper]))

/-- A number below the midpoint of two others is nearer to the lower one, and nearer than to
anything beyond the upper one. -/
theorem abs_sub_lt_of_lt_midpoint {a b c : ℚ} (hab : a < b) (hbc : b ≤ c) (h : 2 * q < a + b) :
    |a - q| < |c - q| := by
  refine lt_of_lt_of_le (abs_lt.2 ⟨?_, ?_⟩) (le_abs_self (c - q)) <;> linarith

theorem abs_sub_le_of_le_midpoint {a b c : ℚ} (hab : a < b) (hbc : b ≤ c) (h : 2 * q ≤ a + b) :
    |a - q| ≤ |c - q| := by
  refine le_trans (abs_le.2 ⟨?_, ?_⟩) (le_abs_self (c - q)) <;> linarith

theorem abs_sub_lt_of_midpoint_lt {a b c : ℚ} (hab : a < b) (hca : c ≤ a) (h : a + b < 2 * q) :
    |b - q| < |c - q| := by
  refine lt_of_lt_of_le (abs_lt.2 ⟨?_, ?_⟩) (neg_le_abs (c - q)) <;> linarith

theorem abs_sub_le_of_midpoint_le {a b c : ℚ} (hab : a < b) (hca : c ≤ a) (h : a + b ≤ 2 * q) :
    |b - q| ≤ |c - q| := by
  refine le_trans (abs_le.2 ⟨?_, ?_⟩) (neg_le_abs (c - q)) <;> linarith

/-- What lies between two numbers that are equally near is nearer. -/
theorem abs_sub_lt_of_between {a b c : ℚ} (hac : a < c) (hcb : c < b) (h : |a - q| = |b - q|) :
    |c - q| < |a - q| := by
  have hmidpoint : a - q = -(b - q) := (abs_eq_abs.1 h).resolve_left fun hequal => by linarith
  have hdistance : |a - q| = b - q := by
    rw [h, abs_of_pos]
    linarith
  rw [hdistance]
  exact abs_lt.2 ⟨by linarith, by linarith⟩

theorem magnitude_lt_next (x : Double) : x.magnitude < x.next.magnitude := by
  rw [magnitude_next]
  have hunit : (0 : ℚ) < 2 ^ x.exponent := by positivity
  linarith

theorem prior_magnitude_lt (h : 0 < x.significand) : x.prior.magnitude < x.magnitude := by
  rw [← magnitude_prior_next h]
  have hunit : (0 : ℚ) < 2 ^ x.prior.exponent := by positivity
  linarith

theorem value_next (h : x.negative = false) : x.next.value = x.next.magnitude := by
  refine value_of_positive ?_
  unfold next
  split <;> exact h

theorem value_prior (h : x.negative = false) : x.prior.value = x.prior.magnitude := by
  refine value_of_positive ?_
  unfold prior
  split <;> exact h

/-- No double lies beyond a positive one but before the next, whatever its sign. -/
theorem next_le_value (hx : x.Representable) (hy : y.Representable) (h : x.magnitude < y.value) :
    x.next.magnitude ≤ y.value := by
  have hmagnitude := next_le_of_lt hx hy (lt_of_lt_of_le h y.value_le_magnitude)
  unfold value at h ⊢
  split
  · next hnegative =>
    rw [if_pos hnegative] at h
    linarith [x.magnitude_nonneg, y.magnitude_nonneg]
  · exact hmagnitude

theorem value_le_prior (hx : x.Representable) (hy : y.Representable) (hpositive : 0 < x.significand)
    (h : y.value < x.magnitude) : y.value ≤ x.prior.magnitude := by
  unfold value at h ⊢
  split
  · linarith [x.prior.magnitude_nonneg, y.magnitude_nonneg]
  · next hnegative =>
    rw [if_neg hnegative] at h
    exact le_prior_of_lt hx hy hpositive h

/-- A positive double is nearest to the numbers of its interval and to no others. -/
theorem nearest_iff (hx : x.Representable) (hsign : x.negative = false)
    (hpositive : 0 < x.significand) : Nearest q x ↔ x.Rounds q := by
  have hvalue := value_of_positive hsign
  have hprior := prior_magnitude_lt hpositive
  have hnext := x.magnitude_lt_next
  constructor
  · intro h
    have hbefore := h.closest x.prior hx.prior
    have hafter := h.closest x.next hx.next
    rw [hvalue, value_prior hsign] at hbefore
    rw [hvalue, value_next hsign] at hafter
    refine ⟨not_lt.1 fun hlt => ?_, not_lt.1 fun hlt => ?_, ?_⟩
    · exact absurd hbefore (abs_sub_lt_of_lt_midpoint hprior le_rfl hlt).not_ge
    · exact absurd hafter (abs_sub_lt_of_midpoint_lt hnext le_rfl hlt).not_ge
    · rintro (hend | hend)
      · refine h.even x.prior hx.prior ?_ ?_ <;> rw [hvalue, value_prior hsign]
        · exact le_antisymm (abs_sub_le_of_le_midpoint hprior le_rfl hend.ge) hbefore
        · exact hprior.ne
      · refine h.even x.next hx.next ?_ ?_ <;> rw [hvalue, value_next hsign]
        · exact le_antisymm (abs_sub_le_of_midpoint_le hnext le_rfl hend.ge) hafter
        · exact hnext.ne'
  · intro h
    refine ⟨hx, fun y hy => ?_, fun y hy hsame hother => ?_⟩ <;> rw [hvalue] at *
    · rcases lt_trichotomy y.value x.magnitude with hlt | heq | hlt
      · exact abs_sub_le_of_midpoint_le hprior (value_le_prior hx hy hpositive hlt) h.lower
      · rw [heq]
      · exact abs_sub_le_of_le_midpoint hnext (next_le_value hx hy hlt) h.upper
    · refine h.even ?_
      rcases lt_or_gt_of_ne hother with hlt | hlt
      · refine .inl (le_antisymm h.lower (not_lt.1 fun hinside => ?_))
        have hnearer :=
          abs_sub_lt_of_midpoint_lt hprior (value_le_prior hx hy hpositive hlt) hinside
        exact hnearer.ne' hsame
      · refine .inr (le_antisymm h.upper (not_lt.1 fun hinside => ?_))
        have hnearer := abs_sub_lt_of_lt_midpoint hnext (next_le_value hx hy hlt) hinside
        exact hnearer.ne' hsame

/-! ## One nearest double -/

/-- Every double is nearest to itself. -/
theorem Representable.nearest (h : x.Representable) : Nearest x.value x := by
  refine ⟨h, fun y _ => ?_, fun y _ hsame hother => absurd ?_ hother⟩
  · rw [sub_self, abs_zero]
    exact abs_nonneg _
  · rw [sub_self, abs_zero, abs_eq_zero] at hsame
    exact sub_eq_zero.1 hsame

theorem representable_zero : (zero false).Representable :=
  ⟨le_rfl, Nat.two_pow_pos 53, fun h => absurd h (lt_irrefl _)⟩

theorem value_zero : (zero false).value = 0 := by
  simp [value, magnitude, zero]

theorem nearest_zero : Nearest 0 (zero false) :=
  value_zero ▸ representable_zero.nearest

/-- The double of the other sign. -/
def opposite (x : Double) : Double :=
  { x with negative := !x.negative }

theorem value_opposite (x : Double) : x.opposite.value = -x.value := by
  unfold value opposite magnitude
  cases x.negative <;> simp

theorem Representable.opposite (h : x.Representable) : x.opposite.Representable :=
  ⟨h.least, h.fits, h.full⟩

theorem opposite_opposite (x : Double) : x.opposite.opposite = x := by
  simp [opposite]

theorem Nearest.opposite (h : Nearest q x) : Nearest (-q) x.opposite := by
  have hdistance : ∀ y : Double, |y.value - -q| = |y.opposite.value - q| := by
    intro y
    rw [sub_neg_eq_add, value_opposite, ← abs_neg (y.value + q), neg_add']
  refine ⟨h.representable.opposite, fun y hy => ?_, fun y hy hsame hother => ?_⟩
  · rw [hdistance, hdistance, opposite_opposite]
    exact h.closest y.opposite hy.opposite
  · rw [hdistance, hdistance, opposite_opposite] at hsame
    refine h.even y.opposite hy.opposite hsame fun hequal => hother ?_
    rw [value_opposite, ← hequal, value_opposite, neg_neg]

/-- Between two magnitudes with even significands there is a third. -/
theorem next_lt_of_even (hx : x.Representable) (hy : y.Representable) (hxe : Even x.significand)
    (hye : Even y.significand) (h : x.magnitude < y.magnitude) :
    x.next.magnitude < y.magnitude := by
  refine lt_of_le_of_ne (next_le_of_lt hx hy h) fun hsame => ?_
  obtain ⟨hsignificand, -⟩ := hx.next.eq_of_magnitude_eq hy hsame
  rw [← hsignificand, Double.next] at hye
  split at hye
  · next hlast => exact absurd (hlast ▸ hxe.add_one) (by decide)
  · exact Nat.not_even_iff_odd.2 hxe.add_one hye

theorem magnitude_eq_value (h : 0 ≤ x.value) : x.magnitude = x.value := by
  rw [← abs_value, abs_of_nonneg h]

theorem exists_between_of_nonneg (hx : x.Representable) (hy : y.Representable)
    (hxe : Even x.significand) (hye : Even y.significand) (hnonneg : 0 ≤ x.value)
    (h : x.value < y.value) :
    ∃ z : Double, z.Representable ∧ x.value < z.value ∧ z.value < y.value := by
  have hxvalue := magnitude_eq_value hnonneg
  have hyvalue := magnitude_eq_value (hnonneg.trans h.le)
  have hlt : x.magnitude < y.magnitude := by rwa [hxvalue, hyvalue]
  have hz : (Double.mk false x.next.significand x.next.exponent).value = x.next.magnitude :=
    value_of_positive rfl
  refine ⟨⟨false, x.next.significand, x.next.exponent⟩,
    ⟨hx.next.least, hx.next.fits, hx.next.full⟩, ?_, ?_⟩
  · rw [hz, ← hxvalue]
    exact x.magnitude_lt_next
  · rw [hz, ← hyvalue]
    exact next_lt_of_even hx hy hxe hye hlt

/-- Between two doubles with even significands there is a third. -/
theorem exists_between (hx : x.Representable) (hy : y.Representable) (hxe : Even x.significand)
    (hye : Even y.significand) (h : x.value < y.value) :
    ∃ z : Double, z.Representable ∧ x.value < z.value ∧ z.value < y.value := by
  rcases le_or_gt 0 x.value with hnonneg | hnegative
  · exact exists_between_of_nonneg hx hy hxe hye hnonneg h
  rcases le_or_gt y.value 0 with hnonpos | hpositive
  · have hopposite : y.opposite.value < x.opposite.value := by
      rw [value_opposite, value_opposite]
      exact neg_lt_neg h
    obtain ⟨z, hz, hlower, hupper⟩ := exists_between_of_nonneg hy.opposite hx.opposite hye hxe
      (by rw [value_opposite]; exact neg_nonneg.2 hnonpos) hopposite
    rw [value_opposite] at hlower hupper
    refine ⟨z.opposite, hz.opposite, ?_, ?_⟩ <;> rw [value_opposite] <;> linarith
  · exact ⟨zero false, representable_zero, by rwa [value_zero], by rwa [value_zero]⟩

theorem Nearest.not_lt (hx : Nearest q x) (hy : Nearest q y) : ¬x.value < y.value := by
  intro h
  have hsame : |x.value - q| = |y.value - q| :=
    le_antisymm (hx.closest y hy.representable) (hy.closest x hx.representable)
  obtain ⟨z, hz, hlower, hupper⟩ := exists_between hx.representable hy.representable
    (hx.even y hy.representable hsame.symm h.ne') (hy.even x hx.representable hsame h.ne) h
  exact absurd (hx.closest z hz) (abs_sub_lt_of_between hlower hupper hsame).not_ge

/-- Doubles nearest to one number are one number. -/
theorem Nearest.value_eq (hx : Nearest q x) (hy : Nearest q y) : x.value = y.value :=
  le_antisymm (le_of_not_gt (hy.not_lt hx)) (le_of_not_gt (hx.not_lt hy))

end AnchoredDid.Double
