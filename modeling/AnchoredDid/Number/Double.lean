/-!
# Binary64 numbers

A double is a sign and the exact magnitude `significand * 2 ^ exponent`. The significand has
fifty-three bits, or fewer at the least exponent, so each magnitude has one representation. A
decimal literal becomes the nearest double, ties going to the even significand; a literal that
rounds past the largest double becomes none.

A literal is rounded once. A reader that rounds its digits and the power of ten apart can miss the
nearest double by a little: of `9007199254740993.0` it makes `9007199254740994`, where this one
comes to `9007199254740992`.
-/

namespace AnchoredDid

structure Double where
  negative : Bool
  significand : Nat
  exponent : Int
  deriving DecidableEq, Repr

namespace Double

/-- The exponent of the numbers nearest to zero. -/
def leastExponent : Int := -1074

/-- The exponent of the largest numbers. -/
def greatestExponent : Int := 971

def zero (negative : Bool) : Double := ⟨negative, 0, leastExponent⟩

def isZero (d : Double) : Bool := d.significand = 0

/-- Numeric equality: the two zeros are equal, and nothing else is identified. -/
def equal (x y : Double) : Bool :=
  x.significand = y.significand && x.exponent = y.exponent
    && (x.negative == y.negative || x.significand = 0)

/-- The quotient rounded to the nearest integer, a half going to the even neighbour. -/
def roundDiv (num den : Nat) : Nat :=
  let q := num / den
  let r := num % den
  if 2 * r < den then q
  else if 2 * r > den then q + 1
  else if q % 2 = 0 then q else q + 1

/-- `num / den` as a multiple of `2 ^ exponent`, rounded. -/
def roundAt (exponent : Int) (num den : Nat) : Nat :=
  if 0 ≤ exponent then roundDiv num (den * Nat.pow 2 exponent.toNat)
  else roundDiv (num * Nat.pow 2 (-exponent).toNat) den

/-- The double nearest to `num / den`, none beyond the largest. -/
def ofRatio? (negative : Bool) (num den : Nat) : Option Double :=
  if num = 0 then some (zero negative)
  else
    let size : Int := (num.log2 : Int) - den.log2
    -- The leading bit of the quotient is that of `size` or the one below it.
    let lead :=
      if (if 0 ≤ size then den * Nat.pow 2 size.toNat ≤ num
          else den ≤ num * Nat.pow 2 (-size).toNat)
      then size else size - 1
    let exponent := max (lead - 52) leastExponent
    let significand := roundAt exponent num den
    let (significand, exponent) :=
      if significand = Nat.pow 2 53 then (Nat.pow 2 52, exponent + 1) else (significand, exponent)
    if exponent > greatestExponent then none else some ⟨negative, significand, exponent⟩

/-- The double nearest to `± digits * 10 ^ scale`. Magnitudes far outside the range of doubles are
decided by the number of digits alone. -/
def ofDecimal? (negative : Bool) (digits : Nat) (scale : Int) : Option Double :=
  if digits = 0 then some (zero negative)
  else
    let size : Int := (Nat.toDigits 10 digits).length + scale
    if size > 400 then none
    else if size < -400 then some (zero negative)
    else if 0 ≤ scale then ofRatio? negative (digits * Nat.pow 10 scale.toNat) 1
    else ofRatio? negative digits (Nat.pow 10 (-scale).toNat)

end Double

end AnchoredDid
