import AnchoredDid.Number.Double

/-!
# Shortest decimal text

The text of a double has the fewest digits that read back as that double; of several candidates with
so few digits the nearest is taken, and of two equally near ones the even one. Where the point
stands and when an exponent is written is a matter of style, kept in one record.
-/

namespace AnchoredDid

/-- The decimal number `0.d₁d₂… * 10 ^ point`, with the digits in order. -/
structure Decimal where
  digits : List Char
  point : Int
  deriving DecidableEq, Repr

namespace Decimal

/-- A positive rational number. -/
structure Ratio where
  num : Nat
  den : Nat

/-- `a * 2 ^ e`. -/
def Ratio.scaled (a : Nat) (e : Int) : Ratio :=
  if 0 ≤ e then ⟨a * Nat.pow 2 e.toNat, 1⟩ else ⟨a, Nat.pow 2 (-e).toNat⟩

/-- The exponent `p` with `10 ^ (p - 1) ≤ r < 10 ^ p`. -/
def Ratio.magnitude (r : Ratio) : Int :=
  if r.den ≤ r.num then ((Nat.toDigits 10 (r.num / r.den)).length : Int)
  else 1 - ((Nat.toDigits 10 ((r.den - 1) / r.num)).length : Int)

/-- The numerator and denominator of `r / 10 ^ k`. -/
def Ratio.inUnits (r : Ratio) (k : Int) : Ratio :=
  if 0 ≤ k then ⟨r.num, r.den * Nat.pow 10 k.toNat⟩
  else ⟨r.num * Nat.pow 10 (-k).toNat, r.den⟩

/-- Whether `n * 10 ^ k` rounds to the double with this significand and exponent: it lies between
the midpoints to the neighbours, which belong to the interval when the significand is even. -/
def roundsTo (significand : Nat) (exponent : Int) (n : Nat) (k : Int) : Bool :=
  let even := significand % 2 = 0
  let below :=
    if significand = Nat.pow 2 52 && exponent > Double.leastExponent
    then Ratio.scaled (4 * significand - 1) (exponent - 2)
    else Ratio.scaled (2 * significand - 1) (exponent - 1)
  let above := Ratio.scaled (2 * significand + 1) (exponent - 1)
  let low := below.inUnits k
  let high := above.inUnits k
  let fromBelow := if even then low.num ≤ n * low.den else low.num < n * low.den
  let toAbove := if even then n * high.den ≤ high.num else n * high.den < high.num
  fromBelow && toAbove

/-- The nearest multiple of `10 ^ k` that reads back, if one does. -/
def candidate? (significand : Nat) (exponent k : Int) : Option Nat :=
  let value := (Ratio.scaled significand exponent).inUnits k
  let low := value.num / value.den
  let fits := fun n => roundsTo significand exponent n k
  match fits low, fits (low + 1) with
  | false, false => none
  | true, false => some low
  | false, true => some (low + 1)
  | true, true => some (Double.roundDiv value.num value.den)

/-- The first grid, from one digit to seventeen, that holds a number which reads back. -/
def search (significand : Nat) (exponent magnitude : Int) :
    (left : Nat) → (digits : Nat) → Nat × Int
  | 0, _ => (0, 0)
  | left + 1, digits =>
    let k := magnitude - digits
    match candidate? significand exponent k with
    | some n => (n, k)
    | none => search significand exponent magnitude left (digits + 1)

/-- The digits without zeros at the end. -/
def trimmed (digits : List Char) : List Char :=
  (digits.reverse.dropWhile (· = '0')).reverse

/-- The shortest decimal of a nonzero magnitude. -/
def shortest (significand : Nat) (exponent : Int) : Decimal :=
  let (n, k) := search significand exponent (Ratio.scaled significand exponent).magnitude 18 1
  let written := Nat.toDigits 10 n
  ⟨trimmed written, written.length + k⟩

end Decimal

/-- Where the point stands and when an exponent is written. -/
structure NumberStyle where
  /-- Positional notation is used while the point lies in this range, ends included. -/
  leastPoint : Int
  greatestPoint : Int
  /-- A number without a fraction ends in a point and a zero. -/
  fractionAlways : Bool
  /-- The sign of zero is written. -/
  signedZero : Bool

namespace NumberStyle

/-- Digits with the point among, before or after them. -/
def positional (style : NumberStyle) (d : Decimal) : List Char :=
  let count : Int := d.digits.length
  if d.point ≤ 0 then '0' :: '.' :: List.replicate (-d.point).toNat '0' ++ d.digits
  else if d.point < count then d.digits.take d.point.toNat ++ '.' :: d.digits.drop d.point.toNat
  else d.digits ++ List.replicate (d.point - count).toNat '0'
    ++ (if style.fractionAlways then ['.', '0'] else [])

/-- One digit, the point and the others if there are others, and the signed exponent. -/
def scientific (d : Decimal) : List Char :=
  let exponent := d.point - 1
  let fraction := match d.digits.drop 1 with
    | [] => []
    | rest => '.' :: rest
  d.digits.take 1 ++ fraction ++ 'e' :: (if exponent < 0 then '-' else '+')
    :: Nat.toDigits 10 exponent.natAbs

/-- The text of a double. -/
def text (style : NumberStyle) (x : Double) : List Char :=
  if x.isZero then
    (if style.signedZero && x.negative then ['-'] else [])
      ++ '0' :: (if style.fractionAlways then ['.', '0'] else [])
  else
    let d := Decimal.shortest x.significand x.exponent
    (if x.negative then ['-'] else [])
      ++ (if style.leastPoint ≤ d.point && d.point ≤ style.greatestPoint
          then style.positional d else scientific d)

end NumberStyle

end AnchoredDid
