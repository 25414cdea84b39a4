import AnchoredDid.Bytes

/-!
# The curve secp256k1

Points satisfy `y² = x³ + 7` over the field of `fieldOrder` elements and form a group of
`groupOrder` elements. Sums are computed on triples with a common denominator, so that a multiple of
a point needs one inversion only.
-/

namespace AnchoredDid.Secp256k1

def fieldOrder : Nat := 0xfffffffffffffffffffffffffffffffffffffffffffffffffffffffefffffc2f

def groupOrder : Nat := 0xfffffffffffffffffffffffffffffffebaaedce6af48a03bbfd25e8cd0364141

/-- The low 256 bits of a number, most significant first. -/
def bits (n : Nat) : List Bool :=
  (List.range 256).map fun i => n.testBit (255 - i)

/-- A power in the field. -/
def power (base exponent : Nat) : Nat :=
  (bits exponent).foldl
    (fun acc b => let square := acc * acc % fieldOrder
      if b then square * base % fieldOrder else square) 1

/-- The inverse in the field; zero for zero. -/
def inverse (a : Nat) : Nat := power a (fieldOrder - 2)

def sub (a b : Nat) : Nat := (a + (fieldOrder - b)) % fieldOrder

/-- The square root in the field, if there is one. -/
def root? (a : Nat) : Option Nat :=
  let r := power a ((fieldOrder + 1) / 4)
  if r * r % fieldOrder = a % fieldOrder then some r else none

/-- A point `(x / z², y / z³)`; the point at infinity has `z = 0`. -/
structure Point where
  (x y z : Nat)
  deriving DecidableEq

namespace Point

def infinity : Point := ⟨1, 1, 0⟩

def ofAffine (x y : Nat) : Point := ⟨x, y, 1⟩

def generator : Point :=
  ofAffine 0x79be667ef9dcbbac55a06295ce870b07029bfcdb2dce28d959f2815b16f81798
    0x483ada7726a3c4655da4fbfc0e1108a8fd17b448a68554199c47d08ffb10d4b8

def double (p : Point) : Point :=
  if p.z = 0 || p.y = 0 then infinity
  else
    let y2 := p.y * p.y % fieldOrder
    let s := 4 * p.x * y2 % fieldOrder
    let m := 3 * p.x * p.x % fieldOrder
    let x := sub (m * m) (2 * s % fieldOrder)
    { x := x
      y := sub (m * sub s x) (8 * y2 * y2 % fieldOrder)
      z := 2 * p.y * p.z % fieldOrder }

def add (p q : Point) : Point :=
  if p.z = 0 then q
  else if q.z = 0 then p
  else
    let zp := p.z * p.z % fieldOrder
    let zq := q.z * q.z % fieldOrder
    let u := p.x * zq % fieldOrder
    let v := q.x * zp % fieldOrder
    let s := p.y * (zq * q.z % fieldOrder) % fieldOrder
    let t := q.y * (zp * p.z % fieldOrder) % fieldOrder
    if u = v then (if s = t then double p else infinity)
    else
      let h := sub v u
      let r := sub t s
      let h2 := h * h % fieldOrder
      let h3 := h * h2 % fieldOrder
      let uh := u * h2 % fieldOrder
      let x := sub (sub (r * r) h3) (2 * uh % fieldOrder)
      { x := x
        y := sub (r * sub uh x) (s * h3 % fieldOrder)
        z := h * (p.z * q.z % fieldOrder) % fieldOrder }

/-- The multiple of a point by a number below `2 ^ 256`. -/
def multiple (n : Nat) (p : Point) : Point :=
  (bits n).foldl (fun sum b => let twice := double sum; if b then add twice p else twice) infinity

/-- The coordinates, of any point but the one at infinity. -/
def affine? (p : Point) : Option (Nat × Nat) :=
  if p.z = 0 then none
  else
    let i := inverse p.z
    let i2 := i * i % fieldOrder
    some (p.x * i2 % fieldOrder, p.y * (i2 * i % fieldOrder) % fieldOrder)

/-- The coordinates of the point with this abscissa and an ordinate of this parity. -/
def lift? (x : Nat) (odd : Bool) : Option (Nat × Nat) :=
  if fieldOrder ≤ x then none
  else
    match root? ((x * x % fieldOrder * x + 7) % fieldOrder) with
    | none => none
    | some y => some (x, if (y % 2 = 1) = odd then y else (fieldOrder - y) % fieldOrder)

/-- The compressed form: the parity of the ordinate and the abscissa. -/
def compress (x y : Nat) : Bytes :=
  (if y % 2 = 0 then 2 else 3) :: Bytes.ofNat 32 x

/-- The coordinates that a compressed form stands for. -/
def decompress? (bytes : Bytes) : Option (Nat × Nat) :=
  match bytes with
  | tag :: rest =>
    if rest.length = 32 ∧ (tag = 2 ∨ tag = 3) then lift? (Bytes.toNat rest) (tag = 3) else none
  | [] => none

end Point

end AnchoredDid.Secp256k1
