import AnchoredDid.Bytes
import AnchoredDid.Text.Quoted

/-!
# Hexadecimal text

Bytes are written with two lower-case digits each and read with digits of either case. A text of odd
length is refused before its characters are looked at; otherwise the first byte that is no digit is
named, with its position. Lengths and positions count the bytes of the text, not its characters.
-/

namespace AnchoredDid

/-- Why a text is not the hexadecimal form of the bytes asked for. -/
inductive HexError where
  | oddLength
  /-- The byte of the text, read as a character of its own, and its position. -/
  | invalidCharacter (byte : UInt8) (position : Nat)
  /-- The bytes are well written but not as many as asked for. -/
  | invalidLength
  deriving DecidableEq, Repr

def HexError.message : HexError → String
  | .oddLength => "Odd number of digits"
  | .invalidCharacter byte position =>
    s!"Invalid character {Text.quotedChar (Char.ofNat byte.toNat)} at position {position}"
  | .invalidLength => "Invalid string length"

namespace Hex

/-- The digit of a number below sixteen. -/
def digit (n : Nat) : Char :=
  Char.ofNat (if n < 10 then 48 + n else 87 + n)

/-- The value of a digit, given as a byte of the text. -/
def value? (b : UInt8) : Option Nat :=
  let n := b.toNat
  if 48 ≤ n ∧ n ≤ 57 then some (n - 48)
  else if 97 ≤ n ∧ n ≤ 102 then some (n - 87)
  else if 65 ≤ n ∧ n ≤ 70 then some (n - 55)
  else none

/-- The digits of a byte string, two for each byte. -/
def digits (bytes : Bytes) : List Char :=
  bytes.flatMap fun b => [digit (b.toNat / 16), digit (b.toNat % 16)]

def encode (bytes : Bytes) : String :=
  String.ofList (digits bytes)

/-- Reads pairs of digits; `position` is that of the first. -/
def decodePairs (position : Nat) : Bytes → Except HexError Bytes
  | high :: low :: rest =>
    match value? high, value? low with
    | none, _ => .error (.invalidCharacter high position)
    | some _, none => .error (.invalidCharacter low (position + 1))
    | some h, some l => (decodePairs (position + 2) rest).map (UInt8.ofNat (16 * h + l) :: ·)
  | _ => .ok []

def decode (text : String) : Except HexError Bytes :=
  let written := Bytes.ofText text
  if written.length % 2 = 1 then .error .oddLength else decodePairs 0 written

@[simp] theorem digits_nil : digits [] = [] := rfl

theorem digits_cons (b : UInt8) (bytes : Bytes) :
    digits (b :: bytes) = digit (b.toNat / 16) :: digit (b.toNat % 16) :: digits bytes := rfl

@[simp] theorem length_digits (bytes : Bytes) : (digits bytes).length = 2 * bytes.length := by
  induction bytes with
  | nil => rfl
  | cons b bytes ih => rw [digits_cons]; simp only [List.length_cons, ih]; omega

end Hex

end AnchoredDid
