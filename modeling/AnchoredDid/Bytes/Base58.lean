import AnchoredDid.Hash.Sha256

/-!
# Base58

A byte string is read as one number and written in base 58; each zero byte at its start is written
as the digit of zero, which the number alone would not show. The checked form appends the first four
bytes of the double SHA-256 hash.
-/

namespace AnchoredDid.Base58

/-- The digits, from zero to fifty-seven. -/
def alphabet : List Char :=
  "123456789ABCDEFGHJKLMNPQRSTUVWXYZabcdefghijkmnopqrstuvwxyz".toList

def digit (n : Nat) : Char :=
  alphabet.getD n '1'

def value? (c : Char) : Option Nat :=
  alphabet.idxOf? c

/-- The digits of a number, most significant first; zero has none. -/
def digitsOf (n : Nat) : List Nat :=
  if n = 0 then [] else digitsOf (n / 58) ++ [n % 58]

/-- The base-256 digits of a number, most significant first; zero has none. -/
def bytesOf (n : Nat) : Bytes :=
  if n = 0 then [] else bytesOf (n / 256) ++ [UInt8.ofNat n]

def ofDigits (digits : List Nat) : Nat :=
  digits.foldl (fun n d => 58 * n + d) 0

def encodeChars (bytes : Bytes) : List Char :=
  List.replicate (bytes.takeWhile (· = 0)).length '1' ++ (digitsOf bytes.toNat).map digit

def encode (bytes : Bytes) : String :=
  String.ofList (encodeChars bytes)

/-- The bytes that a text writes; none if one of its characters is no digit. -/
def decodeChars? (text : List Char) : Option Bytes := do
  let digits ← text.mapM value?
  some (List.replicate (text.takeWhile (· = '1')).length 0 ++ bytesOf (ofDigits digits))

def decode? (text : String) : Option Bytes :=
  decodeChars? text.toList

def checksum (bytes : Bytes) : Bytes :=
  ((Sha256.chain (Sha256.chain bytes).bytes).bytes).take 4

def encodeChecked (bytes : Bytes) : String :=
  encode (bytes ++ checksum bytes)

/-- The bytes before a matching checksum. -/
def decodeChecked? (text : String) : Option Bytes := do
  let bytes ← decode? text
  let body := bytes.take (bytes.length - 4)
  if 4 ≤ bytes.length ∧ checksum body = bytes.drop (bytes.length - 4) then some body else none

end AnchoredDid.Base58
