import AnchoredDid.Bytes
import AnchoredDid.Text.Quoted

/-!
# Bech32

A text of a human-readable part, the separator `1`, data symbols of five bits and six symbols of
checksum. The checksum is the remainder of a polynomial over the field of thirty-two elements, kept
as one word of thirty bits; the two variants differ in the remainder that a valid text leaves.
-/

namespace AnchoredDid.Bech32

abbrev Symbol := BitVec 5

inductive Variant where
  | bech32
  | bech32m
  deriving DecidableEq, Repr

/-- The remainder of a valid text. -/
def Variant.residue : Variant → BitVec 30
  | .bech32 => 1
  | .bech32m => 0x2bc830a3

def alphabet : List Char :=
  "qpzry9x8gf2tvdw0s3jn54khce6mua7l".toList

def Symbol.char (s : Symbol) : Char :=
  alphabet.getD s.toNat 'q'

/-- The symbol of a lower-case letter or digit. -/
def Symbol.ofChar? (c : Char) : Option Symbol :=
  (alphabet.idxOf? c).map fun n => BitVec.ofNat 5 n

/-- The multiples of the generator for the five bits that leave the word at its top. -/
def generators : List (BitVec 30) :=
  [0x3b6a57b2, 0x26508e6d, 0x1ea119fa, 0x3d4233dd, 0x2a1462b3]

/-- The remainder after one more symbol. -/
def step (word : BitVec 30) (s : Symbol) : BitVec 30 :=
  let shifted := (word <<< 5) ^^^ s.setWidth 30
  (generators.zipIdx).foldl (fun w g => if word.getLsbD (25 + g.2) then w ^^^ g.1 else w) shifted

def remainder (word : BitVec 30) (symbols : List Symbol) : BitVec 30 :=
  symbols.foldl step word

/-- The human-readable part as symbols: the high bits, a zero, the low bits. -/
def expand (label : List Char) : List Symbol :=
  label.map (fun c => BitVec.ofNat 5 (c.toNat / 32)) ++ 0 ::
    label.map (fun c => BitVec.ofNat 5 c.toNat)

/-- The word before the data: the human-readable part absorbed into one. -/
def start (label : List Char) : BitVec 30 :=
  remainder 1 (expand label)

/-- The six symbols that bring the remainder to the residue. -/
def checksum (variant : Variant) (label : List Char) (data : List Symbol) : List Symbol :=
  let word := remainder (start label) (data ++ List.replicate 6 0) ^^^ variant.residue
  [word.extractLsb' 25 5, word.extractLsb' 20 5, word.extractLsb' 15 5, word.extractLsb' 10 5,
    word.extractLsb' 5 5, word.extractLsb' 0 5]

def isValid (variant : Variant) (label : List Char) (symbols : List Symbol) : Bool :=
  remainder (start label) symbols = variant.residue

/-- The bits of a symbol, most significant first. -/
def Symbol.bits (s : Symbol) : List Bool :=
  [s.getLsbD 4, s.getLsbD 3, s.getLsbD 2, s.getLsbD 1, s.getLsbD 0]

/-- Bits in groups of five; the last group is filled up with zeros. -/
def symbolsOfBits : List Bool → List Symbol
  | [] => []
  | b4 :: b3 :: b2 :: b1 :: b0 :: rest =>
    BitVec.ofNat 5 (Bytes.natOfBits [b4, b3, b2, b1, b0]) :: symbolsOfBits rest
  | few => [BitVec.ofNat 5 (Bytes.natOfBits ((few ++ List.replicate 5 false).take 5))]

def bitsOfSymbols (symbols : List Symbol) : List Bool :=
  symbols.flatMap Symbol.bits

def symbolsOfBytes (bytes : Bytes) : List Symbol :=
  symbolsOfBits bytes.bits

/-- The whole bytes that symbols spell; the bits left over are dropped. -/
def bytesOfSymbols (symbols : List Symbol) : Bytes :=
  Bytes.ofBits (bitsOfSymbols symbols)

/-- The bits left over are fewer than a symbol and zero. -/
def isPadded (symbols : List Symbol) : Bool :=
  let bits := bitsOfSymbols symbols
  let spare := bits.length % 8
  spare ≤ 4 && (bits.drop (bits.length - spare)).all (· = false)

def encode (variant : Variant) (label : List Char) (data : List Symbol) : List Char :=
  label ++ '1' :: (data ++ checksum variant label data).map Symbol.char

/-- Why a text has no human-readable part and symbols. -/
inductive ShapeError where
  | missingSeparator
  | invalidCharacter (c : Char)
  /-- The length of the human-readable part in bytes. -/
  | labelTooLong (length : Nat)
  | labelNotAscii (c : Char)
  | labelInvalidByte (c : Char)
  deriving DecidableEq, Repr

/-- The greatest length of a human-readable part. -/
def labelLimit : Nat := 83

/-- Checks a nonempty human-readable part from its start. -/
def checkLabel : List Char → Except ShapeError Unit
  | [] => .ok ()
  | c :: rest =>
    if 128 ≤ c.toNat then .error (.labelNotAscii c)
    else if c.toNat < 33 || 126 < c.toNat then .error (.labelInvalidByte c)
    else checkLabel rest

/-- The part before the last separator, if there is one, and the part after it. -/
def cut (text : List Char) : Option (List Char) × List Char :=
  let back := text.reverse
  let data := (back.takeWhile (· ≠ '1')).reverse
  match back.dropWhile (· ≠ '1') with
  | [] => (none, data)
  | _ :: label => (some label.reverse, data)

/-- The symbols of the data part; its last bad character is reported. -/
def readSymbols (data : List Char) : Except ShapeError (List Symbol) :=
  match data.reverse.find? fun c => (Symbol.ofChar? c).isNone with
  | some c => .error (.invalidCharacter c)
  | none => .ok (data.filterMap Symbol.ofChar?)

/-- The human-readable part and the symbols of a lower-case text, checksum included. -/
def parse (text : List Char) : Except ShapeError (List Char × List Symbol) := do
  let (label, data) := cut text
  let symbols ← readSymbols data
  match label with
  | none | some [] => .error .missingSeparator
  | some label =>
    let size := (String.ofList label).utf8ByteSize
    if labelLimit < size then .error (.labelTooLong size)
    else
      checkLabel label
      .ok (label, symbols)

end AnchoredDid.Bech32
