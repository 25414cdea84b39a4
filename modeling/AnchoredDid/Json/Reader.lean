import AnchoredDid.Json.Basic
import AnchoredDid.Bytes.Hex

/-!
# Reading JSON text

The grammar is that of RFC 8259, with three decisions of its own: of equal names in an object the
last counts, containers nest at most 127 deep, and a number is an integer if it is written as one
and lies between `-2 ^ 63` and `2 ^ 64 - 1`. Every other number, `-0` among them, is a double; one
too large for a double is refused. Doubles are the nearest to what is written, also where the
program's own reader, which rounds twice, comes to a neighbour (`Double.ofDecimal?`). A reader takes
the text that is left and gives a value and what is left after it.
-/

namespace AnchoredDid.Json

/-- The greatest number of containers inside one another. -/
def depthLimit : Nat := 127

def isBlank (c : Char) : Bool :=
  c = ' ' || c = '\n' || c = '\t' || c = '\r'

def skipBlanks (text : List Char) : List Char :=
  text.dropWhile isBlank

def hexValue? (c : Char) : Option Nat :=
  if c.toNat < 128 then Hex.value? (UInt8.ofNat c.toNat) else none

/-- The UTF-16 unit after `\u`. -/
def unit? (a b c d : Char) : Option Nat := do
  return 4096 * (← hexValue? a) + 256 * (← hexValue? b) + 16 * (← hexValue? c) + (← hexValue? d)

/-- The character that a short escape stands for. -/
def escape? (c : Char) : Option Char :=
  if c = '"' then some '"'
  else if c = '\\' then some '\\'
  else if c = '/' then some '/'
  else if c = 'b' then some '\x08'
  else if c = 'f' then some '\x0c'
  else if c = 'n' then some '\n'
  else if c = 'r' then some '\r'
  else if c = 't' then some '\t'
  else none

def isLead (unit : Nat) : Bool := 0xd800 ≤ unit && unit < 0xdc00

def isTrail (unit : Nat) : Bool := 0xdc00 ≤ unit && unit < 0xe000

/-- The characters of a string up to its closing quotation mark. Surrogates count only in pairs. -/
def readChars : List Char → Option (List Char × List Char)
  | [] => none
  | '"' :: rest => some ([], rest)
  | '\\' :: 'u' :: a :: b :: c :: d :: rest => do
    let unit ← unit? a b c d
    if isTrail unit then none
    else if isLead unit then
      match rest with
      | '\\' :: 'u' :: e :: f :: g :: h :: rest =>
        let trail ← unit? e f g h
        if isTrail trail then
          let (chars, rest) ← readChars rest
          some (Char.ofNat (0x10000 + (unit - 0xd800) * 1024 + (trail - 0xdc00)) :: chars, rest)
        else none
      | _ => none
    else
      let (chars, rest) ← readChars rest
      some (Char.ofNat unit :: chars, rest)
  | '\\' :: c :: rest => do
    let char ← escape? c
    let (chars, rest) ← readChars rest
    some (char :: chars, rest)
  | c :: rest =>
    if c.toNat < 0x20 || c = '\\' then none
    else do
      let (chars, rest) ← readChars rest
      some (c :: chars, rest)

def digitsToNat (digits : List Char) : Nat :=
  digits.foldl (fun n c => 10 * n + (c.toNat - 48)) 0

/-- The digits after a point, at least one; no digits where there is no point. -/
def readFraction : List Char → Option (List Char × List Char)
  | '.' :: rest =>
    match rest.takeWhile Char.isDigit with
    | [] => none
    | digits => some (digits, rest.dropWhile Char.isDigit)
  | text => some ([], text)

/-- The exponent after its letter, at least one digit; none where there is no letter. -/
def readExponent : List Char → Option (Option Int × List Char)
  | c :: rest =>
    if c = 'e' || c = 'E' then
      let (negative, rest) := match rest with
        | '-' :: rest => (true, rest)
        | '+' :: rest => (false, rest)
        | _ => (false, rest)
      match rest.takeWhile Char.isDigit with
      | [] => none
      | digits =>
        let n : Int := digitsToNat digits
        some (some (if negative then -n else n), rest.dropWhile Char.isDigit)
    else some (none, c :: rest)
  | [] => some (none, [])

/-- An integer in the range of integers; the nearest double for the others. -/
def ofInteger? (negative : Bool) (magnitude : Nat) : Option Json :=
  if negative then
    if 0 < magnitude ∧ magnitude ≤ Nat.pow 2 63 then some (int (-magnitude))
    else (Double.ofDecimal? true magnitude 0).map double
  else if magnitude < Nat.pow 2 64 then some (int magnitude)
  else (Double.ofDecimal? false magnitude 0).map double

/-- A number after its sign. -/
def readMagnitude (negative : Bool) (text : List Char) : Option (Json × List Char) := do
  let whole := text.takeWhile Char.isDigit
  let rest := text.dropWhile Char.isDigit
  if whole = [] || (whole.head? = some '0' && whole.length > 1) then none
  else
    let (fraction, rest) ← readFraction rest
    let (exponent, rest) ← readExponent rest
    if fraction = [] && exponent = none then
      let value ← ofInteger? negative (digitsToNat whole)
      some (value, rest)
    else
      let x ← Double.ofDecimal? negative (digitsToNat (whole ++ fraction))
        (exponent.getD 0 - fraction.length)
      some (double x, rest)

/-- The elements of an array after its opening bracket or a comma, each read by `item`. -/
def readElements (item : List Char → Option (Json × List Char)) :
    (fuel : Nat) → List Char → Option (List Json × List Char)
  | 0, _ => none
  | fuel + 1, text => do
    let (value, rest) ← item text
    match skipBlanks rest with
    | ',' :: rest =>
      let (values, rest) ← readElements item fuel rest
      some (value :: values, rest)
    | ']' :: rest => some ([value], rest)
    | _ => none

/-- The members of an object after its opening brace or a comma, each value read by `item`. -/
def readPairs (item : List Char → Option (Json × List Char)) :
    (fuel : Nat) → List Char → Option (List (String × Json) × List Char)
  | 0, _ => none
  | fuel + 1, text =>
    match skipBlanks text with
    | '"' :: rest => do
      let (name, rest) ← readChars rest
      match skipBlanks rest with
      | ':' :: rest =>
        let (value, rest) ← item rest
        match skipBlanks rest with
        | ',' :: rest =>
          let (pairs, rest) ← readPairs item fuel rest
          some ((String.ofList name, value) :: pairs, rest)
        | '\x7d' :: rest => some ([(String.ofList name, value)], rest)
        | _ => none
      | _ => none
    | _ => none

/-- A value with at most `depth` containers inside one another. No container can have as many
elements as the whole text has characters, so its length serves as `fuel` for all of them. -/
def readValue (fuel : Nat) : (depth : Nat) → List Char → Option (Json × List Char)
  | depth, text =>
  match skipBlanks text with
  | 'n' :: 'u' :: 'l' :: 'l' :: rest => some (null, rest)
  | 't' :: 'r' :: 'u' :: 'e' :: rest => some (bool true, rest)
  | 'f' :: 'a' :: 'l' :: 's' :: 'e' :: rest => some (bool false, rest)
  | '"' :: rest => do
    let (chars, rest) ← readChars rest
    some (string (String.ofList chars), rest)
  | '[' :: rest =>
    match depth with
    | 0 => none
    | depth + 1 =>
      match skipBlanks rest with
      | ']' :: rest => some (array [], rest)
      | _ => do
        let (items, rest) ← readElements (readValue fuel depth) fuel rest
        some (array items, rest)
  | '\x7b' :: rest =>
    match depth with
    | 0 => none
    | depth + 1 =>
      match skipBlanks rest with
      | '\x7d' :: rest => some (object [], rest)
      | _ => do
        let (pairs, rest) ← readPairs (readValue fuel depth) fuel rest
        some (ofMembers pairs, rest)
  | '-' :: rest => readMagnitude true rest
  | rest => readMagnitude false rest

/-- The value that a whole text spells. -/
def read? (text : String) : Option Json := do
  let chars := text.toList
  let (value, rest) ← readValue chars.length depthLimit chars
  if skipBlanks rest = [] then some value else none

end AnchoredDid.Json
