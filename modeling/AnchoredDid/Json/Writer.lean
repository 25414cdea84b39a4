import AnchoredDid.Json.Basic
import AnchoredDid.Json.Text
import AnchoredDid.Number.Shortest

/-!
# Plain JSON text

Compact text with the members in the order of the value. A double always shows that it is one: it
has a fraction or an exponent, and zero keeps its sign.
-/

namespace AnchoredDid.Json

/-- Positional between `1e-5` and `1e16`. -/
def plainStyle : NumberStyle where
  leastPoint := -4
  greatestPoint := 16
  fractionAlways := true
  signedZero := true

/-- The decimal text of an integer. -/
def integerText (n : Int) : List Char :=
  (if n < 0 then ['-'] else []) ++ Nat.toDigits 10 n.natAbs

mutual

def plainText : Json → List Char
  | null => "null".toList
  | bool true => "true".toList
  | bool false => "false".toList
  | int n => integerText n
  | double x => plainStyle.text x
  | string s => quote s
  | array items => '[' :: commaSeparated (plainItems items) ++ [']']
  | object members => '\x7b' :: commaSeparated (plainMembers members) ++ ['\x7d']

def plainItems : List Json → List (List Char)
  | [] => []
  | item :: rest => plainText item :: plainItems rest

def plainMembers : List (String × Json) → List (List Char)
  | [] => []
  | (name, value) :: rest => (quote name ++ ':' :: plainText value) :: plainMembers rest

end

/-- The compact text of a value. -/
def write (value : Json) : String :=
  String.ofList value.plainText

end AnchoredDid.Json
