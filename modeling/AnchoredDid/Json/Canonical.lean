import AnchoredDid.Digest
import AnchoredDid.Json.Writer

/-!
# Canonical text and canonical hashes

Two documents are the same for hashing when their canonical texts are equal. The members of each
object are ordered by their names as written, quotation marks and escapes included; integers keep
all their digits, and doubles are written as ECMAScript prints them.
-/

namespace AnchoredDid.Json

/-- ECMAScript: positional between `1e-6` and `1e21`, whole numbers without a point, one zero. -/
def canonicalStyle : NumberStyle where
  leastPoint := -5
  greatestPoint := 21
  fractionAlways := false
  signedZero := false

/-- Puts a written member before the first whose written name is not smaller. -/
def insertWritten (name value : List Char) : List (List Char × List Char) →
    List (List Char × List Char)
  | [] => [(name, value)]
  | (n, v) :: rest =>
    if n < name then (n, v) :: insertWritten name value rest else (name, value) :: (n, v) :: rest

mutual

def canonicalText : Json → List Char
  | null => "null".toList
  | bool true => "true".toList
  | bool false => "false".toList
  | int n => integerText n
  | double x => canonicalStyle.text x
  | string s => quote s
  | array items => '[' :: commaSeparated (canonicalItems items) ++ [']']
  | object members =>
    '\x7b' :: commaSeparated ((canonicalMembers members).map fun m => m.1 ++ ':' :: m.2) ++ ['\x7d']

def canonicalItems : List Json → List (List Char)
  | [] => []
  | item :: rest => canonicalText item :: canonicalItems rest

/-- The written members, in the order of their written names. -/
def canonicalMembers : List (String × Json) → List (List Char × List Char)
  | [] => []
  | (name, value) :: rest =>
    insertWritten (quote name) (canonicalText value) (canonicalMembers rest)

end

def canonical (value : Json) : String :=
  String.ofList value.canonicalText

/-- The hash of the canonical text. -/
def hash (value : Json) : Digest :=
  sha256 (Bytes.ofText value.canonical)

end AnchoredDid.Json
