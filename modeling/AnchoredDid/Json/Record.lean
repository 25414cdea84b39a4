import AnchoredDid.Digest
import AnchoredDid.Json.Basic

/-!
# Records in JSON

A record is read from an object by the names of its fields, or from an array that lists its fields
in order. Members with other names are passed over. An optional field may be missing or null.
-/

namespace AnchoredDid.Json

/-- The fields of a record in the order of `names`. An array lists at least the `required` first
ones and has no surplus. -/
def fields? (names : List String) (required : Nat) : Json → Option (List (Option Json))
  | object members => some (names.map fun name => Members.find? name members)
  | array items =>
    if required ≤ items.length ∧ items.length ≤ names.length then
      some (items.map some ++ List.replicate (names.length - items.length) none)
    else none
  | _ => none

/-- A field that may be missing or null. -/
def optionally {α : Type} (read : Json → Option α) : Option Json → Option (Option α)
  | none | some null => some none
  | some value => (read value).map some

/-- A field that may be missing, with a value to take then; null is no value for it. -/
def orElse {α : Type} (default : α) (read : Json → Option α) : Option Json → Option α
  | none => some default
  | some value => read value

/-- An array whose elements are all readable. -/
def listOf? {α : Type} (read : Json → Option α) (value : Json) : Option (List α) :=
  value.array?.bind fun items => items.mapM read

/-- The name of a constant: a string, or an object whose only member is that name with null. -/
def constant? : Json → Option String
  | string name => some name
  | object [(name, null)] => some name
  | _ => none

/-- Bytes in hexadecimal of either case. -/
def bytes? (value : Json) : Option Bytes :=
  value.string?.bind fun text => (Hex.decode text).toOption

/-- Bytes in lower-case hexadecimal. -/
def ofBytes (bytes : Bytes) : Json := string (Hex.encode bytes)

/-- A digest in hexadecimal of either case. -/
def digest? (value : Json) : Option Digest :=
  value.string?.bind fun text => (Digest.ofHex text).toOption

/-- A digest in lower-case hexadecimal. -/
def ofDigest (d : Digest) : Json := string d.toHex

end AnchoredDid.Json
