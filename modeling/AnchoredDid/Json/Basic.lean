import AnchoredDid.Number.Double
import AnchoredDid.Json.Members

/-!
# JSON values

Integers and doubles are different values here: the integer 1 is not the double 1.0, and hashes and
comparisons keep them apart. Objects hold their members in the order of `Members`.
-/

namespace AnchoredDid

inductive Json where
  | null
  | bool (b : Bool)
  | int (n : Int)
  | double (x : Double)
  | string (s : String)
  | array (items : List Json)
  | object (members : List (String × Json))

namespace Json

instance : Inhabited Json := ⟨null⟩

instance : Coe String Json := ⟨string⟩

/-- An object with these members; of equal names the last counts. -/
def ofMembers (pairs : List (String × Json)) : Json :=
  object (Members.ofList pairs)

def ofNat (n : Nat) : Json := int n

/-- A member that is present, or no member. -/
def optional (name : String) (value : Option Json) : List (String × Json) :=
  match value with
  | some v => [(name, v)]
  | none => []

/-- The member of an object; other values have none. -/
def member? (name : String) : Json → Option Json
  | object members => Members.find? name members
  | _ => none

def string? : Json → Option String
  | string s => some s
  | _ => none

def bool? : Json → Option Bool
  | bool b => some b
  | _ => none

/-- A number that is a natural number; doubles are not, whatever their value. -/
def nat? : Json → Option Nat
  | int n => if 0 ≤ n then some n.toNat else none
  | _ => none

def array? : Json → Option (List Json)
  | array items => some items
  | _ => none

def object? : Json → Option (Members Json)
  | object members => some members
  | _ => none

/-- The elements of the array under a name; none if it is missing or no array. -/
def elements (name : String) (value : Json) : List Json :=
  ((value.member? name).bind array?).getD []

def isObject (value : Json) : Bool :=
  value.object?.isSome

mutual

/-- Equality of values: an integer never equals a double, and the two zeros are equal. -/
def equal : Json → Json → Bool
  | null, null => true
  | bool a, bool b => a == b
  | int m, int n => m == n
  | double x, double y => x.equal y
  | string s, string t => s == t
  | array xs, array ys => equalItems xs ys
  | object ms, object ns => equalMembers ms ns
  | _, _ => false

def equalItems : List Json → List Json → Bool
  | [], [] => true
  | x :: xs, y :: ys => equal x y && equalItems xs ys
  | _, _ => false

def equalMembers : List (String × Json) → List (String × Json) → Bool
  | [], [] => true
  | (k, x) :: xs, (l, y) :: ys => k == l && equal x y && equalMembers xs ys
  | _, _ => false

end

end Json

end AnchoredDid
