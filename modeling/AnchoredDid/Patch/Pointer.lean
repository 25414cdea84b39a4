import AnchoredDid.Json.Basic
import AnchoredDid.Text.Quoted
import AnchoredDid.Text.Replace

/-!
# JSON pointers

A pointer is empty, or a slash before each of its tokens. In a token `~1` stands for a slash and
`~0` for a tilde; a tilde before anything else stands for itself. A token names a member of an
object, or an element of an array by its decimal index without leading zeros.
-/

namespace AnchoredDid

/-- Why a patch does not apply. -/
inductive PatchError where
  | invalidPointer (path : String)
  | notFound (path : String)
  | invalidIndex (path index : String)
  | testFailed (path : String)
  | moveIntoChild (source path : String)
  deriving DecidableEq, Repr

def PatchError.message : PatchError → String
  | .invalidPointer path => s!"invalid JSON pointer {Text.quoted path}"
  | .notFound path => s!"path not found: {path}"
  | .invalidIndex path index => s!"invalid array index {Text.quoted index} at {path}"
  | .testFailed path => s!"test failed at {path}"
  | .moveIntoChild source path => s!"cannot move {source} into its own child {path}"

namespace Pointer

/-- The name or index that a token stands for. -/
def unescape : List Char → List Char
  | '~' :: '1' :: rest => '/' :: unescape rest
  | '~' :: '0' :: rest => '~' :: unescape rest
  | c :: rest => c :: unescape rest
  | [] => []

/-- The token that stands for a name. -/
def escape : List Char → List Char
  | [] => []
  | '~' :: rest => '~' :: '0' :: escape rest
  | '/' :: rest => '~' :: '1' :: escape rest
  | c :: rest => c :: escape rest

/-- The pointer to the member or element that a name leads to from where `path` leads. -/
def extend (path name : String) : String :=
  path ++ "/" ++ String.ofList (escape name.toList)

/-- The names and indices along a pointer. -/
def tokens (path : String) : Except PatchError (List String) :=
  match path.toList with
  | [] => .ok []
  | '/' :: rest =>
    .ok ((Text.splitAll '/' rest).map fun token => String.ofList (unescape token))
  | _ => .error (.invalidPointer path)

/-- A decimal number without leading zeros. -/
def index? (token : String) : Option Nat :=
  match token.toList with
  | [] => none
  | ['0'] => some 0
  | '0' :: _ => none
  | digits =>
    if digits.all Char.isDigit then
      some (digits.foldl (fun n c => 10 * n + (c.toNat - 48)) 0)
    else none

/-- An index below `bound`. -/
def index (path token : String) (bound : Nat) : Except PatchError Nat :=
  match index? token with
  | some i => if i < bound then .ok i else .error (.invalidIndex path token)
  | none => .error (.invalidIndex path token)

/-- What a token leads to. -/
def child (path token : String) : Json → Except PatchError Json
  | .object members =>
    match Members.find? token members with
    | some value => .ok value
    | none => .error (.notFound path)
  | .array items => do
    let i ← index path token items.length
    match items[i]? with
    | some value => .ok value
    | none => .error (.invalidIndex path token)
  | _ => .error (.notFound path)

/-- What a list of tokens leads to. -/
def follow (path : String) : List String → Json → Except PatchError Json
  | [], value => .ok value
  | token :: rest, value => do
    let next ← child path token value
    follow path rest next

/-- Puts a value where a token leads to something already. -/
def setChild (path token : String) (new : Json) : Json → Except PatchError Json
  | .object members => .ok (.object (Members.insert token new members))
  | .array items => do
    let i ← index path token items.length
    .ok (.array (items.set i new))
  | _ => .error (.notFound path)

/-- Edits what a list of tokens leads to. -/
def editAt (path : String) (edit : Json → Except PatchError Json) :
    List String → Json → Except PatchError Json
  | [], value => edit value
  | token :: rest, value => do
    let next ← child path token value
    let edited ← editAt path edit rest next
    setChild path token edited value

@[simp] theorem follow_nil (path : String) (value : Json) : follow path [] value = .ok value := rfl

@[simp] theorem editAt_nil (path : String) (edit : Json → Except PatchError Json) (value : Json) :
    editAt path edit [] value = edit value := rfl

end Pointer

end AnchoredDid
