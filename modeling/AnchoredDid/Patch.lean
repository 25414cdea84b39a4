import AnchoredDid.Json.Record
import AnchoredDid.Patch.Pointer

/-!
# Patches

A patch is a list of operations, applied in order. Each names the place it changes or tests by a
pointer. If one of them fails nothing is changed.
-/

namespace AnchoredDid

/-- One change, or one test that changes nothing. -/
inductive Operation where
  | add (path : String) (value : Json)
  | remove (path : String)
  | replace (path : String) (value : Json)
  | move (source path : String)
  | copy (source path : String)
  | test (path : String) (value : Json)

abbrev Patch := List Operation

namespace Operation

/-- The place that the operation changes or tests. -/
def path : Operation → String
  | add path _ | remove path | replace path _ | move _ path | copy _ path | test path _ => path

/-- Puts a value into a container: under a name, or before an element, or after the last one. -/
def insertChild (path token : String) (new : Json) : Json → Except PatchError Json
  | .object members => .ok (.object (Members.insert token new members))
  | .array items =>
    if token = "-" then .ok (.array (items ++ [new]))
    else do
      let i ← Pointer.index path token (items.length + 1)
      .ok (.array (items.take i ++ new :: items.drop i))
  | _ => .error (.notFound path)

/-- Leaves out the member or element that a token leads to. -/
def eraseChild (path token : String) : Json → Except PatchError Json
  | .object members =>
    match Members.find? token members with
    | some _ => .ok (.object (Members.erase token members))
    | none => .error (.notFound path)
  | .array items => do
    let i ← Pointer.index path token items.length
    .ok (.array (items.eraseIdx i))
  | _ => .error (.notFound path)

/-- Edits the container that a pointer's last token belongs to. -/
def editParent (path : String) (edit : String → Json → Except PatchError Json) (document : Json) :
    Except PatchError Json := do
  let tokens ← Pointer.tokens path
  match tokens.getLast? with
  | none => .error (.invalidPointer path)
  | some last => Pointer.editAt path (edit last) tokens.dropLast document

/-- What a pointer leads to. -/
def valueAt (path : String) (document : Json) : Except PatchError Json := do
  let tokens ← Pointer.tokens path
  Pointer.follow path tokens document

/-- Adds a value at a place; at the root it takes the place of the document. -/
def addAt (path : String) (value document : Json) : Except PatchError Json :=
  if path = "" then .ok value
  else editParent path (fun token => insertChild path token value) document

/-- Leaves out what a pointer leads to; the root cannot be left out. -/
def removeAt (path : String) (document : Json) : Except PatchError Json :=
  editParent path (eraseChild path) document

/-- Puts a value in the place of what a pointer leads to. -/
def replaceAt (path : String) (value document : Json) : Except PatchError Json := do
  let tokens ← Pointer.tokens path
  Pointer.editAt path (fun _ => .ok value) tokens document

/-- The document after one operation. A move onto the same pointer leaves it as it is. -/
def apply (document : Json) : Operation → Except PatchError Json
  | add path value => addAt path value document
  | remove path => removeAt path document
  | replace path value => replaceAt path value document
  | move source path =>
    if source = path then .ok document
    else if (Text.after? (source.toList ++ ['/']) path.toList).isSome then
      .error (.moveIntoChild source path)
    else do
      let value ← valueAt source document
      let without ← removeAt source document
      addAt path value without
  | copy source path => do
    let value ← valueAt source document
    addAt path value document
  | test path value => do
    let found ← valueAt path document
    if found.equal value then .ok document else .error (.testFailed path)

def toJson : Operation → Json
  | add path value => Json.ofMembers [("op", "add"), ("path", path), ("value", value)]
  | remove path => Json.ofMembers [("op", "remove"), ("path", path)]
  | replace path value => Json.ofMembers [("op", "replace"), ("path", path), ("value", value)]
  | move source path => Json.ofMembers [("op", "move"), ("from", source), ("path", path)]
  | copy source path => Json.ofMembers [("op", "copy"), ("from", source), ("path", path)]
  | test path value => Json.ofMembers [("op", "test"), ("path", path), ("value", value)]

/-- The operation of a name, from a record of its other fields. -/
def ofFields? (op : String) (record : Json) : Option Operation :=
  let withValue (make : String → Json → Operation) : Option Operation := do
    match ← record.fields? ["path", "value"] 2 with
    | [some path, some value] => some (make (← path.string?) value)
    | _ => none
  let withSource (make : String → String → Operation) : Option Operation := do
    match ← record.fields? ["from", "path"] 2 with
    | [some source, some path] => some (make (← source.string?) (← path.string?))
    | _ => none
  match op with
  | "add" => withValue add
  | "remove" => do
    match ← record.fields? ["path"] 1 with
    | [some path] => some (remove (← path.string?))
    | _ => none
  | "replace" => withValue replace
  | "move" => withSource move
  | "copy" => withSource copy
  | "test" => withValue test
  | _ => none

/-- Reads an object with the member `op`, or an array that starts with the operation's name. -/
def ofJson? : Json → Option Operation
  | .object members => do
    ofFields? (← (← Members.find? "op" members).string?) (.object members)
  | .array (op :: rest) => do ofFields? (← op.string?) (.array rest)
  | _ => none

end Operation

namespace Patch

/-- The document after all operations, or the first failure. -/
def apply (patch : Patch) (document : Json) : Except PatchError Json :=
  patch.foldlM Operation.apply document

def toJson (patch : Patch) : Json :=
  .array (patch.map Operation.toJson)

def ofJson? (value : Json) : Option Patch :=
  value.listOf? Operation.ofJson?

end Patch

end AnchoredDid
