import AnchoredDid.Patch

/-!
# Differences as patches

The patch from one value to another removes, adds and replaces. Members and elements that both
values have are compared in depth; elements that only the first one has are removed from the end, so
that no removal moves the place of another.
-/

namespace AnchoredDid.Patch

/-- Removals for the members that only the first object has. -/
def removals (path : String) (source target : Members Json) : Patch :=
  (source.filter fun m => (Members.find? m.1 target).isNone).map fun m =>
    .remove (Pointer.extend path m.1)

/-- The pointer to an element. -/
def elementPath (path : String) (i : Nat) : String :=
  path ++ "/" ++ String.ofList (Nat.toDigits 10 i)

/-- Removals for the elements from an index on, the last one first. -/
def removeItems (path : String) (i : Nat) (items : List Json) : Patch :=
  ((List.range items.length).map fun k => Operation.remove (elementPath path (i + k))).reverse

/-- Additions of elements from an index on. -/
def addItems (path : String) : (i : Nat) → List Json → Patch
  | _, [] => []
  | i, item :: rest => .add (elementPath path i) item :: addItems path (i + 1) rest

mutual

/-- The operations below `path` that turn `source` into the last argument. -/
def between (path : String) (source : Json) : Json → Patch
  | .object target =>
    if source.equal (.object target) then []
    else
      match source with
      | .object members => removals path members target ++ betweenMembers path members target
      | _ => [.replace path (.object target)]
  | .array target =>
    if source.equal (.array target) then []
    else
      match source with
      | .array items => betweenItems path 0 items target
      | _ => [.replace path (.array target)]
  | target => if source.equal target then [] else [.replace path target]

def betweenMembers (path : String) (source : Members Json) : List (String × Json) → Patch
  | [] => []
  | (name, value) :: rest =>
    (match Members.find? name source with
      | some old => between (Pointer.extend path name) old value
      | none => [.add (Pointer.extend path name) value])
      ++ betweenMembers path source rest

def betweenItems (path : String) (i : Nat) (source : List Json) : List Json → Patch
  | [] => removeItems path i source
  | value :: rest =>
    match source with
    | [] => addItems path i (value :: rest)
    | old :: more =>
      between (elementPath path i) old value ++ betweenItems path (i + 1) more rest

end

/-- A patch from one value to another. -/
def diff (source target : Json) : Patch :=
  between "" source target

end AnchoredDid.Patch
