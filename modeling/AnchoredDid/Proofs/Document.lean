import AnchoredDid.Document

/-!
# References in a document

Making a reference absolute twice is making it absolute once, as long as the document's own id is
not relative. So what a document has under a name does not depend on how the name is written.
-/

namespace AnchoredDid

theorem absoluteRef_relative {id reference : String} {rest : List Char}
    (h : reference.toList = '#' :: rest) : absoluteRef id reference = id ++ reference := by
  simp [absoluteRef, h]

theorem absoluteRef_of_head? {id reference : String} (h : reference.toList.head? ≠ some '#') :
    absoluteRef id reference = reference := by
  rw [absoluteRef]
  split
  · next hrelative => simp [hrelative] at h
  · rfl

/-- A reference that is absolute stays as it is, unless the document's id is itself relative. -/
theorem absoluteRef_absoluteRef {id : String} (h : id.toList.head? ≠ some '#')
    (reference : String) :
    absoluteRef id (absoluteRef id reference) = absoluteRef id reference := by
  by_cases hrelative : reference.toList.head? = some '#'
  · obtain ⟨rest, hrest⟩ := List.head?_eq_some_iff.1 hrelative
    rw [absoluteRef_relative hrest]
    cases hid : id.toList with
    | nil =>
        obtain rfl := String.toList_eq_nil_iff.1 hid
        rw [String.empty_append, absoluteRef_relative hrest, String.empty_append]
    | cons c cs =>
        apply absoluteRef_of_head?
        rw [String.toList_append, hid]
        rwa [hid] at h
  · rw [absoluteRef_of_head? hrelative, absoluteRef_of_head? hrelative]

namespace Document

variable {d : Document}

/-- The checks one inside the other. -/
theorem check_eq (value : Json) : check value =
    if value.isObject = false then .error .notObject
    else
      match (value.member? "id").bind Json.string? with
      | none => .error .missingId
      | some id =>
        if (value.member? "deactivated").any (fun v => v.bool?.isNone) then
          .error .deactivatedNotBoolean
        else
          match arrayMembers.find? fun name => (value.member? name).any fun v =>
            v.array?.isNone with
          | some name => .error (.notArray name)
          | none => checkMethods id [] (value.elements "verificationMethod") := by
  rw [check]
  cases value.isObject with
  | false => rfl
  | true =>
      cases (value.member? "id").bind Json.string? with
      | none => rfl
      | some id =>
          cases value.member? "deactivated" with
          | none => rfl
          | some flag => cases flag <;> rfl

theorem ofJson_eq_ok_iff {value : Json} : ofJson value = .ok d ↔ value = d.value := by
  constructor
  · intro h
    rw [ofJson] at h
    split at h
    · cases h
      rfl
    · cases h
  · rintro rfl
    rw [ofJson]
    split
    · rfl
    · next e he =>
      rw [d.checked] at he
      cases he

theorem ofJson_of_check_error {value : Json} {e : DocumentError} (h : check value = .error e) :
    ofJson value = .error e := by
  rw [ofJson]
  split
  · next hok =>
    rw [hok] at h
    cases h
  · next he => rw [Except.error.inj (he.symm.trans h)]

/-- The id of the document is not relative to anything. -/
def Anchored (d : Document) : Prop :=
  d.id.toList.head? ≠ some '#'

theorem absolute_absolute (h : d.Anchored) (reference : String) :
    d.absolute (d.absolute reference) = d.absolute reference :=
  absoluteRef_absoluteRef h reference

theorem canInvoke_absolute (h : d.Anchored) (reference : String) :
    d.canInvoke (d.absolute reference) = d.canInvoke reference := by
  rw [canInvoke, absolute_absolute h]
  rfl

theorem method?_absolute (h : d.Anchored) (reference : String) :
    d.method? (d.absolute reference) = d.method? reference := by
  rw [method?, absolute_absolute h]
  rfl

end Document

end AnchoredDid
