import AnchoredDid.Patch
import AnchoredDid.Proofs.Json.Alike
import AnchoredDid.Proofs.Json.Fields

/-!
# Patches as they were supplied

An operation keeps the members that it has a use for. So it is written as it was supplied just if it
was an object with no other members (`Operation.toJson_of_plain`, `Operation.plain_of_alike`).
-/

namespace AnchoredDid

namespace Operation

/-- The names of the members that an operation is written with. -/
def names : Operation → List String
  | add _ _ | replace _ _ | test _ _ => ["op", "path", "value"]
  | remove _ => ["op", "path"]
  | move _ _ | copy _ _ => ["op", "from", "path"]

section Reading

variable {record : Json} {members : Members Json} {op : Operation}

/-- What is read of an operation with a value. -/
theorem of_withValue {make : String → Json → Operation}
    (h : (do
      match ← record.fields? ["path", "value"] 2 with
      | [some path, some value] => some (make (← path.string?) value)
      | _ => none) = some op) :
    ∃ path value, record.fields? ["path", "value"] 2 = some [some (.string path), some value] ∧
      op = make path value := by
  obtain ⟨fields, hfields, h⟩ := Option.bind_eq_some_iff.1 h
  split at h
  · obtain ⟨text, htext, h⟩ := Option.bind_eq_some_iff.1 h
    cases h
    exact ⟨text, _, by rw [hfields, Json.string_of_string? htext], rfl⟩
  · cases h

/-- What is read of an operation with a source. -/
theorem of_withSource {make : String → String → Operation}
    (h : (do
      match ← record.fields? ["from", "path"] 2 with
      | [some source, some path] => some (make (← source.string?) (← path.string?))
      | _ => none) = some op) :
    ∃ source path, record.fields? ["from", "path"] 2 =
        some [some (.string source), some (.string path)] ∧ op = make source path := by
  obtain ⟨fields, hfields, h⟩ := Option.bind_eq_some_iff.1 h
  split at h
  · obtain ⟨source, hsource, h⟩ := Option.bind_eq_some_iff.1 h
    obtain ⟨path, hpath, h⟩ := Option.bind_eq_some_iff.1 h
    cases h
    exact ⟨source, path, by
      rw [hfields, Json.string_of_string? hsource, Json.string_of_string? hpath], rfl⟩
  · cases h

theorem of_withPath
    (h : (do
      match ← record.fields? ["path"] 1 with
      | [some path] => some (remove (← path.string?))
      | _ => none) = some op) :
    ∃ path, record.fields? ["path"] 1 = some [some (.string path)] ∧ op = remove path := by
  obtain ⟨fields, hfields, h⟩ := Option.bind_eq_some_iff.1 h
  split at h
  · obtain ⟨path, hpath, h⟩ := Option.bind_eq_some_iff.1 h
    cases h
    exact ⟨path, by rw [hfields, Json.string_of_string? hpath], rfl⟩
  · cases h

/-- An operation is written with its kind and the fields that it was read from. -/
theorem ofFields?_eq_some {kind : String} (h : ofFields? kind record = some op) :
    ∃ fields values, record.fields? fields fields.length = some (values.map some) ∧
      op.names = "op" :: fields ∧
      op.toJson = Json.ofMembers (op.names.zip (.string kind :: values)) := by
  rw [ofFields?.eq_def] at h
  split at h
  · obtain ⟨path, value, hfields, rfl⟩ := of_withValue h
    exact ⟨["path", "value"], [.string path, value], hfields, rfl, rfl⟩
  · obtain ⟨path, hfields, rfl⟩ := of_withPath h
    exact ⟨["path"], [.string path], hfields, rfl, rfl⟩
  · obtain ⟨path, value, hfields, rfl⟩ := of_withValue h
    exact ⟨["path", "value"], [.string path, value], hfields, rfl, rfl⟩
  · obtain ⟨source, path, hfields, rfl⟩ := of_withSource h
    exact ⟨["from", "path"], [.string source, .string path], hfields, rfl, rfl⟩
  · obtain ⟨source, path, hfields, rfl⟩ := of_withSource h
    exact ⟨["from", "path"], [.string source, .string path], hfields, rfl, rfl⟩
  · obtain ⟨path, value, hfields, rfl⟩ := of_withValue h
    exact ⟨["path", "value"], [.string path, value], hfields, rfl, rfl⟩
  · cases h

/-- An operation that is read from an object is written with what was found under its names. -/
theorem written_of_object (h : ofJson? (.object members) = some op) :
    ∃ values, op.names.map (fun name => Members.find? name members) = values.map some ∧
      op.toJson = Json.ofMembers (op.names.zip values) := by
  obtain ⟨value, hvalue, h⟩ := Option.bind_eq_some_iff.1 h
  obtain ⟨kind, hkind, h⟩ := Option.bind_eq_some_iff.1 h
  obtain ⟨fields, values, hfields, hnames, hjson⟩ := ofFields?_eq_some h
  refine ⟨.string kind :: values, ?_, hjson⟩
  rw [hnames, List.map_cons, List.map_cons, hvalue, Json.string_of_string? hkind]
  exact congrArg _ (Option.some.inj hfields)

theorem member?_toJson (h : ofJson? (.object members) = some op) (name : String) :
    op.toJson.member? name = if name ∈ op.names then Members.find? name members else none := by
  obtain ⟨values, hvalues, hjson⟩ := written_of_object h
  rw [hjson, Json.member?_ofMembers]
  exact Members.last?_zip hvalues

/-- What is written of an operation is in order if what it was read from is. -/
theorem ordered_toJson {value : Json} (ordered : value.Ordered) (h : ofJson? value = some op) :
    op.toJson.Ordered := by
  have hfields : ∀ kind record, record.Ordered → ofFields? kind record = some op →
      op.toJson.Ordered := by
    intro kind record hrecord h
    obtain ⟨fields, values, hvalues, hnames, hjson⟩ := ofFields?_eq_some h
    rw [hjson]
    refine Json.ordered_ofMembers fun p hp => ?_
    rcases List.mem_cons.1 (List.of_mem_zip hp).2 with heq | hmem
    · rw [heq]
      exact .string kind
    · exact Json.ordered_of_fields? hrecord hvalues _ (List.mem_map_of_mem hmem)
  cases value with
  | object members =>
      obtain ⟨value, -, h⟩ := Option.bind_eq_some_iff.1 h
      obtain ⟨kind, -, h⟩ := Option.bind_eq_some_iff.1 h
      exact hfields kind _ ordered h
  | array items =>
      cases items with
      | nil => cases h
      | cons first rest =>
          obtain ⟨kind, -, h⟩ := Option.bind_eq_some_iff.1 h
          exact hfields kind _
            (.array fun x hx => ordered.of_mem_array x (List.mem_cons_of_mem _ hx)) h
  | _ => cases h

/-- A value is an object that has only members for which its operation has a use. -/
def Plain (value : Json) : Prop :=
  ∃ members op, value = .object members ∧ ofJson? value = some op ∧ ∀ m ∈ members, m.1 ∈ op.names

theorem exists_toJson (op : Operation) :
    ∃ members : Members Json, op.toJson = .object members ∧ members.Sorted := by
  cases op <;> exact ⟨_, rfl, Members.sorted_ofList _⟩

theorem toJson_of_plain {value : Json} (ordered : value.Ordered) (h : ofJson? value = some op)
    (plain : Plain value) : op.toJson = value := by
  obtain ⟨members, op', rfl, hop', hnames⟩ := plain
  obtain rfl : op = op' := Option.some.inj (h.symm.trans hop')
  obtain ⟨written, hwritten, hsorted⟩ := op.exists_toJson
  rw [hwritten]
  refine congrArg Json.object (hsorted.ext ordered.sorted fun name => ?_)
  have hmember := member?_toJson h name
  rw [hwritten, Json.member?] at hmember
  rw [hmember]
  split
  · rfl
  · next hname =>
    have hnone : Members.find? name members = none :=
      Members.find?_eq_none_iff.2 fun m hm heq => hname (heq ▸ hnames m hm)
    exact hnone.symm

/-- What hashes do not tell from the operation as written is plain. -/
theorem plain_of_alike {value : Json} (h : ofJson? value = some op)
    (halike : op.toJson.Alike value) : Plain value := by
  obtain ⟨written, hwritten, -⟩ := op.exists_toJson
  rw [hwritten] at halike
  cases halike with
  | number left _ _ => cases left
  | @object _ members each =>
      refine ⟨members, op, rfl, h, fun m hm => by_contra fun hname => ?_⟩
      have hmember := member?_toJson h m.1
      rw [hwritten, Json.member?, if_neg hname] at hmember
      have hnone : Members.find? m.1 members = none := by
        have hrel := Members.find?_rel each m.1
        rw [hmember] at hrel
        generalize Members.find? m.1 members = found at hrel
        cases hrel
        rfl
      exact Members.find?_eq_none_iff.1 hnone m hm rfl

end Reading

end Operation

namespace Patch

variable {value : Json} {items : List Json} {patch : Patch}

/-- A patch is a list of what was read as its operations. -/
theorem ofJson?_eq_some (h : ofJson? value = some patch) : ∃ items, value = .array items ∧
    List.Forall₂ (fun op v => Operation.ofJson? v = some op) patch items :=
  Json.listOf?_eq_some h

theorem toJson_of_plain (ordered : value.Ordered) (h : ofJson? value = some patch)
    (plain : ∀ items, value = .array items → ∀ v ∈ items, Operation.Plain v) :
    patch.toJson = value := by
  obtain ⟨items, rfl, hitems⟩ := ofJson?_eq_some h
  have hplain := plain items rfl
  have hordered := ordered.of_mem_array
  rw [toJson]
  refine congrArg Json.array ?_
  clear h plain ordered
  induction hitems with
  | nil => rfl
  | cons hread _ ih =>
      obtain ⟨hfirst, hrest⟩ := List.forall_mem_cons.1 hplain
      obtain ⟨hfirst', hrest'⟩ := List.forall_mem_cons.1 hordered
      rw [List.map_cons, Operation.toJson_of_plain hfirst' hread hfirst, ih hrest hrest']

theorem plain_of_alike (h : ofJson? (.array items) = some patch)
    (halike : patch.toJson.Alike (.array items)) : ∀ v ∈ items, Operation.Plain v := by
  obtain ⟨found, hfound, hitems⟩ := ofJson?_eq_some h
  cases hfound
  cases halike with
  | number left _ _ => cases left
  | array each =>
      rw [List.forall₂_map_left_iff] at each
      clear h
      induction hitems with
      | nil => exact fun _ hv => nomatch hv
      | cons hread _ ih =>
          cases each with
          | cons hfirst hrest =>
              exact List.forall_mem_cons.2 ⟨Operation.plain_of_alike hread hfirst, ih hrest⟩

theorem ordered_toJson (ordered : value.Ordered) (h : ofJson? value = some patch) :
    patch.toJson.Ordered := by
  obtain ⟨items, rfl, hitems⟩ := ofJson?_eq_some h
  have hordered := ordered.of_mem_array
  refine .array ?_
  clear h ordered
  induction hitems with
  | nil => exact fun _ hx => nomatch hx
  | cons hread _ ih =>
      obtain ⟨hfirst, hrest⟩ := List.forall_mem_cons.1 hordered
      exact List.forall_mem_cons.2 ⟨Operation.ordered_toJson hfirst hread, ih hrest⟩

end Patch

end AnchoredDid
