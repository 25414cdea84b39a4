import AnchoredDid.Update
import AnchoredDid.Proofs.Bytes.Hex
import AnchoredDid.Proofs.Json.Members

/-!
# Updates are read as they were written

An update whose further members have names of their own makes the round trip through JSON
(`Update.ofJson?_toJson`), whatever its patch holds. So an update in a sidecar is found there as it
was signed.
-/

namespace AnchoredDid

namespace Json

variable {α β : Type}

theorem mapM_map_of_forall {read : Json → Option α} {write : α → Json}
    (h : ∀ x, read (write x) = some x) (xs : List α) : (xs.map write).mapM read = some xs := by
  induction xs with
  | nil => rfl
  | cons x rest ih => simp [List.mapM_cons, h x, ih]

/-- What is read back from how it is written is one if it is written alike. -/
theorem eq_of_write_eq {read : Json → Option α} {write : α → Json} {x y : α}
    (hx : read (write x) = some x) (hy : read (write y) = some y) (h : write x = write y) :
    x = y := by
  rw [h, hy] at hx
  exact (Option.some.inj hx).symm

/-- A list is read if its elements are. -/
theorem listOf?_array {read : Json → Option α} {write : α → Json}
    (h : ∀ x, read (write x) = some x) (xs : List α) :
    listOf? read (.array (xs.map write)) = some xs :=
  mapM_map_of_forall h xs

@[simp] theorem nat?_ofNat (n : Nat) : nat? (ofNat n) = some n := by
  simp [nat?, ofNat]

/-- What is optional is read as missing if it was left out. -/
theorem optionally_map {read : Json → Option α} {write : α → Json}
    (h : ∀ x, read (write x) = some x) (present : ∀ x, write x ≠ .null) (x : Option α) :
    optionally read (x.map write) = some x := by
  cases x with
  | none => rfl
  | some x =>
      rw [Option.map_some, optionally]
      · rw [h]
        rfl
      · exact fun hnull => present x hnull

end Json

@[simp] theorem Operation.ofJson?_toJson (op : Operation) : ofJson? op.toJson = some op := by
  cases op <;>
    simp [toJson, Json.ofMembers, ofJson?, ofFields?, Json.fields?, Json.string?]

@[simp] theorem Patch.ofJson?_toJson (patch : Patch) : ofJson? patch.toJson = some patch :=
  Json.listOf?_array Operation.ofJson?_toJson patch

namespace Members

variable {α : Type}

/-- Further members that are in order and have none of the listed names. -/
structure Beside (names : List String) (extra : Members α) : Prop where
  sorted : extra.Sorted
  free : ∀ m ∈ extra, m.1 ∉ names

theorem Beside.find? {names : List String} {extra : Members α} (h : extra.Beside names)
    {base : Members α} {name : String} (hname : name ∈ names) :
    Members.find? name (override base extra) = Members.find? name base := by
  have hnone : Members.find? name extra = none :=
    find?_eq_none_iff.2 fun m hm heq => h.free m hm (heq ▸ hname)
  rw [find?_override base h.sorted, hnone, Option.none_or]

/-- What is beside known members is kept apart from them. -/
theorem Beside.without {names : List String} {base extra : Members α} (h : extra.Beside names)
    (hbase : base.Sorted) (known : ∀ m ∈ base, m.1 ∈ names) :
    Members.without names (override base extra) = extra :=
  without_override hbase h.sorted known h.free

end Members

namespace Json

variable {names : List String}

theorem known_optional {key : String} (h : key ∈ names) (value : Option Json) :
    ∀ m ∈ optional key value, m.1 ∈ names := by
  cases value <;> simp [optional, h]

end Json

namespace Proof

/-- The pairs of the members that have fields. -/
def pairs (p : Proof) : List (String × Json) :=
  [("type", .string p.type), ("cryptosuite", .string p.suite),
      ("verificationMethod", .string p.method), ("proofPurpose", .string p.purpose)]
    ++ Json.optional "capability" (p.capability.map .string)
    ++ Json.optional "capabilityAction" (p.action.map .string)
    ++ Json.optional "proofValue" (p.signature.map .string)

theorem known_pairs (p : Proof) : ∀ m ∈ p.pairs, m.1 ∈ fieldNames := by
  have hfirst : ∀ m ∈ [("type", Json.string p.type), ("cryptosuite", .string p.suite),
      ("verificationMethod", .string p.method), ("proofPurpose", .string p.purpose)],
      m.1 ∈ fieldNames := by simp [fieldNames]
  exact List.forall_mem_append.2 ⟨List.forall_mem_append.2 ⟨List.forall_mem_append.2 ⟨hfirst,
    Json.known_optional (by decide) _⟩, Json.known_optional (by decide) _⟩,
    Json.known_optional (by decide) _⟩

/-- A proof is read as it was written. -/
theorem ofJson?_toJson {p : Proof} (h : p.extra.Beside fieldNames) : ofJson? p.toJson = some p := by
  have hfind :
      ∀ name ∈ fieldNames, Members.find? name (Members.override (.ofList p.pairs) p.extra) =
      Members.last? name p.pairs := fun name hname => by
    rw [h.find? hname, Members.find?_ofList]
  have hextra : Members.without fieldNames (Members.override (.ofList p.pairs) p.extra) = p.extra :=
    h.without (Members.sorted_ofList _) fun m hm => p.known_pairs m (Members.mem_of_mem_ofList hm)
  have htext :
      ∀ value : Option String, Json.optionally Json.string? (value.map .string) = some value :=
    Json.optionally_map (fun _ => rfl) fun _ => nofun
  have hjson : p.toJson = .object (Members.override (.ofList p.pairs) p.extra) := rfl
  simp only [ofJson?, hjson, Json.object?, Option.bind_eq_bind, Option.bind_some, hextra]
  rw [hfind "type" (by decide), hfind "cryptosuite" (by decide),
    hfind "verificationMethod" (by decide), hfind "proofPurpose" (by decide),
    hfind "capability" (by decide), hfind "capabilityAction" (by decide),
    hfind "proofValue" (by decide)]
  simp [pairs, htext, Json.string?]

end Proof

namespace UnsignedUpdate

/-- The pairs of the members that have fields. -/
def pairs (u : UnsignedUpdate) : List (String × Json) :=
  Json.optional "@context"
      (if u.context.isEmpty then none else some (.array (u.context.map .string)))
    ++ [("patch", u.patch.toJson), ("sourceHash", Json.ofDigest u.sourceHash),
      ("targetHash", Json.ofDigest u.targetHash), ("sourceVersionId", Json.ofNat u.sourceVersion)]

theorem known_members (u : UnsignedUpdate) : ∀ m ∈ u.members, m.1 ∈ fieldNames := by
  have hlast : ∀ m ∈ [("patch", u.patch.toJson), ("sourceHash", Json.ofDigest u.sourceHash),
      ("targetHash", Json.ofDigest u.targetHash), ("sourceVersionId", Json.ofNat u.sourceVersion)],
      m.1 ∈ fieldNames := by simp [fieldNames]
  exact fun m hm => List.forall_mem_append.2 ⟨Json.known_optional (by decide) _, hlast⟩ m
    (Members.mem_of_mem_ofList hm)

/-- An empty context is left out, and read as one. -/
theorem read_context (context : List String) :
    Json.orElse [] (Json.listOf? Json.string?)
      (if context = [] then none else some (.array (context.map .string))) = some context := by
  have hlist : ∀ texts, Json.listOf? Json.string? (.array (texts.map .string)) = some texts :=
    Json.listOf?_array fun _ => rfl
  cases context with
  | nil => rfl
  | cons c rest => exact hlist (c :: rest)

/-- The fields are read from any members in which the same is found under their names. -/
theorem read?_object {u : UnsignedUpdate} {taken : List String} {members : Members Json}
    (hfind : ∀ name ∈ fieldNames, Members.find? name members = Members.find? name u.members)
    (hextra : Members.without taken members = u.extra) :
    read? taken (.object members) = some u := by
  have hpairs : ∀ name, Members.find? name u.members = Members.last? name u.pairs := fun _ =>
    Members.find?_ofList _
  simp only [read?, Json.object?, Option.bind_eq_bind, Option.bind_some, hextra]
  rw [hfind "@context" (by decide), hfind "patch" (by decide), hfind "sourceHash" (by decide),
    hfind "targetHash" (by decide), hfind "sourceVersionId" (by decide)]
  simp [hpairs, pairs, read_context]

/-- An update without a proof is read as it was written. -/
theorem ofJson?_toJson {u : UnsignedUpdate} (h : u.extra.Beside fieldNames) :
    ofJson? u.toJson = some u :=
  read?_object (fun _ hname => h.find? hname) (h.without (Members.sorted_ofList _) u.known_members)

end UnsignedUpdate

namespace Update

/-- The names of all members that have fields. -/
def fieldNames : List String := "proof" :: UnsignedUpdate.fieldNames

/-- The further members of an update and of its proof have names of their own. -/
structure Tidy (u : Update) : Prop where
  unsigned : u.unsigned.extra.Beside fieldNames
  proof : u.proof.extra.Beside Proof.fieldNames

/-- A signed update is read as it was written. -/
theorem ofJson?_toJson {u : Update} (h : u.Tidy) : ofJson? u.toJson = some u := by
  have hproof : Members.find? "proof" (Members.override
      (Members.insert "proof" u.proof.toJson u.unsigned.members) u.unsigned.extra) =
        some u.proof.toJson := by
    rw [h.unsigned.find? (by decide), Members.find?_insert_self]
  have hread : UnsignedUpdate.read? fieldNames u.toJson = some u.unsigned := by
    refine UnsignedUpdate.read?_object ?_ ?_
    · intro name hname
      have hother : name ≠ "proof" := by
        rintro rfl
        exact absurd hname (by decide)
      rw [h.unsigned.find? (List.mem_cons_of_mem _ hname), Members.find?_insert_of_ne hother]
    · apply h.unsigned.without (Members.sorted_insert (Members.sorted_ofList _) _ _)
      intro m hm
      rcases Members.mem_of_mem_insert hm with rfl | hm
      · exact List.mem_cons_self
      · exact List.mem_cons_of_mem _ (u.unsigned.known_members m hm)
  rw [ofJson?]
  simp only [show "proof" :: UnsignedUpdate.fieldNames = fieldNames from rfl, hread]
  simp only [toJson, Json.member?, hproof, Option.bind_eq_bind, Option.bind_some,
    Proof.ofJson?_toJson h.proof]

end Update

end AnchoredDid
