import AnchoredDid.Proofs.Json.Integers
import AnchoredDid.Proofs.Update.AsSupplied

/-!
# What the canonical texts of an update bind

The texts that are signed, of the configuration of the proof and of the update without it, are
values that are read back as what they were written from, further members included; and so is the
text that is hashed (`Update.ofJson?_toJson`). Without doubles no two values share a text. So
updates that were read share the signed texts only if they differ in the signature at most, and the
hashed text only if they are one (`Update.canonical_binding`).
-/

namespace AnchoredDid

namespace Members

variable {α : Type} {names fewer : List String} {extra base members : Members α}

theorem beside_without (sorted : members.Sorted) (names : List String) :
    (without names members).Beside names where
  sorted := sorted_without sorted names
  free m hm := by simpa using List.of_mem_filter hm

theorem Beside.mono (h : extra.Beside names) (hfewer : fewer ⊆ names) : extra.Beside fewer where
  sorted := h.sorted
  free m hm hname := h.free m hm (hfewer hname)

/-- Nothing is overridden by what is beside it. -/
theorem Beside.mem_override (h : extra.Beside names) (hbase : base.Sorted)
    (known : ∀ m ∈ base, m.1 ∈ names) {m : String × α} (hm : m ∈ base ∨ m ∈ extra) :
    m ∈ override base extra := by
  refine mem_of_find? ?_
  rcases hm with hm | hm
  · rw [h.find? (known m hm), find?_of_mem hbase hm]
  · rw [find?_override base h.sorted, find?_of_mem h.sorted hm, Option.some_or]

end Members

namespace Json

theorem canonicalText_eq_of_canonical_eq {v w : Json} (h : v.canonical = w.canonical) :
    v.canonicalText = w.canonicalText :=
  String.ofList_injective h

end Json

namespace Proof

variable {p q : Proof} {P : Int → Prop}

theorem beside_of_ofJson? {value : Json} (ordered : value.Ordered) (h : ofJson? value = some p) :
    p.extra.Beside fieldNames := by
  obtain ⟨members, rfl, -, -, hextra⟩ := ofJson?_eq_some h
  exact hextra ▸ Members.beside_without ordered.sorted fieldNames

theorem integers_config (h : p.extra.Beside fieldNames) (integers : p.toJson.Integers P) :
    p.config.toJson.Integers P :=
  .object (of_mem_toJson (p := p.config) (P := Json.Integers P) .string fun m hm =>
    integers.of_mem_object m
      (h.mem_override (Members.sorted_ofList _) p.known_ofList_pairs (.inr hm)))

/-- Proofs are one if they are written alike. -/
theorem eq_of_toJson_eq (hp : p.extra.Beside fieldNames) (hq : q.extra.Beside fieldNames)
    (h : p.toJson = q.toJson) : p = q :=
  Json.eq_of_write_eq (ofJson?_toJson hp) (ofJson?_toJson hq) h

end Proof

namespace UnsignedUpdate

variable {u v : UnsignedUpdate}

/-- Updates without proofs are one if they are written alike. -/
theorem eq_of_toJson_eq (hu : u.extra.Beside fieldNames) (hv : v.extra.Beside fieldNames)
    (h : u.toJson = v.toJson) : u = v :=
  Json.eq_of_write_eq (ofJson?_toJson hu) (ofJson?_toJson hv) h

end UnsignedUpdate

namespace Update

variable {raw : Json} {u v : Update} {P : Int → Prop}

theorem tidy_of_ofJson? (ordered : raw.Ordered) (h : ofJson? raw = some u) : u.Tidy := by
  obtain ⟨members, proof, rfl, -, hfound, hproof⟩ := ofJson?_eq_some h
  refine ⟨?_, Proof.beside_of_ofJson? ?_ hproof⟩
  · exact extra_eq h ▸ Members.beside_without ordered.sorted fieldNames
  · exact ordered.of_mem_object _ (Members.mem_of_find? hfound)

theorem Tidy.unsigned_beside (h : u.Tidy) : u.unsigned.extra.Beside UnsignedUpdate.fieldNames :=
  h.unsigned.mono (List.subset_cons_self _ _)

/-- Updates are one if they are written alike. -/
theorem eq_of_toJson_eq (hu : u.Tidy) (hv : v.Tidy) (h : u.toJson = v.toJson) : u = v :=
  Json.eq_of_write_eq (ofJson?_toJson hu) (ofJson?_toJson hv) h

theorem mem_toJson (h : u.Tidy) {m : String × Json} (hm : m ∈ u.known ∨ m ∈ u.unsigned.extra) :
    m ∈ Members.override u.known u.unsigned.extra :=
  h.unsigned.mem_override u.sorted_known u.names_known hm

theorem proof_mem_known (u : Update) : ("proof", u.proof.toJson) ∈ u.known :=
  Members.mem_of_find? (Members.find?_insert_self _ _ _)

theorem mem_known_of_mem_members {m : String × Json} (hm : m ∈ u.unsigned.members) :
    m ∈ u.known := by
  have hother : m.1 ≠ "proof" := fun hname =>
    absurd (hname ▸ u.unsigned.known_members m hm) (by decide)
  refine Members.mem_of_find? ?_
  rw [find?_known_of_ne hother, Members.find?_of_mem u.unsigned.sorted_members hm]

/-- An update has no numbers but its version and those of its patch and of further members. -/
theorem integers_toJson (version : P u.unsigned.sourceVersion)
    (patch : u.unsigned.patch.toJson.Integers P) (further : ∀ m ∈ u.unsigned.extra, m.2.Integers P)
    (proof : ∀ m ∈ u.proof.extra, m.2.Integers P) : u.toJson.Integers P := by
  refine .object fun m hm => ?_
  rcases Members.mem_of_mem_override hm with hm | hm
  · exact further m hm
  · rcases Members.mem_of_mem_insert hm with rfl | hm
    · exact .object (Proof.of_mem_toJson (P := Json.Integers P) .string proof)
    · exact UnsignedUpdate.of_mem_members .string
        (.array (List.forall_mem_map.2 fun text _ => .string text)) patch (.int version) m hm

/-- What is signed has no numbers but those of the update. -/
theorem integers_signed (h : u.Tidy) (integers : u.toJson.Integers P) :
    u.proof.config.toJson.Integers P ∧ u.unsigned.toJson.Integers P := by
  have hmember := integers.of_mem_object
  refine ⟨Proof.integers_config h.proof ?_, .object fun m hm => hmember m (mem_toJson h ?_)⟩
  · exact hmember _ (mem_toJson h (.inl u.proof_mem_known))
  · exact (Members.mem_of_mem_override hm).symm.imp mem_known_of_mem_members id

theorem ordered_signed (ordered : raw.Ordered) (h : ofJson? raw = some u) :
    u.proof.config.toJson.Ordered ∧ u.unsigned.toJson.Ordered := by
  obtain ⟨members, proof, rfl, hread, hfound, hproof⟩ := ofJson?_eq_some h
  obtain ⟨found, rfl, -, -, hextra⟩ := Proof.ofJson?_eq_some hproof
  have hordered := ordered.of_mem_object _ (Members.mem_of_find? hfound)
  refine ⟨Proof.ordered_of_extra (p := u.proof.config) fun m hm => ?_, ?_⟩
  · have hm : m ∈ u.proof.extra := hm
    exact hordered.of_mem_object m (List.mem_of_mem_filter (hextra ▸ hm))
  · refine .object (Members.sorted_override u.unsigned.sorted_members _) fun m hm => ?_
    rcases Members.mem_of_mem_override hm with hm | hm
    · exact ordered.of_mem_object m (List.mem_of_mem_filter (extra_eq h ▸ hm))
    · exact UnsignedUpdate.ordered_members ordered hread m hm

/-- Two updates that were read, and whose numbers are integers: if the two texts that are signed are
the same, the updates are the same but for the signature; if the texts that are hashed are the
same, so are the updates. -/
theorem canonical_binding {left right : Json} (leftOrdered : left.Ordered)
    (rightOrdered : right.Ordered) (hu : ofJson? left = some u) (hv : ofJson? right = some v)
    (uIntegers : u.toJson.Integers fun _ => True) (vIntegers : v.toJson.Integers fun _ => True) :
    (u.proof.config.toJson.canonical = v.proof.config.toJson.canonical →
      u.unsigned.toJson.canonical = v.unsigned.toJson.canonical →
        u.unsigned = v.unsigned ∧
          { u.proof with signature := v.proof.signature } = v.proof) ∧
    (u.toJson.canonical = v.toJson.canonical → u = v) := by
  have uTidy := tidy_of_ofJson? leftOrdered hu
  have vTidy := tidy_of_ofJson? rightOrdered hv
  refine ⟨fun hconfig hunsigned => ?_, fun hwhole => ?_⟩
  · obtain ⟨uConfig, uUnsigned⟩ := integers_signed uTidy uIntegers
    obtain ⟨vConfig, vUnsigned⟩ := integers_signed vTidy vIntegers
    obtain ⟨uConfigOrdered, uUnsignedOrdered⟩ := ordered_signed leftOrdered hu
    obtain ⟨vConfigOrdered, vUnsignedOrdered⟩ := ordered_signed rightOrdered hv
    have hunsignedJson := uUnsigned.eq_of_canonicalText_eq vUnsigned uUnsignedOrdered
      vUnsignedOrdered (Json.canonicalText_eq_of_canonical_eq hunsigned)
    have hconfigJson := uConfig.eq_of_canonicalText_eq vConfig uConfigOrdered
      vConfigOrdered (Json.canonicalText_eq_of_canonical_eq hconfig)
    have hsame : u.proof.config = v.proof.config :=
      Proof.eq_of_toJson_eq uTidy.proof vTidy.proof hconfigJson
    refine ⟨UnsignedUpdate.eq_of_toJson_eq uTidy.unsigned_beside vTidy.unsigned_beside
      hunsignedJson, ?_⟩
    exact congrArg (fun p : Proof => { p with signature := v.proof.signature }) hsame
  · exact eq_of_toJson_eq uTidy vTidy (uIntegers.eq_of_canonicalText_eq vIntegers
      (ordered_toJson leftOrdered hu) (ordered_toJson rightOrdered hv)
      (Json.canonicalText_eq_of_canonical_eq hwhole))

end Update

namespace Sample

/-- An update without a patch, with a remark in its proof. -/
def remarked (remark : Int) (signature : String) : Update where
  unsigned := ⟨[], [], .zero, .zero, 1, [("memo", .array [.int 0])]⟩
  proof := { Proof.unsigned "#key" with
    signature := some signature
    extra := [("remark", .int remark)] }

theorem tidy_remarked (remark : Int) (signature : String) : (remarked remark signature).Tidy where
  unsigned := ⟨List.pairwise_singleton _ _, List.forall_mem_singleton.2 (by decide)⟩
  proof := by
    have hname : "remark" ∉ Proof.fieldNames := by decide
    exact ⟨List.pairwise_singleton _ _, List.forall_mem_singleton.2 hname⟩

theorem ordered_remarked (remark : Int) (signature : String) :
    (remarked remark signature).toJson.Ordered := by
  refine .object (Members.sorted_override (Update.sorted_known _) _) fun m hm => ?_
  rcases Members.mem_of_mem_override hm with hm | hm
  · rw [List.mem_singleton.1 hm]
    exact .array (List.forall_mem_singleton.2 (.int 0))
  · rcases Members.mem_of_mem_insert hm with rfl | hm
    · exact Proof.ordered_of_extra (List.forall_mem_singleton.2 (.int remark))
    · exact UnsignedUpdate.of_mem_members .string (.array (List.forall_mem_nil _))
        (.array (List.forall_mem_nil _)) (.int _) m hm

theorem integers_remarked (remark : Int) (signature : String) :
    (remarked remark signature).toJson.Integers fun _ => True :=
  Update.integers_toJson trivial (.array (List.forall_mem_nil _))
    (List.forall_mem_singleton.2 (.array (List.forall_mem_singleton.2 (.int trivial))))
    (List.forall_mem_singleton.2 (.int trivial))

end Sample

namespace Update

/-- A remark in the proof is signed, and the signature is hashed. -/
theorem canonical_binding_sample :
    ((Sample.remarked 1 "z").proof.config.toJson.canonical ≠
      (Sample.remarked 2 "z").proof.config.toJson.canonical) ∧
    (Sample.remarked 1 "z").toJson.canonical ≠ (Sample.remarked 1 "y").toJson.canonical := by
  have hread : ∀ remark signature, ofJson? (Sample.remarked remark signature).toJson =
      some (Sample.remarked remark signature) := fun remark signature =>
    ofJson?_toJson (Sample.tidy_remarked remark signature)
  refine ⟨fun h => ?_, fun h => ?_⟩
  · obtain ⟨-, hproof⟩ := (canonical_binding (Sample.ordered_remarked _ _)
      (Sample.ordered_remarked _ _) (hread 1 "z") (hread 2 "z") (Sample.integers_remarked _ _)
      (Sample.integers_remarked _ _)).1 h rfl
    have hextra := congrArg Proof.extra hproof
    simp [Sample.remarked] at hextra
  · have hsame := (canonical_binding (Sample.ordered_remarked _ _) (Sample.ordered_remarked _ _)
      (hread 1 "z") (hread 1 "y") (Sample.integers_remarked _ _)
      (Sample.integers_remarked _ _)).2 h
    have hsignature := congrArg (fun u : Update => u.proof.signature) hsame
    simp [Sample.remarked] at hsignature

end Update

end AnchoredDid
