import AnchoredDid.Proofs.Document.Methods
import AnchoredDid.Proofs.Update.Interchange

/-!
# Who can sign

Whether a method may sign is read from one relationship, and its key is looked up among all methods
of the document. The two agree where every method has an id of its own: then the key that an
accepted update is verified with belongs to the only method of an id that `capabilityInvocation`
names (`Update.signer_designated`). The checks of a document compare listed methods only, so a
method that another relationship holds can share an id with the one that may sign, and be found in
its place.
-/

namespace AnchoredDid

namespace Update

variable {u : Update} {d : Document} {version : Nat} {did : String}

/-- What was looked up to verify an accepted update. -/
theorem signer_of_applyTo {a : Applied} (h : u.applyTo d version did = .ok a) :
    d.canInvoke (d.absolute u.proof.method) = true ∧
    ∃ m key, d.method? (d.absolute u.proof.method) = some m ∧ m.key = .ok key ∧
      u.proof.Signs u.unsigned.toJson key := by
  obtain ⟨_, hadvance, -⟩ := applyTo_eq_ok_iff.1 h
  obtain ⟨-, -, ⟨key, hkey, hsignature⟩, -⟩ := advance_eq_ok_iff.1 hadvance
  obtain ⟨hinvoke, m, hm, hmethodKey⟩ := signerKey_eq_ok_iff.1 hkey
  obtain ⟨-, -, hsigns⟩ := Proof.verify_eq_ok_iff.1 (checkSignature_eq_ok_iff.1 hsignature)
  exact ⟨hinvoke, m, key, hm, hmethodKey, hsigns⟩

/-- Only the designated key can sign, if every method that a relationship holds has an id of its
own. No two methods share an id; a method that `capabilityInvocation` holds is what the document has
under its id; and an accepted update is signed with the key of the only method of an id that an
entry of `capabilityInvocation` names, which is the method in that entry if there is one. -/
theorem signer_designated (apart : d.Apart) :
    (d.methods.map Method.id).Nodup ∧
    (∀ m ∈ d.held Proof.invocation, (d.Anchored → d.method? m.id = some m) ∧
      ∀ reference, d.absolute reference = m.id → d.method? reference = some m) ∧
    ∀ (u : Update) (version : Nat) (did : String) (a : Applied), u.applyTo d version did = .ok a →
      ∃ m ∈ d.methods, ∃ key, m.key = .ok key ∧ u.proof.Signs u.unsigned.toJson key ∧
        (∀ other ∈ d.methods, other.id = m.id → other = m) ∧
        ∃ entry ∈ d.value.elements Proof.invocation, Document.entryRef? d.id entry = some m.id ∧
          ∀ e, entry.isObject = true → Document.readMethod? d.id entry = some e → e = m := by
  have hheld : Proof.invocation ∈ relationships := by decide
  refine ⟨apart.nodup_methods, fun m hm => ?_, fun u version did a haccepted => ?_⟩
  · have hmem := Document.mem_methods_of_mem_held hheld hm
    exact ⟨fun anchored => apart.method?_of_mem hmem (Document.absolute_id anchored hmem),
      fun reference => apart.method?_of_mem hmem⟩
  · obtain ⟨hinvoke, m, key, hm, hkey, hsigns⟩ := signer_of_applyTo haccepted
    have hmem : m ∈ d.methods := List.mem_of_find?_eq_some hm
    have hid : m.id = d.absolute (d.absolute u.proof.method) := by
      simpa using List.find?_some hm
    rw [Document.canInvoke, List.contains_iff_mem, ← hid] at hinvoke
    obtain ⟨entry, hentry, href⟩ := List.mem_filterMap.1 hinvoke
    refine ⟨m, hmem, key, hkey, hsigns,
      fun other hother hsame => apart.eq_of_id_eq hother hmem hsame,
      entry, hentry, href, fun e hobject hread => ?_⟩
    have he : e ∈ d.held Proof.invocation :=
      List.mem_filterMap.2 ⟨entry, List.mem_filter.2 ⟨hentry, hobject⟩, hread⟩
    exact apart.eq_of_id_eq (Document.mem_methods_of_mem_held hheld he) hmem
      (Document.id_of_entryRef? hobject href hread)

end Update

namespace Sample

theorem apart_whole : whole.Apart := by
  constructor <;> decide +kernel

/-- A method with an id and a key. -/
def methodWith (key : String) : Json :=
  Json.ofMembers [("id", "#k"), ("type", "Multikey"), ("controller", "did:x"),
    ("publicKeyMultibase", key)]

/-- Two relationships hold different methods under one id. -/
def shared : Document :=
  ⟨Json.ofMembers [("id", "did:x"),
    ("authentication", .array [methodWith "zQ3shjyJXUaRJC2GC43mX8aPrUhoTdoiongXhZjsdTzPKYZUM"]),
    ("capabilityInvocation",
      .array [methodWith "zQ3shS9i8ufXsDMmNUWAzJDryVeJeQjh2cQNVA6Sc3r9W8wnv"])],
    eq_ok_of_toOption (by decide +kernel)⟩

end Sample

namespace Update

theorem signer_designated_sample : ∃ (u : Update) (a : Applied),
    u.applyTo Sample.whole 1 "did:x" = .ok a ∧
    ∃ m ∈ Sample.whole.methods, ∃ key, m.key = .ok key ∧ u.proof.Signs u.unsigned.toJson key ∧
      m.id = "did:x#key" ∧ Sample.whole.method? m.id = some m := by
  obtain ⟨u, a, -, haccepted⟩ := Sample.exists_settled
  obtain ⟨-, hheld, hsigner⟩ := signer_designated Sample.apart_whole
  obtain ⟨m, hm, key, hkey, hsigns, -⟩ := hsigner u 1 "did:x" a haccepted
  have hmethods : Sample.whole.methods = Sample.whole.held Proof.invocation := by decide +kernel
  have anchored : Sample.whole.id.toList.head? ≠ some '#' := by decide +kernel
  have hid : ∀ m ∈ Sample.whole.methods, m.id = "did:x#key" := by decide +kernel
  exact ⟨u, a, haccepted, m, hm, key, hkey, hsigns, hid m hm, (hheld m (hmethods ▸ hm)).1 anchored⟩

/-- The method that `capabilityInvocation` holds is not always what is found under its id: here it
is the one that `authentication` holds. -/
theorem method_not_designated :
    ¬ ∀ d : Document, ∀ m ∈ d.held Proof.invocation, d.method? m.id = some m := by
  intro h
  have hother : ¬ ∀ m ∈ Sample.shared.held Proof.invocation,
      Sample.shared.method? m.id = some m := by decide +kernel
  exact hother (h Sample.shared)

end Update

end AnchoredDid
