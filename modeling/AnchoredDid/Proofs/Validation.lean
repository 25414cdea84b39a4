import AnchoredDid.Update.Validation
import AnchoredDid.Proofs.Document
import AnchoredDid.Proofs.Outcome

/-!
# What an accepted update has passed

`Update.Authorises` says what makes an update lead from one document to the next: it is meant for
the version at hand, a method that may change the document signed it, and it hashes the document
that its patch leads to. `Update.advance_eq_ok_iff` takes validation apart check by check;
`Update.authorises_of_advance` is what all of them together come to.
-/

namespace AnchoredDid

namespace Proof

/-- A signature over a document that verifies under a key. -/
def Signs (p : Proof) (document : Json) (key : PublicKey) : Prop :=
  ∃ text signature, p.signature = some text ∧ Signature.ofMultibase text = .ok signature ∧
    key.verifies (p.digest document) signature = true

theorem verify_eq_ok_iff {p : Proof} {document : Json} {key : PublicKey} :
    p.verify document key = .ok () ↔
      p.type = dataIntegrity ∧ p.suite = bip340Suite ∧ p.Signs document key := by
  rw [verify, Signs]
  by_cases htype : p.type = dataIntegrity <;> by_cases hsuite : p.suite = bip340Suite <;>
    simp only [htype, hsuite, ne_eq, not_true_eq_false, not_false_eq_true, if_true, if_false,
      false_and, true_and, reduceCtorEq]
  cases hsignature : p.signature with
  | none => simp
  | some text =>
      cases hread : Signature.ofMultibase text with
      | error e => simp [hread]
      | ok signature =>
          by_cases hverifies : key.verifies (p.digest document) signature <;>
            simp [hread, hverifies]

end Proof

namespace Update

variable {u : Update} {current next : Document} {version : Nat} {did : String} {key : PublicKey}

theorem checkSource_eq_ok_iff :
    u.checkSource current version = .ok () ↔
      current.isDeactivated = false ∧ u.unsigned.sourceVersion = version ∧
        u.unsigned.sourceHash = current.hash := by
  rw [checkSource]
  by_cases hdeactivated : current.isDeactivated <;>
    by_cases hversion : u.unsigned.sourceVersion = version <;>
    by_cases hhash : u.unsigned.sourceHash = current.hash <;>
    simp [hdeactivated, hversion, hhash]

theorem signerKey_eq_ok_iff :
    u.signerKey current = .ok key ↔
      current.canInvoke (current.absolute u.proof.method) = true ∧
      ∃ method, current.method? (current.absolute u.proof.method) = some method ∧
        method.key = .ok key := by
  unfold signerKey
  dsimp only
  by_cases hinvoke : current.canInvoke (current.absolute u.proof.method)
  · cases hmethod : current.method? (current.absolute u.proof.method) with
    | none => simp [hinvoke]
    | some method => cases hkey : method.key <;> simp [hinvoke, hkey]
  · simp [hinvoke]

theorem checkSignature_eq_ok_iff :
    u.checkSignature key = .ok () ↔ u.proof.verify u.unsigned.toJson key = .ok () := by
  rw [checkSignature]
  split <;> simp_all

theorem patched_eq_ok_iff :
    u.patched current = .ok next ↔
      u.unsigned.patch.apply current.value = .ok next.value ∧ next.id = current.id := by
  constructor
  · intro h
    rw [patched] at h
    split at h
    · cases h
    · next value hvalue =>
      split at h
      · cases h
      · next found hfound =>
        obtain rfl := Document.ofJson_eq_ok_iff.1 hfound
        split at h
        · next hid =>
          cases h
          exact ⟨hvalue, hid⟩
        · cases h
  · rintro ⟨hvalue, hid⟩
    simp only [patched, hvalue, Document.ofJson_eq_ok_iff.2 rfl, hid, if_true]

/-- Validation is the conjunction of its checks. -/
theorem advance_eq_ok_iff {applied : Applied} :
    u.advance current version did = .ok applied ↔
      u.checkSource current version = .ok () ∧ u.checkProof did = .ok () ∧
      (∃ key, u.signerKey current = .ok key ∧ u.checkSignature key = .ok ()) ∧
      u.patched current = .ok applied.document ∧
      u.unsigned.targetHash = applied.document.hash ∧
      applied = ⟨applied.document, version + 1, u.hash⟩ := by
  constructor
  · intro h
    obtain ⟨_, hsource, h⟩ := bind_eq_ok_iff.1 h
    obtain ⟨_, hproof, h⟩ := bind_eq_ok_iff.1 h
    obtain ⟨key, hkey, h⟩ := bind_eq_ok_iff.1 h
    obtain ⟨_, hsignature, h⟩ := bind_eq_ok_iff.1 h
    obtain ⟨found, hpatched, h⟩ := bind_eq_ok_iff.1 h
    split at h
    · cases h
    · next hhash =>
      cases h
      exact ⟨hsource, hproof, ⟨key, hkey, hsignature⟩, hpatched, Decidable.not_not.1 hhash, rfl⟩
  · rintro ⟨hsource, hproof, ⟨key, hkey, hsignature⟩, hpatched, hhash, happlied⟩
    rw [happlied]
    simp only [advance, hsource, hproof, hkey, hsignature, hpatched, hhash, bind, Except.bind,
      ne_eq, not_true_eq_false, if_false]
    rfl

/-- At a version of 64 bits, a build that does not check its additions always answers. -/
theorem validate_unchecked (u : Update) (current : Document) (did : String)
    (h : version < Word.size) :
    u.validate .unchecked current version did = some (u.applyTo current version did) := by
  rw [validate, applyTo]
  cases hadvance : u.advance current version did with
  | error e => rfl
  | ok applied =>
      obtain ⟨-, -, -, -, -, happlied⟩ := advance_eq_ok_iff.1 hadvance
      rw [happlied, Build.succ?_unchecked h]
      rfl

/-- The version of 64 bits that validation answers with. -/
theorem applyTo_eq_ok_iff {applied : Applied} :
    u.applyTo current version did = .ok applied ↔
      ∃ next, u.advance current version did = .ok next ∧ applied = next.truncated := by
  rw [applyTo]
  cases u.advance current version did with
  | error e => simp [Except.map]
  | ok next => simp [Except.map, eq_comm]

/-- An accepted update is recorded by its own hash. -/
theorem advance_updateHash {applied : Applied}
    (h : u.advance current version did = .ok applied) : applied.updateHash = u.hash := by
  obtain ⟨-, -, -, -, -, happlied⟩ := advance_eq_ok_iff.1 h
  rw [happlied]

/-- The next document has the same id, so it is anchored if the current one is. -/
theorem advance_anchored (anchored : current.Anchored) {applied : Applied}
    (h : u.advance current version did = .ok applied) : applied.document.Anchored := by
  obtain ⟨-, -, -, hpatched, -⟩ := advance_eq_ok_iff.1 h
  rw [Document.Anchored, (patched_eq_ok_iff.1 hpatched).2]
  exact anchored

/-- What makes an update lead from a document at a version to the next one. The next document is a
valid one by its type. -/
structure Authorises (u : Update) (current : Document) (version : Nat) (next : Document) :
    Prop where
  active : current.isDeactivated = false
  sourceVersion : u.unsigned.sourceVersion = version
  sourceHash : u.unsigned.sourceHash = current.hash
  /-- The method that the proof names may change the document. -/
  named : current.absolute u.proof.method ∈ current.relationship Proof.invocation
  /-- The key that the document has for this method signed the update. -/
  signed : ∃ method key, current.method? u.proof.method = some method ∧ method.key = .ok key ∧
    u.proof.Signs u.unsigned.toJson key
  patched : u.unsigned.patch.apply current.value = .ok next.value
  id_eq : next.id = current.id
  targetHash : u.unsigned.targetHash = next.hash

/-- An accepted update is authorised. -/
theorem authorises_of_advance (anchored : current.Anchored) {applied : Applied}
    (h : u.advance current version did = .ok applied) :
    u.Authorises current version applied.document ∧ applied.version = version + 1 := by
  obtain ⟨hsource, -, ⟨key, hkey, hsignature⟩, hpatched, hhash, happlied⟩ := advance_eq_ok_iff.1 h
  obtain ⟨hactive, hversion, hsourceHash⟩ := checkSource_eq_ok_iff.1 hsource
  obtain ⟨hinvoke, method, hmethod, hmethodKey⟩ := signerKey_eq_ok_iff.1 hkey
  obtain ⟨-, -, hsigns⟩ := Proof.verify_eq_ok_iff.1 (checkSignature_eq_ok_iff.1 hsignature)
  obtain ⟨hpatch, hid⟩ := patched_eq_ok_iff.1 hpatched
  rw [Document.canInvoke_absolute anchored, Document.canInvoke, List.contains_iff_mem] at hinvoke
  rw [Document.method?_absolute anchored] at hmethod
  exact ⟨⟨hactive, hversion, hsourceHash, hinvoke, ⟨method, key, hmethod, hmethodKey, hsigns⟩,
    hpatch, hid, hhash⟩, by rw [happlied]⟩

end Update

end AnchoredDid
