import AnchoredDid.Update.Draft
import AnchoredDid.Proofs.Bytes.Base58
import AnchoredDid.Proofs.Update.RoundTrip
import AnchoredDid.Proofs.Validation

/-!
# What is signed is accepted

Making an update from a draft goes through the checks that validation makes
(`Draft.sign_advance`), so a signed update is accepted at its own source. That a signature verifies
under the key of the pair that made it is BIP-340's affair and stays a hypothesis, about the one
digest that is signed.
-/

namespace AnchoredDid

namespace Draft

variable {d : Draft} {pair : Keypair} {target : Document} {u : Update}

theorem target_eq_ok (h : d.target = .ok target) :
    d.source.isDeactivated = false ∧ d.patch.apply d.source.value = .ok target.value ∧
      target.id = d.source.id := by
  rw [Draft.target] at h
  split at h
  · cases h
  · next hactive =>
    split at h
    · cases h
    · next value hvalue =>
      split at h
      · cases h
      · next found hfound =>
        obtain rfl := Document.ofJson_eq_ok_iff.1 hfound
        split at h
        · next hid =>
          cases h
          exact ⟨Bool.eq_false_iff.2 hactive, hvalue, hid⟩
        · cases h

theorem checkSigner_eq_ok {id : String} (h : d.checkSigner id pair = .ok ()) :
    d.source.canInvoke id = true ∧
      ∃ method, d.source.method? id = some method ∧ method.key = .ok pair.publicKey := by
  rw [checkSigner] at h
  split at h
  · cases h
  · next method hmethod =>
    split at h
    · cases h
    · next hinvoke =>
      split at h
      · cases h
      · next key hkey =>
        split at h
        · next hpair => exact ⟨by simpa using hinvoke, method, hmethod, hpair ▸ hkey⟩
        · cases h

/-- The update without a proof that leads to a target. -/
def unsigned (d : Draft) (target : Document) : UnsignedUpdate :=
  ⟨UnsignedUpdate.contexts, d.patch, d.source.hash, target.hash, d.version, []⟩

/-- The proof of a method, before it is signed. -/
def invocation (d : Draft) (method : String) : Proof :=
  (Proof.unsigned method).invoking (rootCapability d.did)

theorem build_eq_ok_iff {unsigned : UnsignedUpdate} :
    d.build = .ok (unsigned, target) ↔ d.target = .ok target ∧ unsigned = d.unsigned target := by
  rw [build, bind_eq_ok_iff]
  constructor
  · rintro ⟨found, hfound, hbuilt⟩
    cases hbuilt
    exact ⟨hfound, rfl⟩
  · rintro ⟨htarget, rfl⟩
    exact ⟨target, htarget, rfl⟩

/-- Everything that is in a signed update. -/
theorem sign_eq_ok (h : d.sign pair = .ok u) :
    ∃ target method, d.target = .ok target ∧ d.signer = .ok method ∧
      d.checkSigner method pair = .ok () ∧
      u = ⟨d.unsigned target, (d.invocation method).signedBy pair (d.unsigned target).toJson⟩ := by
  obtain ⟨⟨unsigned, target⟩, hbuild, h⟩ := bind_eq_ok_iff.1 h
  obtain ⟨htarget, rfl⟩ := build_eq_ok_iff.1 hbuild
  obtain ⟨method, hsigner, h⟩ := bind_eq_ok_iff.1 h
  obtain ⟨_, hcheck, h⟩ := bind_eq_ok_iff.1 h
  exact ⟨target, method, htarget, hsigner, hcheck, (Except.ok.inj h).symm⟩

/-- What is signed, from the signer and from what the patch makes of the source. -/
theorem digest_of_sign {id : String} {value : Json} (signer : d.signer = .ok id)
    (patched : d.patch.apply d.source.value = .ok value) (h : d.sign pair = .ok u) :
    u.proof.digest u.unsigned.toJson = (d.invocation id).digest (UnsignedUpdate.toJson
      ⟨UnsignedUpdate.contexts, d.patch, d.source.value.hash, value.hash, d.version, []⟩) := by
  obtain ⟨target, method, htarget, hmethod, -, rfl⟩ := sign_eq_ok h
  obtain rfl : id = method := Except.ok.inj (signer.symm.trans hmethod)
  obtain rfl : value = target.value :=
    Except.ok.inj (patched.symm.trans (target_eq_ok htarget).2.1)
  rfl

/-- What is signed has no further members, so it is read as it was written. -/
theorem tidy_of_sign (h : d.sign pair = .ok u) : u.Tidy := by
  obtain ⟨target, method, -, -, -, rfl⟩ := sign_eq_ok h
  exact ⟨⟨.nil, fun _ hm => nomatch hm⟩, ⟨.nil, fun _ hm => nomatch hm⟩⟩

theorem checkProof_of_sign (h : d.sign pair = .ok u) : u.checkProof d.did = .ok () := by
  obtain ⟨target, method, -, -, -, rfl⟩ := sign_eq_ok h
  simp [Update.checkProof, invocation, Proof.unsigned, Proof.invoking, Proof.signedBy, pure,
    Except.pure]

/-- A signed update leads from its source to the target, if its signature verifies. -/
theorem sign_advance (anchored : d.source.Anchored) (h : d.sign pair = .ok u)
    (bip340 : pair.publicKey.verifies (u.proof.digest u.unsigned.toJson)
      (pair.sign (u.proof.digest u.unsigned.toJson)) = true) :
    ∃ target, d.target = .ok target ∧
      u.advance d.source d.version d.did = .ok ⟨target, d.version + 1, u.hash⟩ := by
  have hproof := checkProof_of_sign h
  obtain ⟨target, id, htarget, -, hcheck, rfl⟩ := sign_eq_ok h
  obtain ⟨hactive, hpatch, hid⟩ := target_eq_ok htarget
  obtain ⟨hinvoke, method, hmethod, hkey⟩ := checkSigner_eq_ok hcheck
  refine ⟨target, htarget, Update.advance_eq_ok_iff.2 ⟨?_, hproof, ?_, ?_, rfl, rfl⟩⟩
  · exact Update.checkSource_eq_ok_iff.2 ⟨hactive, rfl, rfl⟩
  · refine ⟨pair.publicKey, Update.signerKey_eq_ok_iff.2 ⟨?_, method, ?_, hkey⟩, ?_⟩
    · rwa [Document.canInvoke_absolute anchored]
    · rwa [Document.method?_absolute anchored]
    · exact Update.checkSignature_eq_ok_iff.2 (Proof.verify_eq_ok_iff.2
        ⟨rfl, rfl, _, _, rfl, Signature.ofMultibase_toMultibase _, bip340⟩)
  · exact Update.patched_eq_ok_iff.2 ⟨hpatch, hid⟩

end Draft

end AnchoredDid
