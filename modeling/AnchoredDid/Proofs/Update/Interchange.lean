import AnchoredDid.Proofs.Document.Alike
import AnchoredDid.Proofs.Patch.Alike
import AnchoredDid.Proofs.Publication

/-!
# Documents with the same hash stand for each other

Hashes know a document by its canonical text. A candidate fares the same on all documents with one
text, down to the reason for which it is rejected, as long as no test in its patch compares with a
number. Such a test can fail on the one and pass on the other, since it tells 1 from 1.0 and the
text does not; nothing else can part them (`Update.applyTo_interchange`).
-/

namespace AnchoredDid

/-- The same version by the same update, with documents of one canonical text. -/
structure Applied.Alike (a b : Applied) : Prop where
  canonicalText : a.document.value.canonicalText = b.document.value.canonicalText
  version : a.version = b.version
  updateHash : a.updateHash = b.updateHash

theorem Applied.Alike.truncated {a b : Applied} (h : a.Alike b) : a.truncated.Alike b.truncated :=
  ⟨h.canonicalText, congrArg (· % Word.size) h.version, h.updateHash⟩

namespace Update

variable {u : Update} {d₁ d₂ : Document} {version : Nat} {did : String}

/-- What is checked before the patch is applied. -/
def vet (u : Update) (current : Document) (version : Nat) (did : String) :
    Except Rejection Unit := do
  u.checkSource current version
  u.checkProof did
  let key ← u.signerKey current
  u.checkSignature key

/-- What is checked of the patched document. -/
def conclude (u : Update) (version : Nat) (next : Document) : Except Rejection Applied :=
  if u.unsigned.targetHash ≠ next.hash then
    .error (.targetHashMismatch u.unsigned.targetHash next.hash)
  else .ok ⟨next, version + 1, u.hash⟩

theorem advance_eq (u : Update) (current : Document) (version : Nat) (did : String) :
    u.advance current version did =
      u.vet current version did >>= fun _ => u.patched current >>= u.conclude version := by
  simp only [advance, vet, bind_assoc]
  rfl

theorem vet_eq_of_alike (h : d₁.value.Alike d₂.value) :
    u.vet d₁ version did = u.vet d₂ version did := by
  have hsource : u.checkSource d₁ version = u.checkSource d₂ version := by
    rw [checkSource, checkSource, Document.isDeactivated_eq_of_alike h, Document.hash,
      Document.hash, h.hash_eq]
  have habsolute : d₁.absolute u.proof.method = d₂.absolute u.proof.method := by
    rw [Document.absolute, Document.absolute, Document.id_eq_of_alike h]
  have hkey : u.signerKey d₁ = u.signerKey d₂ := by
    rw [signerKey, signerKey, habsolute, Document.canInvoke_eq_of_alike h,
      Document.method?_eq_of_alike h]
  rw [vet, vet, hsource, hkey]

/-- The patched value as the next document. -/
def adopt (current : Document) (value : Json) : Except Rejection Document :=
  match Document.ofJson value with
  | .error e => .error (.malformedDocument (.invalid e))
  | .ok next =>
    if next.id = current.id then .ok next else .error (.malformedDocument (.idChanged next.id))

theorem patched_eq (u : Update) (current : Document) :
    u.patched current =
      match u.unsigned.patch.apply current.value with
      | .error e => .error (.malformedPatch e)
      | .ok value => adopt current value := rfl

theorem adopt_alike (h : d₁.value.Alike d₂.value) {x y : Json} (hxy : x.Alike y) :
    SameOutcome (fun a b : Document => a.value.Alike b.value) (adopt d₁ x) (adopt d₂ y) := by
  have hcheck := Document.check_eq_of_alike hxy
  cases hx : Document.check x with
  | error e =>
      rw [adopt, adopt, Document.ofJson_of_check_error hx,
        Document.ofJson_of_check_error (hcheck ▸ hx)]
      exact .error _
  | ok _ =>
      have hnext : Document.ofJson x = .ok ⟨x, hx⟩ := Document.ofJson_eq_ok_iff.2 rfl
      have hother : Document.ofJson y = .ok ⟨y, hcheck ▸ hx⟩ := Document.ofJson_eq_ok_iff.2 rfl
      have hid : Document.id ⟨x, hx⟩ = Document.id ⟨y, hcheck ▸ hx⟩ := Document.id_eq_of_alike hxy
      rw [adopt, adopt, hnext, hother]
      simp only [hid, Document.id_eq_of_alike h]
      split
      · exact .ok hxy
      · exact .error _

theorem conclude_alike {next next' : Document} (h : next.value.Alike next'.value) :
    SameOutcome Applied.Alike (u.conclude version next) (u.conclude version next') := by
  have hhash : next.hash = next'.hash := h.hash_eq
  rw [conclude, conclude, hhash]
  split
  · exact .error _
  · exact .ok ⟨h.canonicalText_eq, rfl, rfl⟩

theorem advance_alike (h : d₁.value.Alike d₂.value) (hsteady : u.unsigned.patch.Steady) :
    SameOutcome Applied.Alike (u.advance d₁ version did) (u.advance d₂ version did) := by
  rw [advance_eq, advance_eq, vet_eq_of_alike h]
  refine .bind_same _ fun _ => SameOutcome.bind ?_ fun _ _ hnext => conclude_alike hnext
  have hpatch := Patch.apply_alike hsteady h
  rw [patched_eq, patched_eq]
  generalize u.unsigned.patch.apply d₁.value = x, u.unsigned.patch.apply d₂.value = y at hpatch
  cases hpatch with
  | error e => exact .error _
  | ok hxy => exact adopt_alike h hxy

theorem advance_of_alike (h : d₁.value.Alike d₂.value) {a₁ : Applied}
    (haccepted : u.advance d₁ version did = .ok a₁) :
    (∃ a₂, u.advance d₂ version did = .ok a₂ ∧ a₁.Alike a₂) ∨
      ∃ path value, .test path value ∈ u.unsigned.patch ∧ value.numberFree = false ∧
        u.advance d₂ version did = .error (.malformedPatch (.testFailed path)) := by
  rw [advance_eq] at haccepted ⊢
  obtain ⟨_, hvet, haccepted⟩ := bind_eq_ok_iff.1 haccepted
  rw [← vet_eq_of_alike h, hvet]
  rw [patched_eq] at haccepted ⊢
  cases hpatch : u.unsigned.patch.apply d₁.value with
  | error e =>
      rw [hpatch] at haccepted
      cases haccepted
  | ok x =>
      rw [hpatch] at haccepted
      rcases Patch.apply_of_alike h hpatch with ⟨y, hy, hxy⟩ | ⟨path, value, hmem, hnumber, hfails⟩
      · have hsame : SameOutcome Applied.Alike (adopt d₁ x >>= u.conclude version)
            (adopt d₂ y >>= u.conclude version) :=
          (adopt_alike h hxy).bind fun _ _ => conclude_alike
        rw [haccepted] at hsame
        rw [hy]
        exact .inl hsame.exists_of_ok
      · rw [hfails]
        exact .inr ⟨path, value, hmem, hnumber, rfl⟩

/-- A candidate whose tests compare with no number fares the same on alike documents. -/
theorem applyTo_alike (h : d₁.value.Alike d₂.value) (hsteady : u.unsigned.patch.Steady) :
    SameOutcome Applied.Alike (u.applyTo d₁ version did) (u.applyTo d₂ version did) :=
  (advance_alike h hsteady).map fun _ _ => Applied.Alike.truncated

/-- A candidate that is accepted on a document is accepted on every alike one, unless it tests a
number. -/
theorem applyTo_of_alike (h : d₁.value.Alike d₂.value) {a₁ : Applied}
    (haccepted : u.applyTo d₁ version did = .ok a₁) :
    (∃ a₂, u.applyTo d₂ version did = .ok a₂ ∧ a₁.Alike a₂) ∨
      ∃ path value, .test path value ∈ u.unsigned.patch ∧ value.numberFree = false ∧
        u.applyTo d₂ version did = .error (.malformedPatch (.testFailed path)) := by
  obtain ⟨next, hadvance, rfl⟩ := applyTo_eq_ok_iff.1 haccepted
  rcases advance_of_alike h hadvance with ⟨a₂, ha₂, halike⟩ | ⟨path, value, hmem, hnumber, hfails⟩
  · exact .inl ⟨a₂.truncated, applyTo_eq_ok_iff.2 ⟨a₂, ha₂, rfl⟩, halike.truncated⟩
  · refine .inr ⟨path, value, hmem, hnumber, ?_⟩
    rw [applyTo, hfails]
    rfl

/-- Documents with one canonical text stand for each other. A candidate leads from both to documents
with one text, or is rejected on both for the same reason, if no test in its patch compares with a
number. Otherwise such a test is all that can keep a candidate that is accepted on one of them from
being accepted on the other. -/
theorem applyTo_interchange (ordered₁ : d₁.value.Ordered) (ordered₂ : d₂.value.Ordered)
    (same : d₁.value.canonicalText = d₂.value.canonicalText) (u : Update) (version : Nat)
    (did : String) :
    (u.unsigned.patch.Steady →
      SameOutcome Applied.Alike (u.applyTo d₁ version did) (u.applyTo d₂ version did)) ∧
    ∀ a₁, u.applyTo d₁ version did = .ok a₁ →
      (∃ a₂, u.applyTo d₂ version did = .ok a₂ ∧ a₁.Alike a₂) ∨
      ∃ path value, .test path value ∈ u.unsigned.patch ∧ value.numberFree = false ∧
        u.applyTo d₂ version did = .error (.malformedPatch (.testFailed path)) := by
  have halike := Json.alike_of_canonicalText_eq ordered₁ ordered₂ same
  exact ⟨applyTo_alike halike, fun _ => applyTo_of_alike halike⟩

end Update

/-! ## A sample -/

namespace Sample

/-- The double 1.0. -/
def one : Double := ⟨false, 4503599627370496, -52⟩

/-- The generator's key as the method of a document. -/
def keyMethod : Json :=
  Json.ofMembers [("id", "#key"), ("type", "Multikey"), ("controller", ""),
    ("publicKeyMultibase", "zQ3shVc2UkAfJCdc1TR8E66J85h48P43r93q8jGPkPpjF9Ef9")]

/-- What is in a document with a number and a method that may invoke. -/
def numberedMembers (n : Json) : List (String × Json) :=
  [("id", "did:x"), ("n", n), ("capabilityInvocation", .array [keyMethod])]

def numbered (n : Json) : Json := Json.ofMembers (numberedMembers n)

theorem ordered_numbered {n : Json} (hn : n.Ordered) : (numbered n).Ordered := by
  have hmethod : keyMethod.Ordered := Json.ordered_ofMembers (by simp [Json.Ordered.string])
  refine Json.ordered_ofMembers ?_
  simp only [numberedMembers, List.forall_mem_cons, List.not_mem_nil, false_implies, implies_true,
    and_true]
  exact ⟨.string _, hn, .array (List.forall_mem_singleton.2 hmethod)⟩

/-- The document with the integer. -/
def whole : Document := ⟨numbered (.int 1), eq_ok_of_toOption (by decide +kernel)⟩

theorem anchored_whole : whole.Anchored :=
  show whole.id.toList.head? ≠ some '#' by decide +kernel

/-- The document with the double. -/
def rounded : Document := ⟨numbered (.double one), eq_ok_of_toOption (by decide +kernel)⟩

theorem canonicalText_rounded : whole.value.canonicalText = rounded.value.canonicalText := by
  decide +kernel

/-- A draft of a patch for the document with the integer. -/
def wholeDraft (version : Nat) (patch : Patch) : Draft := ⟨"did:x", whole, version, patch, none⟩

/-- Deactivate the document if its number is the integer. -/
def testing : Patch := [.test "/n" (.int 1), .add "/deactivated" (.bool true)]

/-- Deactivate the document if its id is the expected one. -/
def settled : Patch := [.test "/id" "did:x", .add "/deactivated" (.bool true)]

def wholeTarget : Json :=
  Json.ofMembers (("deactivated", .bool true) :: numberedMembers (.int 1))

def wholeHash : Digest :=
  digest 0x4e96180a22f7bf646764aaee162f6cb4b43552e3618f56730ef31fe12357f72d

def wholeTargetHash : Digest :=
  digest 0x78d0e05ad3ac24c8525206b24936fa95d79a54404aaee9bba4d5f26e8ecb5211

theorem wholeHashes : whole.value.hash = wholeHash ∧ wholeTarget.hash = wholeTargetHash := by
  simp only [Json.hash_eq]
  decide +kernel

/-- What is signed of a draft that leads to the target. -/
def wholeDigest (version : Nat) (patch : Patch) : Digest :=
  ((Proof.unsigned "did:x#key").invoking (rootCapability "did:x")).digest
    (UnsignedUpdate.toJson
      ⟨UnsignedUpdate.contexts, patch, wholeHash, wholeTargetHash, version, []⟩)

/-- A draft whose digest is known is signed, with a signature that verifies. -/
theorem exists_signed {version : Nat} {patch : Patch} {signed : Digest}
    (patched : patch.apply whole.value = .ok wholeTarget)
    (hdigest : wholeDigest version patch = signed)
    (bip340 : pair.publicKey.verifies signed (pair.sign signed) = true)
    (signable : ((wholeDraft version patch).sign pair).toOption.isSome = true) :
    ∃ u, (wholeDraft version patch).sign pair = .ok u ∧
      pair.publicKey.verifies (u.proof.digest u.unsigned.toJson)
        (pair.sign (u.proof.digest u.unsigned.toJson)) = true := by
  obtain ⟨u, hu⟩ := Option.isSome_iff_exists.1 signable
  have hsigned : (wholeDraft version patch).sign pair = .ok u := eq_ok_of_toOption hu
  -- The signer is read from the source alone, so any patch will do.
  have hsigner : (wholeDraft 1 []).signer = .ok "did:x#key" := eq_ok_of_toOption (by decide +kernel)
  have hsource : (wholeDraft version patch).source.value.hash = wholeHash := wholeHashes.1
  have hsame : u.proof.digest u.unsigned.toJson = signed := by
    rw [Draft.digest_of_sign (d := wholeDraft version patch) hsigner patched hsigned, hsource,
      wholeHashes.2]
    exact hdigest
  exact ⟨u, hsigned, hsame ▸ bip340⟩

/-- It is accepted on the document with the integer. -/
theorem exists_accepted {patch : Patch} {signed : Digest}
    (patched : patch.apply whole.value = .ok wholeTarget) (hdigest : wholeDigest 1 patch = signed)
    (bip340 : pair.publicKey.verifies signed (pair.sign signed) = true)
    (signable : ((wholeDraft 1 patch).sign pair).toOption.isSome = true) :
    ∃ (u : Update) (a : Applied), u.unsigned.patch = patch ∧
      u.applyTo whole 1 "did:x" = .ok a := by
  obtain ⟨u, hsigned, hverifies⟩ := exists_signed patched hdigest bip340 signable
  obtain ⟨target, -, hadvance⟩ := Draft.sign_advance anchored_whole hsigned hverifies
  obtain ⟨_, _, -, -, -, hupdate⟩ := Draft.sign_eq_ok hsigned
  have hpatch : u.unsigned.patch = patch := congrArg (fun u => u.unsigned.patch) hupdate
  exact ⟨u, _, hpatch, Update.applyTo_eq_ok_iff.2 ⟨_, hadvance, rfl⟩⟩

theorem exists_testing : ∃ (u : Update) (a : Applied),
    u.unsigned.patch = testing ∧ u.applyTo whole 1 "did:x" = .ok a := by
  have hdigest : wholeDigest 1 testing =
      digest 0xad07e9ddb3019ac0937dd7cba320eaf708304b09053b25a773bce491e964c515 := by
    simp only [wholeDigest, Proof.digest, Json.hash_eq]
    decide +kernel
  exact exists_accepted rfl hdigest (by decide +kernel) (by decide +kernel)

theorem exists_settled : ∃ (u : Update) (a : Applied),
    u.unsigned.patch = settled ∧ u.applyTo whole 1 "did:x" = .ok a := by
  have hdigest : wholeDigest 1 settled =
      digest 0x42a83375724b229978f49e128af0f74660036c583dd68bd8a36e44c5445b1478 := by
    simp only [wholeDigest, Proof.digest, Json.hash_eq]
    decide +kernel
  exact exists_accepted rfl hdigest (by decide +kernel) (by decide +kernel)

end Sample

namespace Update

/-- An update that tests the id is accepted on the document with the double as well, and leads to
documents that are alike. -/
theorem applyTo_interchange_sample : ∃ (u : Update) (a₁ a₂ : Applied),
    u.unsigned.patch = Sample.settled ∧ u.applyTo Sample.whole 1 "did:x" = .ok a₁ ∧
      u.applyTo Sample.rounded 1 "did:x" = .ok a₂ ∧ a₁.Alike a₂ := by
  obtain ⟨u, a₁, hpatch, haccepted⟩ := Sample.exists_settled
  have hsteady : u.unsigned.patch.Steady := by
    rw [hpatch]
    decide
  have hsame := (applyTo_interchange (Sample.ordered_numbered (.int 1))
    (Sample.ordered_numbered (.double Sample.one)) Sample.canonicalText_rounded u 1 "did:x").1
      hsteady
  rw [haccepted] at hsame
  obtain ⟨a₂, haccepted₂, halike⟩ := hsame.exists_of_ok
  exact ⟨u, a₁, a₂, hpatch, haccepted, haccepted₂, halike⟩

/-- Documents with one canonical text do not always stand for each other: the test passes on one of
these two and fails on the other. -/
theorem not_interchangeable : ¬ ∀ (d₁ d₂ : Document) (u : Update) (version : Nat) (did : String),
    d₁.value.Ordered → d₂.value.Ordered → d₁.value.canonicalText = d₂.value.canonicalText →
      ((∃ a₁, u.applyTo d₁ version did = .ok a₁) ↔ ∃ a₂, u.applyTo d₂ version did = .ok a₂) := by
  intro h
  obtain ⟨u, a, hpatch, haccepted⟩ := Sample.exists_testing
  obtain ⟨a₂, hother⟩ := (h _ _ u 1 "did:x" (Sample.ordered_numbered (.int 1))
    (Sample.ordered_numbered (.double Sample.one)) Sample.canonicalText_rounded).1 ⟨a, haccepted⟩
  obtain ⟨_, hadvance, -⟩ := applyTo_eq_ok_iff.1 hother
  obtain ⟨-, -, -, hpatched, -⟩ := advance_eq_ok_iff.1 hadvance
  have happly := (patched_eq_ok_iff.1 hpatched).1
  have hfails : Sample.testing.apply Sample.rounded.value = .error (.testFailed "/n") := by rfl
  rw [hpatch, hfails] at happly
  cases happly

end Update

end AnchoredDid
