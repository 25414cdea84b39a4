import AnchoredDid.Genesis
import AnchoredDid.Proofs.Document
import AnchoredDid.Proofs.Identifier
import AnchoredDid.Proofs.Json.Members

/-!
# The id of a genesis document

Whatever way the genesis document of an identifier is found, its id is the text of the identifier,
which is no relative reference. One that is supplied has the identifier's hash, and is filled in
with its text (`Genesis.ofExternal_eq_ok`).
-/

namespace AnchoredDid

theorem Identifier.head?_text (i : Identifier) : i.text.toList.head? = some 'd' := by
  rw [text, String.toList_append]
  rfl

theorem Identifier.kind_of_genesisHash? {i : Identifier} {hash : Digest}
    (h : i.genesisHash? = some hash) : i.kind = .external := by
  rw [genesisHash?] at h
  split at h
  · cases h
  · assumption

namespace Genesis

theorem member?_keyDocument (did : String) (key : PublicKey) (network : Network) :
    (keyDocument did key network).member? "id" = some (.string did) := by
  rw [keyDocument, Json.member?_ofMembers]
  rfl

variable {i : Identifier} {supplied : Option Json} {d : Document}

theorem ofKey_id (h : ofKey i = .ok d) : d.id = i.text := by
  rw [ofKey] at h
  repeat' split at h
  all_goals cases h
  rename_i key _ _ did hdid _ hd
  rw [Document.id, ← Document.ofJson_eq_ok_iff.1 hd, member?_keyDocument]
  exact (Identifier.encode_eq_ok_iff.1 hdid).1.symm

theorem ofExternal_id (h : ofExternal i supplied = .ok d) : d.id = i.text := by
  rw [ofExternal] at h
  repeat' split at h
  all_goals cases h
  rename_i did hdid _ _ hid
  exact hid.trans (Identifier.encode_eq_ok_iff.1 hdid).1.symm

/-- What is accepted has the identifier's hash, and is filled in with its text. -/
theorem ofExternal_eq_ok (h : ofExternal i supplied = .ok d) :
    ∃ value, supplied = some value ∧ i.genesisHash? = some value.hash ∧
      d.value = fill i.text.toList value := by
  rw [ofExternal] at h
  repeat' split at h
  all_goals cases h
  rename_i expected hexpected _ value hhash _ did hdid _ hdocument _
  refine ⟨value, rfl, ?_, ?_⟩
  · rw [hexpected, Decidable.not_not.1 hhash]
  · rw [(Identifier.encode_eq_ok_iff.1 hdid).1, Document.ofJson_eq_ok_iff.1 hdocument]

/-- A genesis document is named by its identifier. -/
theorem document_id (h : document i supplied = .ok d) : d.id = i.text := by
  rw [document] at h
  split at h
  · exact ofKey_id h
  · split at h
    · next found hfound =>
      cases h
      exact ofExternal_id hfound
    · cases h

/-- So references in it, and in every document of the same id, are made absolute once. -/
theorem document_anchored (h : document i supplied = .ok d) : d.Anchored := by
  rw [Document.Anchored, document_id h, i.head?_text]
  decide

/-- A supplied document of the identifier's hash becomes the genesis document, if it names itself by
the identifier. -/
theorem document_of_supplied {value : Json} {did : String} (hkind : i.kind = .external)
    (hhash : i.genesisHash? = some value.hash) (hdid : i.encode = .ok did)
    (hd : Document.ofJson (fill did.toList value) = .ok d) (hid : d.id = did) :
    document i (some value) = .ok d := by
  simp [document, hkind, ofExternal, hhash, hdid, hd, hid]

end Genesis

end AnchoredDid
