import AnchoredDid.Sidecar
import AnchoredDid.Proofs.Update.RoundTrip
import Mathlib.Data.List.Induction

/-!
# Looking up sidecar data

Of the values that can be read, the last one of a digest is found under it
(`DigestMap.get?_ofReadable`). What is put into a sidecar is read back as it was, so an update is
found under its own hash, and an announcement or a tree proof under its own as long as nothing else
behind it has the same (`Sidecar.get?_announcement`, `Sidecar.get?_proof`).
-/

namespace AnchoredDid

namespace DigestMap

variable {α : Type} {d e : Digest} {value : α}

theorem find?_filter_ne (map : DigestMap α) (h : d ≠ e) :
    (map.filter fun entry => entry.1 ≠ d).find? (fun entry => entry.1 = e) =
      map.find? fun entry => entry.1 = e := by
  induction map with
  | nil => rfl
  | cons entry rest ih =>
      by_cases hd : entry.1 = d
      · rw [List.filter_cons_of_neg (by simpa using hd), ih,
          List.find?_cons_of_neg (by simpa [hd] using h)]
      · rw [List.filter_cons_of_pos (by simpa using hd), List.find?_cons, List.find?_cons, ih]

theorem get?_put (map : DigestMap α) :
    (map.put d value).get? e = if d = e then some value else map.get? e := by
  simp only [put, get?]
  by_cases h : d = e
  · simp [h]
  · rw [List.find?_cons_of_neg (by simpa using h), find?_filter_ne map h, if_neg h]

section Readable

variable {read : Json → Option α} {digest : Json → α → Digest}

/-- The entry of a value, if it can be read and belongs under a digest. -/
def entryAt? (read : Json → Option α) (digest : Json → α → Digest) (d : Digest) (value : Json) :
    Option α :=
  (read value).filter fun entry => digest value entry = d

theorem entryAt?_eq_some {value : Json} {entry : α} :
    entryAt? read digest d value = some entry ↔
      read value = some entry ∧ digest value entry = d := by
  rw [entryAt?, Option.filter_eq_some_iff, decide_eq_true_eq]

/-- Of the values that can be read, the last one of a digest is found under it. -/
theorem get?_ofReadable (values : List Json) :
    get? (ofReadable read digest values) d = values.reverse.findSome? (entryAt? read digest d) := by
  induction values using List.reverseRecOn with
  | nil => rfl
  | append_singleton values value ih =>
      rw [ofReadable, List.foldl_append, ← ofReadable, List.reverse_append, List.reverse_singleton,
        List.singleton_append, List.findSome?_cons, List.foldl_cons, List.foldl_nil]
      cases hread : read value with
      | none => simp [entryAt?, hread, ih]
      | some entry =>
          by_cases hdigest : digest value entry = d
          · simp [entryAt?, hread, Option.filter, hdigest, get?_put]
          · simp [entryAt?, hread, Option.filter, hdigest, get?_put, ih]

/-- What is found was read from one of the values, and belongs under the digest. -/
theorem of_get?_ofReadable {values : List Json} {entry : α}
    (h : get? (ofReadable read digest values) d = some entry) :
    ∃ value ∈ values, read value = some entry ∧ digest value entry = d := by
  rw [get?_ofReadable] at h
  obtain ⟨value, hmem, hentry⟩ := List.exists_of_findSome?_eq_some h
  exact ⟨value, List.mem_reverse.1 hmem, entryAt?_eq_some.1 hentry⟩

/-- Under the digest of a value that can be read its entry is found, or the one of a value behind
it with the same digest. -/
theorem exists_get?_ofReadable (before after : List Json) {value : Json} {entry : α}
    (hread : read value = some entry) (hdigest : digest value entry = d) :
    ∃ later ∈ value :: after, ∃ other, read later = some other ∧ digest later other = d ∧
      get? (ofReadable read digest (before ++ value :: after)) d = some other := by
  have hvalue : entryAt? read digest d value = some entry := entryAt?_eq_some.2 ⟨hread, hdigest⟩
  rw [get?_ofReadable, List.reverse_append, List.findSome?_append]
  cases hfound : (value :: after).reverse.findSome? (entryAt? read digest d) with
  | none =>
      have hnone := List.findSome?_eq_none_iff.1 hfound value (by simp)
      rw [hvalue] at hnone
      cases hnone
  | some other =>
      obtain ⟨later, hmem, hother⟩ := List.exists_of_findSome?_eq_some hfound
      obtain ⟨hotherRead, hotherDigest⟩ := entryAt?_eq_some.1 hother
      exact ⟨later, List.mem_reverse.1 hmem, other, hotherRead, hotherDigest, rfl⟩

/-- A value is found under its digest if what comes behind it with the same digest reads the
same. -/
theorem get?_ofReadable_of_later {before after : List Json} {value : Json} {entry : α}
    (hread : read value = some entry) (hdigest : digest value entry = d)
    (hlater : ∀ later ∈ after, ∀ other, read later = some other → digest later other = d →
      other = entry) :
    get? (ofReadable read digest (before ++ value :: after)) d = some entry := by
  obtain ⟨later, hmem, other, hotherRead, hotherDigest, hfound⟩ :=
    exists_get?_ofReadable before after hread hdigest
  rw [hfound]
  rcases List.mem_cons.1 hmem with rfl | hmem
  · rw [← hotherRead, hread]
  · rw [hlater later hmem other hotherRead hotherDigest]

/-- A value that cannot be read leaves no trace. -/
theorem ofReadable_of_unreadable {before after : List Json} {value : Json}
    (h : read value = none) :
    ofReadable read digest (before ++ value :: after) =
      ofReadable read digest (before ++ after) := by
  simp only [ofReadable, List.foldl_append, List.foldl_cons, h]

end Readable

end DigestMap

/-! ## What is read back -/

@[simp] theorem Announcement.ofJson?_toJson (a : Announcement) : ofJson? a.toJson = some a := by
  change (a.map fun m => (m.1, Json.ofDigest m.2)).mapM
    (fun m => m.2.digest?.bind fun d => some (m.1, d)) = some a
  induction a with
  | nil => rfl
  | cons m a ih =>
      rw [List.map_cons, List.mapM_cons, ih]
      simp

@[simp] theorem TreeProof.ofJson?_toJson (p : TreeProof) : ofJson? p.toJson = some p := by
  have hdigest : ∀ d : Option Digest,
      Json.optionally Json.digest? (d.map Json.ofDigest) = some d :=
    Json.optionally_map Json.digest?_ofDigest fun _ => nofun
  have hhashes : Json.listOf? Json.digest? (.array (p.hashes.map Json.ofDigest)) = some p.hashes :=
    Json.listOf?_array Json.digest?_ofDigest p.hashes
  simp [ofJson?, toJson, Json.ofMembers, Json.fields?, Json.string?, hdigest, hhashes]

namespace Sidecar

variable {s : Sidecar} {u : Update}

@[simp] theorem announcements_addUpdate :
    (s.addUpdate u).index.announcements = s.index.announcements := rfl

@[simp] theorem proofs_addUpdate : (s.addUpdate u).index.proofs = s.index.proofs := rfl

/-- An update is put into the index under its own hash. -/
theorem updates_addUpdate (h : u.Tidy) :
    (s.addUpdate u).index.updates = s.index.updates.put u.hash u := by
  simp [index, addUpdate, DigestMap.ofReadable, List.foldl_append, Update.ofJson?_toJson h,
    Update.hash]

/-- A proof is in the sidecar, and it is the only one there for its root. -/
def Proves (s : Sidecar) (p : TreeProof) : Prop :=
  p.toJson ∈ s.proofs ∧
    ∀ value ∈ s.proofs, ∀ q, TreeProof.ofJson? value = some q → q.root = p.root → q = p

theorem proves_addProof {p : TreeProof} (h : s.proofs = []) : (s.addProof p).Proves p := by
  rw [Proves, addProof, h]
  refine ⟨List.mem_singleton_self _, ?_⟩
  rintro value hvalue q hread -
  rw [List.mem_singleton.1 hvalue, TreeProof.ofJson?_toJson] at hread
  exact (Option.some.inj hread).symm

/-- An announcement is found under its hash, unless a different one behind it has the same. -/
theorem get?_announcement {a : Announcement} {before after : List Json}
    (holds : s.announcements = before ++ a.toJson :: after)
    (unshadowed : ∀ value ∈ after, ∀ b, Announcement.ofJson? value = some b → b.hash = a.hash →
      b = a) :
    s.index.announcements.get? a.hash = some a := by
  rw [index, holds]
  exact DigestMap.get?_ofReadable_of_later a.ofJson?_toJson rfl unshadowed

theorem get?_proof {p : TreeProof} (h : s.Proves p) : s.index.proofs.get? p.root = some p := by
  obtain ⟨hmem, hsole⟩ := h
  obtain ⟨before, after, hsplit⟩ := List.append_of_mem hmem
  rw [index, hsplit]
  refine DigestMap.get?_ofReadable_of_later p.ofJson?_toJson rfl ?_
  intro value hvalue
  exact hsole value (by rw [hsplit]; simp [hvalue])

/-- Whatever proofs are there for its root, one that is added is found. -/
theorem get?_addProof (s : Sidecar) (p : TreeProof) :
    (s.addProof p).index.proofs.get? p.root = some p :=
  DigestMap.get?_ofReadable_of_later p.ofJson?_toJson rfl nofun

end Sidecar

end AnchoredDid
