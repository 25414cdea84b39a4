import AnchoredDid.Proofs.Sidecar
import AnchoredDid.Proofs.Update.Binding

/-!
# Entries and the hashes they are found under

A beacon announces the hash of what it was given, and that is what the sidecar holds. An update is
found under the hash of its value as supplied. An announcement is found under the hash of what is
written of it, which is the supplied one only as long as its digests are in lower case; otherwise
nothing with the supplied text is found under the supplied hash (`Sidecar.index_as_supplied`). An
update that was read is written and read again without a change, so the one that is put into a
sidecar is found under its hash (`Update.read_again`).
-/

namespace AnchoredDid

namespace Announcement

variable {raw : Json} {a b : Announcement}

/-- No digest that is announced has an upper-case digit. -/
def LowerCase (raw : Json) : Prop :=
  ∀ members, raw.object? = some members → ∀ m ∈ members, ∀ text, m.2.string? = some text →
    Hex.IsLower text

theorem ofJson?_eq_some (h : ofJson? raw = some a) : ∃ members, raw = .object members ∧
    List.Forall₂ (Members.Named fun d value => Json.digest? value = some d) a members := by
  obtain ⟨members, hmembers, hread⟩ := Option.bind_eq_some_iff.1 h
  cases raw with
  | object found =>
      cases hmembers
      have heach := Json.mapM_eq_some hread
      refine ⟨members, rfl, heach.imp fun m n hm => ?_⟩
      obtain ⟨d, hd, hpair⟩ := Option.bind_eq_some_iff.1 hm
      cases hpair
      exact .intro n.1 hd
  | _ => cases hmembers

/-- In lower case an announcement is written as it was supplied. -/
theorem LowerCase.toJson_eq (lower : LowerCase raw) (h : ofJson? raw = some a) :
    a.toJson = raw := by
  obtain ⟨members, rfl, heach⟩ := ofJson?_eq_some h
  refine congrArg Json.object ?_
  have hall := lower members rfl
  clear lower h
  induction heach with
  | nil => rfl
  | cons hfirst _ ih =>
      obtain ⟨name, hdigest⟩ := hfirst
      obtain ⟨hlower, hrest⟩ := List.forall_mem_cons.1 hall
      rw [List.map_cons, ih hrest, Json.ofDigest_of_digest? hdigest hlower]

/-- What cannot be told from a written announcement is in lower case. -/
theorem lowerCase_of_alike (h : a.toJson.Alike raw) : LowerCase raw := by
  cases h with
  | number left _ _ => cases left
  | object each =>
      rintro members ⟨⟩ m hm text htext
      obtain ⟨n, hn, hnamed⟩ := Json.exists_mem_of_forall₂ each hm
      obtain ⟨written, -, rfl⟩ := List.mem_map.1 hn
      rw [← (Members.named_iff.1 hnamed).2.string?_eq] at htext
      exact Option.some.inj htext ▸ Hex.isLower_encode written.2.bytes

theorem ordered_toJson (ordered : raw.Ordered) (h : ofJson? raw = some a) : a.toJson.Ordered := by
  obtain ⟨members, rfl, heach⟩ := ofJson?_eq_some h
  have hnames : a.map (·.1) = members.map (·.1) := by
    clear ordered h
    induction heach with
    | nil => rfl
    | cons hfirst _ ih => rw [List.map_cons, List.map_cons, ih, (Members.named_iff.1 hfirst).1]
  have hsorted := List.pairwise_map.2 ordered.sorted
  rw [← hnames, List.pairwise_map] at hsorted
  exact .object (List.pairwise_map.2 hsorted) (List.forall_mem_map.2 fun _ _ => .string _)

theorem integers_toJson (a : Announcement) : a.toJson.Integers fun _ => True :=
  .object (List.forall_mem_map.2 fun _ _ => .string _)

/-- Announcements with one text are one. -/
theorem eq_of_canonicalText_eq (ha : a.toJson.Ordered) (hb : b.toJson.Ordered)
    (h : a.toJson.canonicalText = b.toJson.canonicalText) : a = b :=
  Json.eq_of_write_eq a.ofJson?_toJson b.ofJson?_toJson
    (a.integers_toJson.eq_of_canonicalText_eq b.integers_toJson ha hb h)

end Announcement

namespace Sidecar

variable {s : Sidecar} {raw : Json}

/-- What is found under the hash of a value that is not in lower case has another text. -/
theorem found_of_not_lowerCase (ordered : ∀ value ∈ s.announcements, value.Ordered)
    (hraw : raw.Ordered) (hcase : ¬ Announcement.LowerCase raw) {b : Announcement}
    (h : s.index.announcements.get? raw.hash = some b) :
    b.hash = raw.hash ∧ b.toJson.canonicalText ≠ raw.canonicalText := by
  obtain ⟨value, hvalue, hread, hhash⟩ := DigestMap.of_get?_ofReadable h
  have hordered := Announcement.ordered_toJson (ordered value hvalue) hread
  refine ⟨hhash, fun hsame => hcase ?_⟩
  exact Announcement.lowerCase_of_alike (Json.alike_of_canonicalText_eq hordered hraw hsame)

/-- Under the hash of its value as supplied an update is found, read from that value or from a later
one of the same hash. An announcement is found under the hash of what is written of it, or in its
place a later one with the same hash, which is another only if the hashes of two texts coincide.
That is the hash of its value as supplied if its digests are in lower case. If not, then at most a
different text with the same hash is found under the supplied one. Values that cannot be read change
nothing. -/
theorem index_as_supplied (ordered : ∀ value ∈ s.announcements, value.Ordered) :
    (∀ before raw after u, s.updates = before ++ raw :: after → Update.ofJson? raw = some u →
      ∃ later ∈ raw :: after, ∃ v, Update.ofJson? later = some v ∧ later.hash = raw.hash ∧
        s.index.updates.get? raw.hash = some v) ∧
    (∀ before raw after a, s.announcements = before ++ raw :: after →
      Announcement.ofJson? raw = some a →
        (∃ later ∈ raw :: after, ∃ b, Announcement.ofJson? later = some b ∧ b.hash = a.hash ∧
          (b.toJson.canonicalText = a.toJson.canonicalText → b = a) ∧
          s.index.announcements.get? a.hash = some b) ∧
        (Announcement.LowerCase raw → a.hash = raw.hash) ∧
        (¬ Announcement.LowerCase raw → ∀ b, s.index.announcements.get? raw.hash = some b →
          b.hash = raw.hash ∧ b.toJson.canonicalText ≠ raw.canonicalText)) ∧
    (∀ before raw after, s.updates = before ++ raw :: after → Update.ofJson? raw = none →
      s.index = index { s with updates := before ++ after }) ∧
    ∀ before raw after, s.announcements = before ++ raw :: after →
      Announcement.ofJson? raw = none →
        s.index = index { s with announcements := before ++ after } := by
  refine ⟨?_, ?_, ?_, ?_⟩
  · intro before raw after u hsplit hread
    rw [index, hsplit]
    exact DigestMap.exists_get?_ofReadable before after hread rfl
  · intro before raw after a hsplit hread
    have hmem : ∀ later ∈ raw :: after, later ∈ s.announcements := fun later hlater =>
      hsplit ▸ List.mem_append_right before hlater
    have hraw := ordered raw (hmem raw List.mem_cons_self)
    refine ⟨?_, fun lower => ?_, fun hcase b => found_of_not_lowerCase ordered hraw hcase⟩
    · have hlookup : ∃ later ∈ raw :: after, ∃ b, Announcement.ofJson? later = some b ∧
          b.hash = a.hash ∧ s.index.announcements.get? a.hash = some b := by
        rw [index, hsplit]
        exact DigestMap.exists_get?_ofReadable before after hread rfl
      obtain ⟨later, hlater, b, hb, hhash, hfound⟩ := hlookup
      refine ⟨later, hlater, b, hb, hhash, ?_, hfound⟩
      exact Announcement.eq_of_canonicalText_eq
        (Announcement.ordered_toJson (ordered later (hmem later hlater)) hb)
        (Announcement.ordered_toJson hraw hread)
    · rw [Announcement.hash, lower.toJson_eq hread]
  · intro before raw after hsplit hread
    rw [index, index, hsplit, DigestMap.ofReadable_of_unreadable hread]
  · intro before raw after hsplit hread
    rw [index, index, hsplit, DigestMap.ofReadable_of_unreadable hread]

end Sidecar

namespace Sample

/-- An announcement for one identifier, with its digest spelled as given. -/
def announcementOf (digits : String) : Json :=
  Json.ofMembers [("did:btcr2:a", .string digits)]

/-- Thirty-two bytes in lower case. -/
def lowerDigits : String := String.ofList (List.replicate 64 'a')

/-- The same bytes in upper case. -/
def upperDigits : String := String.ofList (List.replicate 64 'A')

theorem ordered_announcementOf (digits : String) : (announcementOf digits).Ordered :=
  Json.ordered_ofMembers (List.forall_mem_singleton.2 (.string digits))

end Sample

namespace Sidecar

/-- An announcement in lower case is found among others, one of which spells it differently. -/
theorem index_as_supplied_sample : ∃ b : Announcement,
    b.hash = (Sample.announcementOf Sample.lowerDigits).hash ∧
      ({ empty with
        announcements := [Sample.announcementOf "0", Sample.announcementOf Sample.lowerDigits,
          Sample.announcementOf Sample.upperDigits] } : Sidecar).index.announcements.get?
            (Sample.announcementOf Sample.lowerDigits).hash = some b := by
  have ordered : ∀ value ∈ [Sample.announcementOf "0", Sample.announcementOf Sample.lowerDigits,
      Sample.announcementOf Sample.upperDigits], value.Ordered := by
    simp [Sample.ordered_announcementOf]
  have hsome : (Announcement.ofJson? (Sample.announcementOf Sample.lowerDigits)).isSome := by
    decide +kernel
  obtain ⟨a, ha⟩ := Option.isSome_iff_exists.1 hsome
  have hlower : Announcement.LowerCase (Sample.announcementOf Sample.lowerDigits) := by
    rintro members ⟨⟩
    refine List.forall_mem_singleton.2 ?_
    rintro text ⟨⟩
    rw [Hex.IsLower]
    decide +kernel
  obtain ⟨-, hannouncements, -⟩ :=
    index_as_supplied (s := { empty with announcements := _ }) ordered
  obtain ⟨⟨-, -, b, -, hhash, -, hfound⟩, hsame, -⟩ :=
    hannouncements [Sample.announcementOf "0"] _ [Sample.announcementOf Sample.upperDigits] a rfl ha
  rw [hsame hlower] at hhash hfound
  exact ⟨b, hhash, hfound⟩

/-- Not every announcement is found under the hash of its value as supplied: one in upper case is
not. -/
theorem announcement_not_as_supplied : ¬ ∀ (s : Sidecar) (before after : List Json) (raw : Json)
    (a : Announcement), (∀ value ∈ s.announcements, value.Ordered) →
      s.announcements = before ++ raw :: after → Announcement.ofJson? raw = some a →
        ∃ later ∈ raw :: after, ∃ b, Announcement.ofJson? later = some b ∧ later.hash = raw.hash ∧
          s.index.announcements.get? raw.hash = some b := by
  intro h
  have hsome : (Announcement.ofJson? (Sample.announcementOf Sample.upperDigits)).isSome := by
    decide +kernel
  obtain ⟨a, ha⟩ := Option.isSome_iff_exists.1 hsome
  have hdiffers : (Announcement.ofJson? (Sample.announcementOf Sample.upperDigits)).all fun a =>
      a.hash ≠ (Sample.announcementOf Sample.upperDigits).hash := by
    simp only [Announcement.hash, Json.hash_eq]
    decide +kernel
  obtain ⟨-, -, b, -, -, hfound⟩ :=
    h { empty with announcements := [Sample.announcementOf Sample.upperDigits] } [] [] _ a
      (List.forall_mem_singleton.2 (Sample.ordered_announcementOf _)) rfl ha
  obtain ⟨value, hvalue, hread, hhash⟩ := DigestMap.of_get?_ofReadable hfound
  rw [List.mem_singleton.1 hvalue] at hread
  rw [hread, Option.all_some, decide_eq_true_eq] at hdiffers
  exact hdiffers hhash

end Sidecar

/-! ## Updates that were read -/

namespace Update

/-- An update that was read is read again from what is written of it, so it keeps its hash and what
is signed of it. It is found under its hash in a sidecar that it was put into, whatever else is
there before it, as long as nothing behind it has that hash. -/
theorem read_again {raw : Json} {u : Update} (ordered : raw.Ordered) (h : ofJson? raw = some u) :
    ofJson? u.toJson = some u ∧
    (∀ v, ofJson? u.toJson = some v →
      v.hash = u.hash ∧ v.unsigned = u.unsigned ∧ v.proof.config = u.proof.config) ∧
    (∀ s : Sidecar, (s.addUpdate u).index.updates.get? u.hash = some u) ∧
    ∀ (s : Sidecar) (before after : List Json), s.updates = before ++ u.toJson :: after →
      (∀ later ∈ after, later.hash ≠ u.hash) → s.index.updates.get? u.hash = some u := by
  have tidy := tidy_of_ofJson? ordered h
  have hagain := ofJson?_toJson tidy
  refine ⟨hagain, fun v hv => ?_, fun s => ?_, fun s before after hsplit hothers => ?_⟩
  · obtain rfl : u = v := Option.some.inj (hagain.symm.trans hv)
    exact ⟨rfl, rfl, rfl⟩
  · rw [Sidecar.updates_addUpdate tidy, DigestMap.get?_put, if_pos rfl]
  · rw [Sidecar.index, hsplit]
    refine DigestMap.get?_ofReadable_of_later hagain rfl ?_
    exact fun later hlater _ _ hhash => absurd hhash (hothers later hlater)

/-- An update with a further member in its operation is read again, without that member. -/
theorem read_again_sample :
    ∃ u, ofJson? (Sample.suppliedUpdate (Sample.operationWith [("memo", "as supplied")])) = some u ∧
      ofJson? u.toJson = some u ∧
      (Sidecar.empty.addUpdate u).index.updates.get? u.hash = some u := by
  have hsome : (ofJson? (Sample.suppliedUpdate
      (Sample.operationWith [("memo", "as supplied")]))).isSome := by decide +kernel
  obtain ⟨u, hu⟩ := Option.isSome_iff_exists.1 hsome
  obtain ⟨hagain, -, hadded, -⟩ := read_again (Sample.ordered_suppliedUpdate
    (Sample.ordered_operationWith (List.forall_mem_singleton.2 (.string _)))) hu
  exact ⟨u, hu, hagain, hadded Sidecar.empty⟩

end Update

end AnchoredDid
