import AnchoredDid.Proofs.Signal.Aggregates

/-!
# Further sidecar entries

A sidecar may be put together from several sources. A signal that decodes to an update still does so
after any entries, readable or not, came in between, as long as none of them disputes an entry that
was there (`Signal.decode_mixed`): an update or an announcement of the same hash must read the same,
and a proof for the same root must verify to the same. Updates and announcements are found under
what is hashed from them, so two of them that differ have different hashes but for a collision. The
root of a proof is what the proof says; hence one that does not verify takes the place of one that
does (`Signal.decode_disputed`).
-/

namespace AnchoredDid

/-! ## Entries in between -/

/-- A list that is put together from two others, each in its own order. -/
inductive Interleaved {α : Type} : List α → List α → List α → Prop
  | nil : Interleaved [] [] []
  | left {xs ys zs : List α} (x : α) : Interleaved xs ys zs → Interleaved (x :: xs) ys (x :: zs)
  | right {xs ys zs : List α} (y : α) : Interleaved xs ys zs → Interleaved xs (y :: ys) (y :: zs)

namespace Interleaved

variable {α β : Type} {xs ys zs : List α}

theorem append (xs ys : List α) : Interleaved xs ys (xs ++ ys) := by
  induction xs with
  | cons x xs ih => exact .left x ih
  | nil =>
      induction ys with
      | nil => exact .nil
      | cons y ys ih => exact .right y ih

theorem refl (xs : List α) : Interleaved xs [] xs := by
  simpa using append xs []

/-- If all that is found in the second list is one value, then the last find in both lists is that
of the first list or this value. -/
theorem findSome?_reverse {find : α → Option β} {b : β} (h : Interleaved xs ys zs)
    (hfinds : ∀ y ∈ ys, ∀ c, find y = some c → c = b) :
    zs.reverse.findSome? find = xs.reverse.findSome? find ∨
      zs.reverse.findSome? find = some b := by
  induction h with
  | nil => exact .inl rfl
  | left x _ ih =>
      simp only [List.reverse_cons, List.findSome?_append]
      rcases ih hfinds with hsame | hfound
      · rw [hsame]
        exact .inl rfl
      · rw [hfound]
        exact .inr rfl
  | @right xs ys zs y _ ih =>
      simp only [List.reverse_cons, List.findSome?_append, List.findSome?_singleton]
      rcases ih fun z hz => hfinds z (List.mem_cons_of_mem y hz) with hsame | hfound
      · rw [hsame]
        cases hy : find y with
        | none => exact .inl Option.or_none
        | some c =>
            obtain rfl := hfinds y List.mem_cons_self c hy
            cases xs.reverse.findSome? find with
            | none => exact .inr rfl
            | some x => exact .inl rfl
      · rw [hfound]
        exact .inr rfl

end Interleaved

namespace DigestMap

variable {α β : Type} {read : Json → Option α} {digest : Json → α → Digest} {view : α → β}
  {values more larger : List Json} {d : Digest} {entry : α}

/-- Further values that can be read look like the values of the same digest that are there. -/
def Undisputed (read : Json → Option α) (digest : Json → α → Digest) (view : α → β)
    (values more : List Json) : Prop :=
  ∀ value ∈ values, ∀ other ∈ more, ∀ a b, read value = some a → read other = some b →
    digest other b = digest value a → view b = view a

/-- What cannot be read disputes nothing. -/
theorem undisputed_of_unreadable (h : ∀ other ∈ more, read other = none) :
    Undisputed read digest view values more := by
  intro value _ other hother a b _ hread
  rw [h other hother] at hread
  cases hread

/-- What is found under a digest looks the same after undisputed values came in between. -/
theorem get?_interleaved (h : Interleaved values more larger)
    (undisputed : Undisputed read digest view values more)
    (hget : get? (ofReadable read digest values) d = some entry) :
    (get? (ofReadable read digest larger) d).map view = some (view entry) := by
  rw [get?_ofReadable] at hget
  obtain ⟨value, hvalue, hentry⟩ := List.exists_of_findSome?_eq_some hget
  obtain ⟨hread, hdigest⟩ := entryAt?_eq_some.1 hentry
  have hfinds : ∀ other ∈ more, ∀ c, (entryAt? read digest d other).map view = some c →
      c = view entry := by
    intro other hother c hc
    obtain ⟨b, hb, rfl⟩ := Option.map_eq_some_iff.1 hc
    obtain ⟨hreadOther, hdigestOther⟩ := entryAt?_eq_some.1 hb
    exact undisputed value (List.mem_reverse.1 hvalue) other hother entry b hread hreadOther
      (hdigestOther.trans hdigest.symm)
  have hview : values.reverse.findSome? (Option.map view ∘ entryAt? read digest d) =
      some (view entry) := by
    rw [← List.map_findSome?, hget, Option.map_some]
  rw [get?_ofReadable, List.map_findSome?]
  rcases h.findSome?_reverse hfinds with hsame | hfound
  · exact hsame.trans hview
  · exact hfound

end DigestMap

/-! ## Signals -/

namespace Sidecar

/-- The entries of a second sidecar are put between those of the first. -/
structure Mixed (s more larger : Sidecar) : Prop where
  updates : Interleaved s.updates more.updates larger.updates
  announcements : Interleaved s.announcements more.announcements larger.announcements
  proofs : Interleaved s.proofs more.proofs larger.proofs

variable {s more larger : Sidecar}

/-- No further update has the hash of one that is there, unless it is the same update. -/
def UpdatesUndisputed (s more : Sidecar) : Prop :=
  DigestMap.Undisputed Update.ofJson? (fun raw _ => raw.hash) id s.updates more.updates

/-- No further announcement has the hash of one that is there, unless it is the same. -/
def AnnouncementsUndisputed (s more : Sidecar) : Prop :=
  DigestMap.Undisputed Announcement.ofJson? (fun _ a => a.hash) id s.announcements
    more.announcements

/-- No further proof is for the root of one that is there, unless it verifies to the same. -/
def ProofsUndisputed (s more : Sidecar) (did : String) : Prop :=
  DigestMap.Undisputed TreeProof.ofJson? (fun _ p => p.root) (TreeProof.verify · did) s.proofs
    more.proofs

theorem Mixed.get?_updates (h : Mixed s more larger) (undisputed : s.UpdatesUndisputed more)
    {d : Digest} {u : Update} (hget : s.index.updates.get? d = some u) :
    larger.index.updates.get? d = some u := by
  simpa [Sidecar.index] using DigestMap.get?_interleaved h.updates undisputed hget

theorem Mixed.get?_announcements (h : Mixed s more larger)
    (undisputed : s.AnnouncementsUndisputed more) {d : Digest} {a : Announcement}
    (hget : s.index.announcements.get? d = some a) :
    larger.index.announcements.get? d = some a := by
  simpa [Sidecar.index] using DigestMap.get?_interleaved h.announcements undisputed hget

theorem Mixed.get?_proofs (h : Mixed s more larger) {did : String}
    (undisputed : s.ProofsUndisputed more did) {d : Digest} {p : TreeProof}
    (hget : s.index.proofs.get? d = some p) :
    ∃ q, larger.index.proofs.get? d = some q ∧ q.verify did = p.verify did :=
  Option.map_eq_some_iff.1 (DigestMap.get?_interleaved h.proofs undisputed hget)

end Sidecar

/-- A proof verifies alike with a bitmap that is read alike. -/
theorem TreeProof.verify_of_decode {p : TreeProof} {collapsed : String}
    (h : Hex.decode collapsed = Hex.decode p.collapsed) (did : String) :
    verify { p with collapsed := collapsed } did = p.verify did := by
  have hbitmap : bitmap { p with collapsed := collapsed } = p.bitmap := by
    rw [bitmap, bitmap, h]
  rw [verify, verify, hbitmap]

namespace Signal

variable {s more larger : Sidecar} {signal : Signal} {did : String} {u : Update}

/-- Announced bytes still mean the same update hash. -/
theorem updateHash?_mixed {kind : BeaconKind} {bytes hash : Digest} (h : s.Mixed more larger)
    (announcements : s.AnnouncementsUndisputed more)
    (proofs : kind = .tree → s.ProofsUndisputed more did)
    (hhash : updateHash? s.index did bytes kind = some hash) :
    updateHash? larger.index did bytes kind = some hash := by
  cases kind with
  | singleton => exact hhash
  | announcement =>
      obtain ⟨a, ha, hfind⟩ := Option.bind_eq_some_iff.1 hhash
      exact Option.bind_eq_some_iff.2 ⟨a, h.get?_announcements announcements ha, hfind⟩
  | tree =>
      obtain ⟨p, hp, hverify⟩ := Option.bind_eq_some_iff.1 hhash
      obtain ⟨q, hq, hsame⟩ := h.get?_proofs (proofs rfl) hp
      refine Option.bind_eq_some_iff.2 ⟨q, hq, ?_⟩
      rw [hsame]
      exact hverify

/-- A signal that decodes to an update does so after any further entries, in any places, that
dispute none of those that are there. Proofs matter only to the signals of a tree. -/
theorem decode_mixed (h : s.Mixed more larger) (updates : s.UpdatesUndisputed more)
    (announcements : s.AnnouncementsUndisputed more)
    (proofs : signal.beacon.kind = .tree → s.ProofsUndisputed more did)
    (hdecode : signal.decode s.index did = some u) : signal.decode larger.index did = some u := by
  obtain ⟨bytes, hbytes, hrest⟩ := Option.bind_eq_some_iff.1 hdecode
  obtain ⟨hash, hhash, hupdate⟩ := Option.bind_eq_some_iff.1 hrest
  refine Option.bind_eq_some_iff.2 ⟨bytes, hbytes, Option.bind_eq_some_iff.2 ⟨hash, ?_, ?_⟩⟩
  · exact updateHash?_mixed h announcements proofs hhash
  · exact h.get?_updates updates hupdate

namespace Sample

/-- A further update, which is for another version. -/
def another : Update :=
  ⟨⟨[], [], Digest.zero, Digest.zero, 2, []⟩, Proof.unsigned "#key"⟩

/-- What another aggregator announced. -/
def elsewhere : Announcement := Announcement.ofCommitments [⟨"did:btcr2:three", Digest.zero, none⟩]

theorem hashes_ne : another.hash ≠ update.hash ∧
    elsewhere.hash ≠ (Announcement.ofCommitments commitments).hash := by
  have hhashes : another.hash ≠ update.hash := by
    simp only [Update.hash, Json.hash_eq]
    decide +kernel
  refine ⟨hhashes, ?_⟩
  simp only [elsewhere, commitments, Announcement.hash, Update.hash, Json.hash_eq]
  decide +kernel

/-- Another digest. -/
def beside (d : Digest) : Digest := ⟨d.bytes.map (· + 1), by simp⟩

theorem beside_ne (d : Digest) : beside d ≠ d := by
  intro h
  have hbytes : d.bytes.map (· + 1) = d.bytes := congrArg Digest.bytes h
  obtain ⟨b, rest, hcons⟩ := List.exists_cons_of_length_eq_add_one d.length_bytes
  rw [hcons, List.map_cons] at hbytes
  have hbyte : b + 1 = b := (List.cons.inj hbytes).1
  simp at hbyte

/-- A proof for the root of another tree. -/
def unrelated : TreeProof :=
  ⟨beside (SparseTree.ofCommitments commitments).root, none, none, "", []⟩

/-- The bitmap of an identifier's proof. -/
def bitmap (did : String) : Bytes :=
  Bytes.ofBits ((SparseTree.siblings (SparseTree.key did).bits
    (SparseTree.ofCommitments commitments).leaves).map Digest.isZero)

/-- The proof for an identifier with its bitmap in upper case. -/
def respelled (did : String) : TreeProof :=
  { (SparseTree.ofCommitments commitments).proof did with
    collapsed := String.ofList ((Hex.digits (bitmap did)).map Char.toUpper) }

theorem verify_respelled (did : String) :
    (respelled did).verify did = ((SparseTree.ofCommitments commitments).proof did).verify did := by
  have hupper : Hex.decode (String.ofList ((Hex.digits (bitmap did)).map Char.toUpper)) =
      .ok (bitmap did) := Hex.decode_upper (bitmap did)
  have hlower : Hex.decode ((SparseTree.ofCommitments commitments).proof did).collapsed =
      .ok (bitmap did) := Hex.decode_encode (bitmap did)
  exact TreeProof.verify_of_decode (hupper.trans hlower.symm) did

/-- Entries from another source. Some cannot be read, and some are about something else. One of the
proofs is about the same as the member's. -/
def further (did : String) : Sidecar where
  genesisDocument := none
  updates := [.null, another.toJson]
  announcements := [.null, elsewhere.toJson]
  proofs := [.null, unrelated.toJson, (respelled did).toJson]
  genesisHeight := none

/-- A member's sidecar with those between its entries. -/
def mixed (did : String) : Sidecar :=
  { sidecar did with
    updates := .null :: (sidecar did).updates ++ [another.toJson]
    announcements := .null :: (sidecar did).announcements ++ [elsewhere.toJson]
    proofs := .null :: unrelated.toJson :: (sidecar did).proofs ++ [(respelled did).toJson] }

theorem mixed_further (did : String) : (sidecar did).Mixed (further did) (mixed did) where
  updates := .right _ (.append _ _)
  announcements := .right _ (.append _ _)
  proofs := .right _ (.right _ (.append _ _))

theorem updates_undisputed (did : String) : (sidecar did).UpdatesUndisputed (further did) := by
  intro value hvalue other hother a b ha hb hdigest
  obtain rfl := List.mem_singleton.1 hvalue
  obtain rfl := Option.some.inj ((Update.ofJson?_toJson tidy_update).symm.trans ha)
  rcases List.mem_pair.1 hother with rfl | rfl
  · cases hb
  · exact absurd hdigest hashes_ne.1

theorem announcements_undisputed (did : String) :
    (sidecar did).AnnouncementsUndisputed (further did) := by
  intro value hvalue other hother a b ha hb hdigest
  obtain rfl := List.mem_singleton.1 hvalue
  obtain rfl := Option.some.inj ((Announcement.ofJson?_toJson _).symm.trans ha)
  rcases List.mem_pair.1 hother with rfl | rfl
  · cases hb
  · obtain rfl := Option.some.inj ((Announcement.ofJson?_toJson _).symm.trans hb)
    exact absurd hdigest hashes_ne.2

theorem proofs_undisputed (did : String) : (sidecar did).ProofsUndisputed (further did) did := by
  intro value hvalue other hother a b ha hb hdigest
  obtain rfl := List.mem_singleton.1 hvalue
  obtain rfl := Option.some.inj ((TreeProof.ofJson?_toJson _).symm.trans ha)
  rcases List.mem_cons.1 hother with rfl | hother
  · cases hb
  · rcases List.mem_pair.1 hother with rfl | rfl
    · obtain rfl := Option.some.inj ((TreeProof.ofJson?_toJson _).symm.trans hb)
      have hroot : beside (SparseTree.ofCommitments commitments).root =
          ((SparseTree.ofCommitments commitments).proof did).root := hdigest
      rw [SparseTree.root_proof] at hroot
      exact absurd hroot (beside_ne _)
    · obtain rfl := Option.some.inj ((TreeProof.ofJson?_toJson _).symm.trans hb)
      exact verify_respelled did

/-- A proof for the root of the tree that verifies for nobody: it has no bitmap. -/
def forged : TreeProof :=
  ⟨(SparseTree.ofCommitments commitments).root, none, none, "", []⟩

theorem decode_sidecar :
    (announcing .tree (SparseTree.ofCommitments commitments).root).decode
      (sidecar "did:btcr2:one").index "did:btcr2:one" = some update := by
  have hkeys : (commitments.map fun c => SparseTree.key c.did).Nodup := by decide +kernel
  rw [decode_tree rfl (announced?_announcing _ _) (proves_sidecar _),
    SparseTree.find?_ofCommitments, SparseTree.find?_commitment hkeys List.mem_cons_self,
    Option.map_some, Option.map_some, Option.bind_some]
  exact get?_update _

theorem root_forged : forged.root = (SparseTree.ofCommitments commitments).root := by
  rw [forged]

theorem verify_forged (did : String) : forged.verify did = .error .bitmapSize := rfl

end Sample

/-- Neither what cannot be read, nor what is about something else, nor a second proof that verifies
to the same takes a member's update away. -/
theorem decode_mixed_sample :
    (Sample.sidecar "did:btcr2:one").Mixed (Sample.further "did:btcr2:one")
      (Sample.mixed "did:btcr2:one") ∧
    (Sample.announcing .tree (SparseTree.ofCommitments Sample.commitments).root).decode
      (Sample.mixed "did:btcr2:one").index "did:btcr2:one" = some Sample.update := by
  have hmixed := Sample.mixed_further "did:btcr2:one"
  exact ⟨hmixed,
    decode_mixed hmixed (Sample.updates_undisputed _) (Sample.announcements_undisputed _)
      (fun _ => Sample.proofs_undisputed _) Sample.decode_sidecar⟩

/-- With no further update or announcement at all, a proof that verifies for nobody takes a member's
update away, as it says to be for the same root. -/
theorem decode_disputed :
    (Sample.sidecar "did:btcr2:one").Mixed ⟨none, [], [], [Sample.forged.toJson], none⟩
      ((Sample.sidecar "did:btcr2:one").addProof Sample.forged) ∧
    (Sample.announcing .tree (SparseTree.ofCommitments Sample.commitments).root).decode
      (Sample.sidecar "did:btcr2:one").index "did:btcr2:one" = some Sample.update ∧
    (Sample.announcing .tree (SparseTree.ofCommitments Sample.commitments).root).decode
      ((Sample.sidecar "did:btcr2:one").addProof Sample.forged).index "did:btcr2:one" = none := by
  refine ⟨⟨.refl _, .refl _, .append _ _⟩, Sample.decode_sidecar, ?_⟩
  have hproof : ((Sample.sidecar "did:btcr2:one").addProof Sample.forged).index.proofs.get?
      (SparseTree.ofCommitments Sample.commitments).root = some Sample.forged := by
    rw [← Sample.root_forged]
    exact Sidecar.get?_addProof _ _
  have hbeacon (d : Digest) : (Sample.announcing .tree d).beacon.kind = .tree := rfl
  rw [decode_of_announced (Sample.announced?_announcing _ _), hbeacon, updateHash?, hproof,
    Option.bind_some, Sample.verify_forged, Option.bind_none]

end Signal

end AnchoredDid
