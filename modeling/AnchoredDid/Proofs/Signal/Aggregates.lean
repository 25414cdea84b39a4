import AnchoredDid.Proofs.Signal
import AnchoredDid.Proofs.SparseTree
import Mathlib.Data.Fintype.Pigeonhole
import Mathlib.Data.Fintype.Vector
import Mathlib.Data.List.Nodup

/-!
# Aggregates

An aggregator commits an update hash for each of its members and publishes all of them at once: as
the hash of an announcement, or as the root of a tree. A member's signal leads to the member's own
update whichever it is, the same one that a singleton beacon would announce
(`Signal.decode_carried`).

The announcement has the members by their identifiers, the tree by the keys of these, so what both
must agree on is who is found: the last commitment for an identifier, which is the only one as the
keys differ (`SparseTree.find?_commitment`).

All of it is up to collisions of hashes. An announcement is found as long as no different one behind
it has its hash; and an identifier that is no member is led to none by the announcement, but by the
tree only if its key is no member's key either. A signal of a singleton beacon leads to the update
with the announced hash whoever asks, so strangers are not kept from that one
(`Signal.stranger_decodes`).
-/

namespace AnchoredDid

open SparseTree (Commitment)

/-! ## Commitments -/

instance : Finite Digest :=
  Finite.of_injective (β := List.Vector Bool 256) (fun d => ⟨d.bits, d.length_bits⟩)
    fun _ _ h => Digest.bits_injective (congrArg Subtype.val h)

namespace SparseTree

/-- Identifiers with different keys are different. -/
theorem nodup_dids {commitments : List Commitment}
    (h : (commitments.map fun c => key c.did).Nodup) :
    (commitments.map Commitment.did).Nodup :=
  List.Nodup.of_map key (by simpa [Function.comp_def] using h)

end SparseTree

namespace Announcement

/-- The announcement of commitments; it has no room for nonces. -/
def ofCommitments (commitments : List Commitment) : Announcement :=
  Members.ofList (commitments.map fun c => (c.did, c.update))

/-- An announcement has what was committed last for an identifier. -/
theorem find?_ofCommitments (commitments : List Commitment) (did : String) :
    Members.find? did (ofCommitments commitments) =
      (commitments.reverse.find? fun c => c.did = did).map Commitment.update := by
  rw [ofCommitments, Members.find?_ofList]
  induction commitments with
  | nil => rfl
  | cons c commitments ih =>
      rw [List.map_cons, Members.last?_cons, ih, List.reverse_cons, List.find?_append,
        Option.map_or]
      by_cases hdid : c.did = did <;> simp [hdid]

end Announcement

/-! ## Signals -/

namespace Signal

variable {s : Sidecar} {signal : Signal} {did : String} {bytes : Digest}

/-- The ways in which a signal carries the commitments of an aggregate, with what the sidecar must
hold for an identifier. -/
inductive Carried (commitments : List Commitment) (did : String) (s : Sidecar) (signal : Signal) :
    Prop
  /-- The hash of an announcement of all commitments, which no different announcement behind it
  has. -/
  | announced (kind : signal.beacon.kind = .announcement)
      (bytes : signal.announced? = some (Announcement.ofCommitments commitments).hash)
      {before after : List Json}
      (holds : s.announcements =
        before ++ (Announcement.ofCommitments commitments).toJson :: after)
      (unshadowed : ∀ value ∈ after, ∀ a, Announcement.ofJson? value = some a →
        a.hash = (Announcement.ofCommitments commitments).hash →
          a = Announcement.ofCommitments commitments)
  /-- The root of the tree of all commitments, for which the sidecar has this proof only. -/
  | proved (kind : signal.beacon.kind = .tree)
      (bytes : signal.announced? = some (SparseTree.ofCommitments commitments).root)
      (holds : s.Proves ((SparseTree.ofCommitments commitments).proof did))

theorem decode_of_announced (h : signal.announced? = some bytes) (index : SidecarIndex) :
    signal.decode index did =
      (updateHash? index did bytes signal.beacon.kind).bind index.updates.get? := by
  have hscript : Script.announced? signal.transaction = some bytes := h
  simp [decode, decodeFor, hscript]

/-- Under the hash of an announcement the sidecar's updates are looked up by what it has for the
identifier. -/
theorem decode_announcement {a : Announcement} (kind : signal.beacon.kind = .announcement)
    (bytes : signal.announced? = some a.hash)
    (found : s.index.announcements.get? a.hash = some a) :
    signal.decode s.index did = (Members.find? did a).bind s.index.updates.get? := by
  rw [decode_of_announced bytes, kind, updateHash?, found, Option.bind_some]

/-- The hash that a singleton beacon announces is looked up for anyone. -/
theorem decode_singleton (kind : signal.beacon.kind = .singleton)
    (h : signal.announced? = some bytes) (index : SidecarIndex) :
    signal.decode index did = index.updates.get? bytes := by
  rw [decode_of_announced h, kind]
  rfl

/-- Under the root of a tree they are looked up by what it holds for the identifier's key. -/
theorem decode_tree {t : SparseTree} (kind : signal.beacon.kind = .tree)
    (bytes : signal.announced? = some t.root) (holds : s.Proves (t.proof did)) :
    signal.decode s.index did =
      ((t.find? (SparseTree.key did)).map TreeEntry.update).bind s.index.updates.get? := by
  have hproof : s.index.proofs.get? t.root = some (t.proof did) := Sidecar.get?_proof holds
  rw [decode_of_announced bytes, kind, updateHash?, hproof, Option.bind_some,
    SparseTree.verify_proof]

/-- Let no two commitments of an aggregate be for one key. However they are carried, a signal
decodes for a member to the sidecar's update with the hash that was committed for it, and for any
other identifier to none, if its key is no member's where they are carried by the tree. Announced by
a singleton beacon, a hash that was committed leads anyone to that same update. -/
theorem decode_carried {commitments : List Commitment}
    (hkeys : (commitments.map fun c => SparseTree.key c.did).Nodup) :
    (∀ c ∈ commitments, ∀ s signal, Carried commitments c.did s signal →
      signal.decode s.index c.did = s.index.updates.get? c.update) ∧
    (∀ did ∉ commitments.map Commitment.did, ∀ s signal, Carried commitments did s signal →
      (signal.beacon.kind = .tree →
        SparseTree.key did ∉ commitments.map fun c => SparseTree.key c.did) →
      signal.decode s.index did = none) ∧
    ∀ c ∈ commitments, ∀ (s : Sidecar) (signal : Signal), signal.beacon.kind = .singleton →
      signal.announced? = some c.update → ∀ did,
        signal.decode s.index did = s.index.updates.get? c.update := by
  have hdids := SparseTree.nodup_dids hkeys
  refine ⟨?_, ?_, fun c _ s signal kind bytes did => decode_singleton kind bytes s.index⟩
  · intro c hc s signal carried
    cases carried with
    | announced kind bytes holds unshadowed =>
        rw [decode_announcement kind bytes (Sidecar.get?_announcement holds unshadowed),
          Announcement.find?_ofCommitments, SparseTree.find?_commitment hdids hc]
        rfl
    | proved kind bytes holds =>
        rw [decode_tree kind bytes holds, SparseTree.find?_ofCommitments,
          SparseTree.find?_commitment hkeys hc]
        rfl
  · intro did hdid s signal carried hkey
    cases carried with
    | announced kind bytes holds unshadowed =>
        rw [decode_announcement kind bytes (Sidecar.get?_announcement holds unshadowed),
          Announcement.find?_ofCommitments, SparseTree.find?_commitment_eq_none hdid]
        rfl
    | proved kind bytes holds =>
        rw [decode_tree kind bytes holds, SparseTree.find?_ofCommitments,
          SparseTree.find?_commitment_eq_none (hkey kind)]
        rfl

namespace Sample

/-- An update of no document in particular; what is signed does not matter for finding it. -/
def update : Update :=
  ⟨⟨[], [], Digest.zero, Digest.zero, 1, []⟩, Proof.unsigned "#key"⟩

theorem tidy_update : update.Tidy where
  unsigned := ⟨List.Pairwise.nil, nofun⟩
  proof := ⟨List.Pairwise.nil, nofun⟩

def commitments : List Commitment :=
  [⟨"did:btcr2:one", update.hash, none⟩, ⟨"did:btcr2:two", Digest.zero, some Digest.zero⟩]

/-- What an identifier gets from the aggregator, with the update. -/
def sidecar (did : String) : Sidecar :=
  ((Sidecar.empty.addUpdate update).addAnnouncement
    (Announcement.ofCommitments commitments)).addProof
      ((SparseTree.ofCommitments commitments).proof did)

/-- A signal that announces a digest. -/
def announcing (kind : BeaconKind) (d : Digest) : Signal :=
  ⟨⟨"#beacon", kind, .witness .regtest 0 []⟩, ⟨[], [⟨0, Script.announcing d⟩]⟩, 1, 10, 0⟩

theorem announced?_announcing (kind : BeaconKind) (d : Digest) :
    (announcing kind d).announced? = some d :=
  Script.announced?_of_announcing (by simp [announcing, Script.announcing, Script.isReturn])

theorem get?_addUpdate (s : Sidecar) :
    (s.addUpdate update).index.updates.get? update.hash = some update := by
  rw [Sidecar.updates_addUpdate tidy_update, DigestMap.get?_put, if_pos rfl]

theorem get?_update (did : String) : (sidecar did).index.updates.get? update.hash = some update :=
  get?_addUpdate Sidecar.empty

theorem proves_sidecar (did : String) :
    (sidecar did).Proves ((SparseTree.ofCommitments commitments).proof did) :=
  Sidecar.proves_addProof rfl

theorem carried_announcement (did : String) : Carried commitments did (sidecar did)
    (announcing .announcement (Announcement.ofCommitments commitments).hash) := by
  have holds : (sidecar did).announcements =
      [] ++ (Announcement.ofCommitments commitments).toJson :: [] := rfl
  exact .announced rfl (announced?_announcing _ _) holds nofun

theorem carried_tree (did : String) : Carried commitments did (sidecar did)
    (announcing .tree (SparseTree.ofCommitments commitments).root) :=
  .proved rfl (announced?_announcing _ _) (proves_sidecar did)

end Sample

/-- Of two members, the first is led to its update in each way, and a stranger to none by the
tree. -/
theorem decode_carried_sample :
    (Sample.commitments.map fun c => SparseTree.key c.did).Nodup ∧
    (Sample.announcing .announcement (Announcement.ofCommitments Sample.commitments).hash).decode
      (Sample.sidecar "did:btcr2:one").index "did:btcr2:one" = some Sample.update ∧
    (Sample.announcing .tree (SparseTree.ofCommitments Sample.commitments).root).decode
      (Sample.sidecar "did:btcr2:one").index "did:btcr2:one" = some Sample.update ∧
    (Sample.announcing .singleton Sample.update.hash).decode
      (Sample.sidecar "did:btcr2:one").index "did:btcr2:one" = some Sample.update ∧
    (Sample.announcing .announcement (Announcement.ofCommitments Sample.commitments).hash).decode
      (Sample.sidecar "did:btcr2:three").index "did:btcr2:three" = none ∧
    (Sample.announcing .tree (SparseTree.ofCommitments Sample.commitments).root).decode
      (Sample.sidecar "did:btcr2:three").index "did:btcr2:three" = none := by
  have hkeys : (Sample.commitments.map fun c => SparseTree.key c.did).Nodup := by decide +kernel
  have hother : SparseTree.key "did:btcr2:three" ∉
      Sample.commitments.map fun c => SparseTree.key c.did := by decide +kernel
  obtain ⟨members, strangers, singly⟩ := decode_carried hkeys
  have hone := members _ List.mem_cons_self (Sample.sidecar "did:btcr2:one")
  have hthree := strangers "did:btcr2:three" (by decide) (Sample.sidecar "did:btcr2:three")
  have hupdate := Sample.get?_update "did:btcr2:one"
  refine ⟨hkeys, ?_, ?_, ?_, ?_, ?_⟩
  · exact (hone _ (Sample.carried_announcement _)).trans hupdate
  · exact (hone _ (Sample.carried_tree _)).trans hupdate
  · exact (singly _ List.mem_cons_self _ _ rfl (Sample.announced?_announcing _ _) _).trans hupdate
  · exact hthree _ (Sample.carried_announcement _) nofun
  · exact hthree _ (Sample.carried_tree _) fun _ => hother

/-- There are fewer digests than texts, so whatever makes digests of texts has collisions. -/
theorem exists_collision (f : String → Digest) : ∃ did other, did ≠ other ∧ f did = f other :=
  Finite.exists_ne_map_eq_of_infinite f

namespace Sample

/-- The commitments of an aggregate with one member, which has the update. -/
def sole (did : String) : List Commitment := [⟨did, update.hash, none⟩]

/-- The announcements of two such aggregates, the second one behind the first. -/
def shadowing (did other : String) : Sidecar :=
  ((Sidecar.empty.addUpdate update).addAnnouncement
    (Announcement.ofCommitments (sole did))).addAnnouncement
      (Announcement.ofCommitments (sole other))

theorem find?_sole (did other : String) :
    Members.find? other (Announcement.ofCommitments (sole did)) =
      if did = other then some update.hash else none := by
  rw [Announcement.find?_ofCommitments]
  by_cases h : did = other <;> simp [sole, h]

end Sample

/-- Through the tree, a stranger with the member's key is led to the member's update. -/
theorem decode_tree_stranger {did other : String}
    (hkey : SparseTree.key did = SparseTree.key other) :
    (Sample.announcing .tree (SparseTree.ofCommitments (Sample.sole did)).root).decode
      ((Sidecar.empty.addUpdate Sample.update).addProof
        ((SparseTree.ofCommitments (Sample.sole did)).proof other)).index other =
      some Sample.update := by
  rw [decode_tree rfl (Sample.announced?_announcing _ _) (Sidecar.proves_addProof rfl),
    SparseTree.find?_ofCommitments]
  simp only [Sample.sole, List.reverse_singleton, List.find?_singleton, hkey, decide_true, if_true,
    Option.map_some, Option.bind_some]
  exact Sample.get?_addUpdate Sidecar.empty

/-- A different announcement behind one takes its place if it has the same hash. -/
theorem decode_announcement_shadowed {did other : String} (hne : did ≠ other)
    (hhash : (Announcement.ofCommitments (Sample.sole did)).hash =
      (Announcement.ofCommitments (Sample.sole other)).hash) :
    (Sample.announcing .announcement (Announcement.ofCommitments (Sample.sole did)).hash).decode
      (Sample.shadowing did other).index did = none := by
  have holds : (Sample.shadowing did other).announcements =
      [(Announcement.ofCommitments (Sample.sole did)).toJson] ++
        (Announcement.ofCommitments (Sample.sole other)).toJson :: [] := rfl
  have hfound := Sidecar.get?_announcement holds nofun
  rw [hhash, decode_announcement rfl (Sample.announced?_announcing _ _) hfound, Sample.find?_sole,
    if_neg hne.symm]
  rfl

/-- None of the conditions can be dropped. A stranger is led to a member's update by a singleton
beacon; by a tree, if its key is the member's; and a member is not led to its update by an
announcement, if a different one with the same hash follows. -/
theorem stranger_decodes :
    ("did:btcr2:three" ∉ Sample.commitments.map Commitment.did ∧
      (Sample.announcing .singleton Sample.update.hash).decode
        (Sample.sidecar "did:btcr2:three").index "did:btcr2:three" = some Sample.update) ∧
    (¬ ∀ (commitments : List Commitment) (did : String) (s : Sidecar) (signal : Signal),
      (commitments.map fun c => SparseTree.key c.did).Nodup →
      did ∉ commitments.map Commitment.did → signal.beacon.kind = .tree →
      signal.announced? = some (SparseTree.ofCommitments commitments).root →
      s.Proves ((SparseTree.ofCommitments commitments).proof did) →
        signal.decode s.index did = none) ∧
    ¬ ∀ (commitments : List Commitment) (c : Commitment) (s : Sidecar) (signal : Signal),
      (commitments.map fun c => SparseTree.key c.did).Nodup → c ∈ commitments →
      signal.beacon.kind = .announcement →
      signal.announced? = some (Announcement.ofCommitments commitments).hash →
      (Announcement.ofCommitments commitments).toJson ∈ s.announcements →
        signal.decode s.index c.did = s.index.updates.get? c.update := by
  refine ⟨⟨by decide, ?_⟩, ?_, ?_⟩
  · rw [decode_singleton rfl (Sample.announced?_announcing _ _)]
    exact Sample.get?_update _
  · intro none
    obtain ⟨did, other, hne, hkey⟩ := exists_collision SparseTree.key
    have hnone := none (Sample.sole did) other _ _ (List.nodup_singleton _)
      (fun hmem => hne (List.mem_singleton.1 hmem).symm) rfl (Sample.announced?_announcing _ _)
      (Sidecar.proves_addProof (s := Sidecar.empty.addUpdate Sample.update) rfl)
    cases hnone.symm.trans (decode_tree_stranger hkey)
  · intro all
    obtain ⟨did, other, hne, hhash⟩ :=
      exists_collision fun did => (Announcement.ofCommitments (Sample.sole did)).hash
    have hsome := all (Sample.sole did) _ (Sample.shadowing did other) _ (List.nodup_singleton _)
      List.mem_cons_self rfl (Sample.announced?_announcing _ _) List.mem_cons_self
    rw [decode_announcement_shadowed hne hhash] at hsome
    cases hsome.trans (Sample.get?_addUpdate Sidecar.empty)

end Signal

end AnchoredDid
