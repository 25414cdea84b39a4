import AnchoredDid.Publication
import AnchoredDid.Proofs.Genesis
import AnchoredDid.Proofs.Growth
import AnchoredDid.Proofs.Signal
import AnchoredDid.Proofs.Update.Signing

/-!
# A prepared update resolves

What is signed is found in the sidecar under the hash that the published script carries, and the
script is read as that hash; so the transaction that publishes a prepared update is a signal for it
and for nothing else. Everything before it resolves as it did, and the update leads to the next
version (`Resolver.resolve_prepared`).
-/

namespace AnchoredDid

/-! ## The replay -/

namespace Replay

/-- If the beacons of a transaction announce one acceptable update or nothing, it is accepted
once. -/
theorem considerAll_announced {options : ResolutionOptions} {index : SidecarIndex} {v : Visit}
    {c : Checkpoint} {u : Update} {next : Applied} {beacons : List Beacon}
    (hopen : c.isDone options = false) (hfresh : u.hash ∉ c.applied)
    (happly : u.advance c.document c.version c.did = .ok next)
    (hdecode : ∀ b ∈ beacons, Signal.decodeFor index c.did b.kind v.transaction = none ∨
      Signal.decodeFor index c.did b.kind v.transaction = some u)
    (hsome : ∃ b ∈ beacons, Signal.decodeFor index c.did b.kind v.transaction = some u) :
    considerAll options index v c beacons = accepted v c u next := by
  induction beacons with
  | nil => exact absurd hsome (by simp)
  | cons b rest ih =>
      obtain ⟨hb, hrest⟩ := List.forall_mem_cons.1 hdecode
      rw [considerAll_cons index v hopen]
      rcases hb with hnone | hannounced
      · have hself : consider index v c b = c := by simp [consider, hnone]
        obtain ⟨b', hb', hu⟩ := hsome
        rcases List.mem_cons.1 hb' with rfl | hb'
        · rw [hnone] at hu
          cases hu
        · rw [hself]
          exact ih hrest ⟨b', hb', hu⟩
      · have haccepted : consider index v c b = accepted v c u next := by
          simp [consider, hannounced, hfresh, happly]
        rw [haccepted]
        apply considerAll_eq_self
        intro b' hb'
        apply consider_eq_self
        intro u' hu'
        rcases hrest b' hb' with hnone | hagain
        · rw [accepted_did, hnone] at hu'
          cases hu'
        · rw [accepted_did, hagain] at hu'
          cases hu'
          simp

end Replay

namespace Draft

variable {d : Draft} {pair : Keypair} {reference : String} {p : PreparedUpdate}

theorem beacon_eq_ok {b : Beacon} (h : d.beacon reference = .ok b) :
    b.kind = .singleton ∧
      ∃ i, Identifier.decode d.did = .ok i ∧ b ∈ Registry.ofDocument d.source i.network := by
  rw [beacon] at h
  split at h
  · cases h
  · next i hi =>
    dsimp only at h
    split at h
    · cases h
    · next found hfound =>
      split at h
      · next hkind =>
        cases h
        exact ⟨hkind, i, hi, List.mem_of_find?_eq_some hfound⟩
      · cases h

/-- A prepared update is signed, and its beacon is a singleton beacon of the source. -/
theorem prepare_eq_ok (h : d.prepare pair reference = .ok p) :
    d.sign pair = .ok p.update ∧ p.beacon.kind = .singleton ∧
      ∃ i, Identifier.decode d.did = .ok i ∧ p.beacon ∈ Registry.ofDocument d.source i.network := by
  obtain ⟨b, hbeacon, h⟩ := bind_eq_ok_iff.1 h
  obtain ⟨hkind, hregistry⟩ := beacon_eq_ok hbeacon
  split at h
  · cases h
  · next update hsign =>
    cases h
    exact ⟨hsign, hkind, hregistry⟩

end Draft

/-! ## Publishing -/

namespace PreparedUpdate

/-- A transaction publishes a prepared update: it spends an output that the beacon locked, and the
last of its outputs that return data carries the update's hash. Whatever else it spends and pays
does not matter. -/
structure PublishedBy (p : PreparedUpdate) (l : Ledger) (tx : Transaction) : Prop where
  spends : ∃ input ∈ tx.inputs, l.scriptAt input.outpoint = .ok (some p.beacon.script)
  announces : (tx.outputs.reverse.find? fun output => Script.isReturn output.script).map
    TxOutput.script = some p.script

/-- Nothing refers to a prepared update before it is published: none of the signals so far points at
it, it is not applied, and no announcement or tree has its hash. -/
structure Unseen (p : PreparedUpdate) (index : SidecarIndex) (did : String)
    (signals : List (List Signal)) (applied : List Digest) : Prop where
  unannounced : ∀ group ∈ signals, ∀ s ∈ group, ∀ bytes, s.announced? = some bytes →
    Signal.updateHash? index did bytes s.beacon.kind ≠ some p.hash
  unapplied : p.hash ∉ applied
  no_announcement : index.announcements.get? p.hash = none
  no_proof : index.proofs.get? p.hash = none

end PreparedUpdate

namespace PreparedUpdate

variable {p : PreparedUpdate} {time : Nat} {tx : Transaction} {network : Network}
variable {sidecar : Sidecar} {did : String} {applied : List Digest}

theorem PublishedBy.mem_watched {l : Ledger} (published : p.PublishedBy l tx) {registry : Registry}
    (hbeacon : p.beacon ∈ registry) (height time index : Nat) :
    p.beacon ∈ Visit.watched l registry ⟨height, time, index, tx⟩ := by
  obtain ⟨input, hinput, hscript⟩ := published.spends
  refine List.mem_filter.2 ⟨hbeacon, ?_⟩
  exact List.any_eq_true.2 ⟨input, hinput, by simp [Ledger.script?, hscript]⟩

/-- The transaction that publishes a prepared update leads to the next version. -/
theorem PublishedBy.run {l : Ledger} (published : p.PublishedBy l tx)
    (hkind : p.beacon.kind = .singleton) (tidy : p.update.Tidy)
    {signals : List (List Signal)} (unseen : p.Unseen sidecar.index did signals applied)
    {e : Checkpoint}
    (hdid : e.did = did) (happlied : e.applied = applied) (hopen : e.isDone {} = false)
    (hbeacon : p.beacon ∈ Registry.ofDocument e.document network) {next : Applied}
    (happly : p.update.advance e.document e.version did = .ok next) (height last : Nat) :
    ∃ cursor, Replay.run ⟨l, network, (sidecar.addUpdate p.update).index⟩ {} last e
        [⟨height, time, 0, tx⟩] =
      { Replay.accepted ⟨height, time, 0, tx⟩ e p.update next with cursor := cursor } := by
  have hannounced : Script.announced? tx = some p.update.hash :=
    Script.announced?_of_announcing published.announces
  have hdecode : ∀ b : Beacon, Signal.decodeFor (sidecar.addUpdate p.update).index e.did b.kind tx =
      if b.kind = .singleton then some p.update else none := by
    intro b
    split
    · next hb => rw [hb, Signal.decodeFor_singleton tidy hannounced]
    · next hb =>
      exact Signal.decodeFor_aggregate tidy hb hannounced unseen.no_announcement unseen.no_proof
  have hwatched : p.beacon ∈
      Visit.watched l (Registry.ofDocument e.document network) ⟨height, time, 0, tx⟩ :=
    published.mem_watched hbeacon height time 0
  have hend : ∀ c : Checkpoint, ∃ cursor,
      Replay.run ⟨l, network, (sidecar.addUpdate p.update).index⟩ {} last c [] =
        { c with cursor := cursor } := by
    intro c
    rw [Replay.run]
    split
    · exact ⟨c.cursor, rfl⟩
    · exact ⟨_, rfl⟩
  have haccepted := Replay.considerAll_announced (v := ⟨height, time, 0, tx⟩) hopen
    (happlied ▸ unseen.unapplied) (hdid ▸ happly)
    (fun b _ => by rw [hdecode]; split <;> simp) ⟨p.beacon, hwatched, by rw [hdecode, if_pos hkind]⟩
  rw [Replay.run_watched hopen (List.ne_nil_of_mem hwatched), haccepted]
  exact hend _

end PreparedUpdate

namespace Replay

variable {source : Resolution.Source} {options : ResolutionOptions} {last : Nat} {c : Checkpoint}

theorem run_anchored (h : c.document.Anchored) (visits : List Visit) :
    (run source options last c visits).document.Anchored := by
  refine run_induction (P := fun d => d.document.Anchored) (fun _ _ h => h) ?_ h visits
  intro v d b h
  rcases consider_cases source.index v d b with ⟨_, heq⟩ | ⟨u, next, -, -, happly, heq⟩
  · rw [heq]
    exact h
  · rw [heq]
    exact Update.advance_anchored h happly

end Replay

namespace PreparedUpdate

variable {p : PreparedUpdate} {c : Chain} {time : Nat} {tx : Transaction} {i : Identifier}
variable {sidecar : Sidecar} {did : String} {first : Nat} {start e : Checkpoint} {patch : Patch}
variable {method : Option String} {pair : Keypair} {reference : String}

/-- The replay of the chain with the new block: to where it ended before, and one version on. -/
theorem run_mine (mined : c.Mined) (hi : Identifier.decode did = .ok i) (hdid : start.did = did)
    (anchored : start.document.Anchored) (reached : first ≤ c.tip + 1)
    (ended : Replay.run ⟨c.ledger, i.network, sidecar.index⟩ {} c.tip start
      (c.ledger.visits first c.tip) = e)
    (prepared : Draft.prepare ⟨did, e.document, e.version, patch, method⟩ pair reference = .ok p)
    (bip340 : pair.publicKey.verifies (p.update.proof.digest p.update.unsigned.toJson)
      (pair.sign (p.update.proof.digest p.update.unsigned.toJson)) = true)
    (published : p.PublishedBy (c.mine time [tx]).ledger tx)
    (unseen : p.Unseen sidecar.index did (Replay.signals ⟨c.ledger, i.network, sidecar.index⟩ {}
      start (c.ledger.visits first c.tip)) e.applied)
    (unspent : c.Unspent tx.id) :
    ∃ (target : Document) (cursor : Cursor), patch.apply e.document.value = .ok target.value ∧
      Replay.run ⟨(c.mine time [tx]).ledger, i.network, (sidecar.addUpdate p.update).index⟩ {}
          (c.tip + 1) start ((c.mine time [tx]).ledger.visits first (c.tip + 1)) =
        { Replay.accepted ⟨c.tip + 1, time, 0, tx⟩ e p.update ⟨target, e.version + 1, p.update.hash⟩
          with cursor := cursor } := by
  have hdidEnd : e.did = did := by rw [← ended, Replay.run_did, hdid]
  have anchoredEnd : e.document.Anchored := ended ▸ Replay.run_anchored anchored _
  obtain ⟨signed, hkind, i', hi', hbeacon⟩ := Draft.prepare_eq_ok prepared
  obtain rfl : i = i' := Except.ok.inj (hi.symm.trans hi')
  have tidy := Draft.tidy_of_sign signed
  obtain ⟨target, htarget, happly⟩ := Draft.sign_advance
    (d := ⟨did, e.document, e.version, patch, method⟩) anchoredEnd signed bip340
  obtain ⟨hactive, hpatch, -⟩ := Draft.target_eq_ok htarget
  have hopen : e.isDone {} = false := hactive
  have same : c.ledger.SameUpTo (c.mine time [tx]).ledger c.tip :=
    mined.sameUpTo_mineAll [(time, [tx])] (by simpa using unspent)
  -- up to the new block the longer replay is the shorter one
  have hsame : Replay.run ⟨(c.mine time [tx]).ledger, i.network,
      (sidecar.addUpdate p.update).index⟩ {} c.tip start (c.ledger.visits first c.tip) =
        Replay.run ⟨c.ledger, i.network, sidecar.index⟩ {} c.tip start
          (c.ledger.visits first c.tip) := by
    refine Replay.run_congr (by rfl) ?_ ?_
    · intro v hv
      obtain ⟨on, -, range⟩ := Ledger.on_of_mem_visits mined.faultless.numbered hv
      exact same.watched_eq on range
    · intro group hgroup s hs
      rw [hdid]
      exact Signal.decodeFor_addUpdate_of_ne tidy (unseen.unannounced group hgroup s hs)
  rw [ended] at hsame
  obtain ⟨cursor, hrun⟩ := published.run hkind tidy unseen hdidEnd rfl hopen hbeacon happly
    (c.tip + 1) (c.tip + 1)
  refine ⟨target, cursor, hpatch, ?_⟩
  rw [mined.visits_mine reached, Replay.run_append (Nat.le_succ c.tip), hsame]
  exact hrun

end PreparedUpdate

namespace Resolver

variable {c : Chain} {config : ResolverConfig} {did : String} {sidecar : Sidecar}

/-- A prepared update resolves. Let a document have been resolved without bounds and an update of it
been prepared. Once the update is in the sidecar and one more block holds the transaction that
publishes it, the next resolution ends one version later, with the patched document and the update's
hash behind those applied before. That the signature verifies is assumed of the digest that is
signed. -/
theorem resolve_prepared (mined : c.Mined) {before : Resolution}
    (resolved : resolve ⟨c.ledger, config⟩ did sidecar {} = .ok before) {patch : Patch}
    {method : Option String} {pair : Keypair} {reference : String} {p : PreparedUpdate}
    (prepared : Draft.prepare ⟨did, before.document, before.metadata.version, patch, method⟩ pair
      reference = .ok p)
    (bip340 : pair.publicKey.verifies (p.update.proof.digest p.update.unsigned.toJson)
      (pair.sign (p.update.proof.digest p.update.unsigned.toJson)) = true)
    {time : Nat} {tx : Transaction} (published : p.PublishedBy (c.mine time [tx]).ledger tx)
    (reached : sidecar.genesisHeight.getD config.genesisHeight ≤ c.tip + 1)
    (unseen : ∀ i genesis, identify did = .ok i →
      Genesis.document i sidecar.genesisDocument = .ok genesis →
      p.Unseen sidecar.index did
        (Replay.upcoming ⟨c.ledger, i.network, sidecar.index⟩ c.tip
          (.genesis did genesis (sidecar.genesisHeight.getD config.genesisHeight)))
        before.checkpoint.applied)
    (unspent : c.Unspent tx.id) (window : Nat) :
    ∃ after, resolve ⟨(c.mine time [tx]).ledger, { config with window := window }⟩ did
        (sidecar.addUpdate p.update) {} = .ok after ∧
      after.metadata.version = before.metadata.version + 1 ∧
      patch.apply before.document.value = .ok after.document.value ∧
      after.checkpoint.applied = before.checkpoint.applied ++ [p.hash] := by
  have hfree : ({} : ResolutionOptions).version ≠ some 0 := by decide
  rcases resolve_cases ⟨c.ledger, config⟩ did sidecar {} with
    ⟨e, heq, -⟩ | ⟨i, genesis, -, hi, hgenesis, heq⟩
  · rw [heq] at resolved
    cases resolved
  -- the checkpoint at the end of the chain, which the replay of the longer one comes to as well
  obtain ⟨e, ended⟩ : ∃ e, Replay.run ⟨c.ledger, i.network, sidecar.index⟩ {} c.tip
    (.genesis did genesis (sidecar.genesisHeight.getD config.genesisHeight))
    (c.ledger.visits (sidecar.genesisHeight.getD config.genesisHeight) c.tip) = e := ⟨_, rfl⟩
  rw [resolve_eq_history mined config hfree hi hgenesis fun _ => rfl, Replay.history_unbounded,
    ended] at resolved
  cases resolved
  have hunseen := unseen i genesis hi hgenesis
  rw [Replay.upcoming_genesis] at hunseen
  obtain ⟨target, cursor, hpatch, hrun⟩ := PreparedUpdate.run_mine mined (identify_decode hi) rfl
    (Genesis.document_anchored hgenesis) reached ended prepared bip340 published
    hunseen unspent
  have hafter := resolve_eq_history (mined.mine time [tx]) { config with window := window } hfree hi
    (show Genesis.document i (sidecar.addUpdate p.update).genesisDocument =
      .ok genesis from hgenesis)
    fun _ => rfl
  rw [Replay.history_unbounded, mined.tip_mine] at hafter
  exact ⟨_, hafter.trans (congrArg (Except.ok ∘ Replay.finish {}) hrun), rfl, hpatch, rfl⟩

end Resolver

/-! ## A sample -/

namespace Sample

/-- The pair whose public key is the generator. -/
def pair : Keypair :=
  ⟨1, ⟨2 :: Bytes.ofNat 32 Secp256k1.Point.generator.x, by decide +kernel⟩⟩

/-- What is in a document that has this key and a beacon for it. -/
def members (id : String) : List (String × Json) :=
  [("id", id),
    ("verificationMethod", .array [Json.ofMembers [("id", "#key"), ("type", "Multikey"),
      ("controller", ""),
      ("publicKeyMultibase", "zQ3shVc2UkAfJCdc1TR8E66J85h48P43r93q8jGPkPpjF9Ef9")]]),
    ("capabilityInvocation", .array ["#key"]),
    ("service", .array [Json.ofMembers [("id", "#beacon"), ("type", "SingletonBeacon"),
      ("serviceEndpoint", "bitcoin:bcrt1qw508d6qejxtdg4y5r3zarvary0c5xw7kygt080")]])]

/-- The document before its identifier is known. -/
def supplied : Json := Json.ofMembers (members Genesis.placeholder)

def digest (n : Nat) : Digest := ⟨Bytes.ofNat 32 n, by simp⟩

def suppliedHash : Digest :=
  digest 0x985d01ff73aa3cc59e238fa36adbc5993e5eb93a0f935cc035f1ff46ee05517e

def identifier : Identifier := .ofHash suppliedHash .regtest

def did : String := "did:btcr2:x1q2v96q0lww4re3v7yw86x6kmckvnuh4e8g8exhxqxhcl73hwq4ghudj0llw"

def source : Json := Json.ofMembers (members did)

def sourceHash : Digest :=
  digest 0x87ceb026f9eb761df8aaa904d5d015fdc1c448c7b634f6d5d14cbe43eee83010

def patch : Patch := [.add "/deactivated" (.bool true)]

def target : Json := Json.ofMembers (("deactivated", .bool true) :: members did)

def targetHash : Digest :=
  digest 0x14abbbb8d8fdc880921cd48dd5d25a559918d6b0406243996c70a032345f0394

-- Hashing takes longest, so each hash is evaluated once and stands for its document from here on.
theorem hashes : supplied.hash = suppliedHash ∧ source.hash = sourceHash ∧
    target.hash = targetHash := by
  simp only [Json.hash_eq]
  decide +kernel

/-- What is signed. -/
def unsigned : UnsignedUpdate :=
  ⟨UnsignedUpdate.contexts, patch, sourceHash, targetHash, 1, []⟩

def invocation : Proof := (Proof.unsigned (did ++ "#key")).invoking (rootCapability did)

def signed : Digest :=
  digest 0xf9e8ca6480a41573419ecbc29ceb8cbd474eeeaa59ac0263eff969c8146c1aa6

theorem digest_invocation : invocation.digest unsigned.toJson = signed := by
  simp only [Proof.digest, Json.hash_eq]
  decide +kernel

theorem verifies_signed : pair.publicKey.verifies signed (pair.sign signed) = true := by
  decide +kernel

theorem identify_did : Resolver.identify did = .ok identifier :=
  eq_ok_of_toOption (by decide +kernel)

theorem encode_identifier : identifier.encode = .ok did :=
  eq_ok_of_toOption (by decide +kernel)

theorem genesisHash?_identifier : identifier.genesisHash? = some suppliedHash := by
  decide +kernel

def genesis : Document := ⟨source, eq_ok_of_toOption (by decide +kernel)⟩

theorem document_identifier : Genesis.document identifier (some supplied) = .ok genesis :=
  Genesis.document_of_supplied rfl (hashes.1 ▸ genesisHash?_identifier) encode_identifier
    (Document.ofJson_eq_ok_iff.2 rfl) (by decide +kernel)

/-- The deactivated document. -/
def deactivated : Document := ⟨target, eq_ok_of_toOption (by decide +kernel)⟩

/-- The draft that deactivates the document. -/
def draft : Draft := ⟨did, genesis, 1, patch, none⟩

theorem exists_prepared : ∃ p, draft.prepare pair "#beacon" = .ok p := by
  have hsome : (draft.prepare pair "#beacon").toOption.isSome := by decide +kernel
  obtain ⟨p, hp⟩ := Option.isSome_iff_exists.1 hsome
  exact ⟨p, eq_ok_of_toOption hp⟩

/-- What signing the draft signs. -/
theorem digest_prepared {p : PreparedUpdate} (h : draft.prepare pair "#beacon" = .ok p) :
    p.update.proof.digest p.update.unsigned.toJson = signed := by
  have hsigner : draft.signer = .ok (did ++ "#key") := eq_ok_of_toOption (by decide +kernel)
  have hpatched : patch.apply source = .ok target := by rfl
  have hsource : draft.source.value.hash = sourceHash := hashes.2.1
  rw [Draft.digest_of_sign hsigner hpatched (Draft.prepare_eq_ok h).1, hsource, hashes.2.2]
  exact digest_invocation

/-- A transaction that spends nothing and pays to a script. -/
def funding (script : Bytes) : Transaction := ⟨[⟨.null, []⟩], [⟨1000, script⟩]⟩

def chain (script : Bytes) : Chain := Chain.start.mine 10 [funding script]

/-- The transaction that spends from the beacon and publishes the update. -/
def spending (p : PreparedUpdate) : Transaction :=
  ⟨[⟨⟨(funding p.beacon.script).id, 0⟩, []⟩], [⟨900, p.beacon.script⟩, ⟨0, p.script⟩]⟩

theorem mined_chain (script : Bytes) : (chain script).Mined :=
  .mine _ _ .start

theorem watched_funding (l : Ledger) (registry : Registry) (script : Bytes)
    {height time index : Nat} :
    Visit.watched l registry ⟨height, time, index, funding script⟩ = [] := by
  simp [Visit.watched, Ledger.spends, funding, Ledger.script?, Ledger.scriptAt, OutPoint.isNull]

theorem unspent_chain (script : Bytes) (txid : Digest) : (chain script).Unspent txid := by
  rintro ⟨height, time, index, tx⟩ ⟨block, hblock, -, htx⟩ input hinput hnull
  rcases height with _ | _ | height
  · cases hblock
    cases htx
  · cases hblock
    obtain rfl : funding script = tx := by
      cases index with
      | zero => exact Option.some.inj htx
      | succ index => cases htx
    rw [List.mem_singleton.1 hinput] at hnull
    simp [OutPoint.isNull] at hnull
  · simp [chain, Chain.ledger, Chain.getElem?_mine, Chain.start] at hblock

/-- Whichever of the two transactions has the id that is spent from, its first output pays to the
beacon. -/
theorem found_spent (p : PreparedUpdate) : ∃ tx,
    ((chain p.beacon.script).mine 20 [spending p]).transaction? (funding p.beacon.script).id =
      some tx ∧ tx.outputs[0]?.map TxOutput.script = some p.beacon.script :=
  (mined_chain _).exists_output 20 (Chain.Mined.start.transaction?_mine_own 10 _) rfl rfl

theorem published_spending (p : PreparedUpdate) :
    p.PublishedBy ((chain p.beacon.script).mine 20 [spending p]).ledger (spending p) where
  spends := by
    obtain ⟨tx, htx, hscript⟩ := found_spent p
    have hnull : OutPoint.isNull ⟨(funding p.beacon.script).id, 0⟩ = false :=
      OutPoint.isNull_of_index_ne (by decide)
    refine ⟨_, List.mem_singleton_self _, ?_⟩
    rw [Ledger.scriptAt_of_found hnull (congrArg Except.ok htx), hscript]
  announces := by
    simp [spending, PreparedUpdate.script, Script.announcing, Script.isReturn]

def sidecar : Sidecar := { Sidecar.empty with genesisDocument := some supplied }

theorem open_genesis : (Checkpoint.genesis did genesis 0).isDone {} = false := by
  decide +kernel

/-- Nothing is signalled yet. -/
theorem run_chain (script : Bytes) :
    Replay.run ⟨(chain script).ledger, .regtest, sidecar.index⟩ {} 1 (.genesis did genesis 0)
        ((chain script).ledger.visits 0 1) =
      { Checkpoint.genesis did genesis 0 with cursor := ⟨2, 0⟩ } :=
  (Replay.run_unwatched open_genesis (watched_funding _ _ script)).trans
    (Replay.run_nil open_genesis)

theorem history_chain (script : Bytes) :
    Replay.history ⟨(chain script).ledger, .regtest, sidecar.index⟩ {} did genesis 0 1 =
      Replay.finish {} { Checkpoint.genesis did genesis 0 with cursor := ⟨2, 0⟩ } := by
  rw [Replay.history_unbounded]
  exact congrArg (Replay.finish {}) (run_chain script)

theorem resolve_chain (script : Bytes) :
    Resolver.resolve ⟨(chain script).ledger, {}⟩ did sidecar {} =
      .ok (Replay.finish {} { Checkpoint.genesis did genesis 0 with cursor := ⟨2, 0⟩ }) := by
  have hfree : ({} : ResolutionOptions).version ≠ some 0 := by decide
  have hgenesis : Genesis.document identifier sidecar.genesisDocument = .ok genesis :=
    document_identifier
  rw [Resolver.resolve_eq_history (mined_chain script) {} hfree identify_did hgenesis fun _ => rfl]
  exact congrArg Except.ok (history_chain script)

theorem upcoming_chain (script : Bytes) :
    Replay.upcoming ⟨(chain script).ledger, .regtest, sidecar.index⟩ 1 (.genesis did genesis 0) =
      [] := by
  rw [Replay.upcoming_genesis]
  exact Replay.signals_unwatched open_genesis (watched_funding _ _ script)

theorem unseen_chain (p : PreparedUpdate) {i : Identifier} {d : Document}
    (hi : Resolver.identify did = .ok i) (hd : Genesis.document i (some supplied) = .ok d) :
    p.Unseen sidecar.index did
      (Replay.upcoming ⟨(chain p.beacon.script).ledger, i.network, sidecar.index⟩ 1
        (.genesis did d 0)) [] := by
  obtain rfl : identifier = i := Except.ok.inj (identify_did.symm.trans hi)
  obtain rfl : genesis = d := Except.ok.inj (document_identifier.symm.trans hd)
  have hnone : Replay.upcoming ⟨(chain p.beacon.script).ledger, identifier.network, sidecar.index⟩ 1
      (.genesis did genesis 0) = [] := upcoming_chain p.beacon.script
  rw [hnone]
  exact ⟨nofun, List.not_mem_nil, rfl, rfl⟩

/-- The chain that the update is published on. -/
def grown (p : PreparedUpdate) : Chain := (chain p.beacon.script).mine 20 [spending p]

theorem mined_grown (p : PreparedUpdate) : (grown p).Mined :=
  (mined_chain p.beacon.script).mine 20 [spending p]

/-- Once the update is published, its document has a second version. -/
theorem resolve_grown : ∃ p after,
    draft.prepare pair "#beacon" = .ok p ∧
    Resolver.resolve ⟨(grown p).ledger, {}⟩ did (sidecar.addUpdate p.update) {} = .ok after ∧
    after.metadata.version = 2 := by
  obtain ⟨p, prepared⟩ := exists_prepared
  have mined := mined_chain p.beacon.script
  have bip340 := digest_prepared prepared ▸ verifies_signed
  have hunseen := unseen_chain p identify_did document_identifier
  rw [Replay.upcoming_genesis] at hunseen
  obtain ⟨target, cursor, -, hrun⟩ := PreparedUpdate.run_mine mined
    (Resolver.identify_decode identify_did) rfl (Genesis.document_anchored document_identifier)
    (Nat.zero_le _) (run_chain _) prepared bip340 (published_spending p) hunseen (unspent_chain _ _)
  have hfree : ({} : ResolutionOptions).version ≠ some 0 := by decide
  have hafter := Resolver.resolve_eq_history (mined_grown p) {} hfree identify_did
    (show Genesis.document identifier (sidecar.addUpdate p.update).genesisDocument = .ok genesis
      from document_identifier) fun _ => rfl
  rw [Replay.history_unbounded, grown, mined.tip_mine] at hafter
  exact ⟨p, _, prepared, hafter.trans (congrArg (Except.ok ∘ Replay.finish {}) hrun), rfl⟩

end Sample

namespace Resolver

/-- The key's document is deactivated by an update through its beacon. -/
theorem resolve_prepared_sample : ∃ p before after,
    resolve ⟨(Sample.chain p.beacon.script).ledger, {}⟩ Sample.did Sample.sidecar {} = .ok before ∧
    Draft.prepare ⟨Sample.did, before.document, before.metadata.version, Sample.patch, none⟩
      Sample.pair "#beacon" = .ok p ∧
    resolve ⟨((Sample.chain p.beacon.script).mine 20 [Sample.spending p]).ledger, { window := 3 }⟩
      Sample.did (Sample.sidecar.addUpdate p.update) {} = .ok after ∧
    after.metadata.version = 2 ∧
    Sample.patch.apply before.document.value = .ok after.document.value ∧
    after.checkpoint.applied = [p.hash] := by
  obtain ⟨p, prepared⟩ := Sample.exists_prepared
  have resolved := Sample.resolve_chain p.beacon.script
  have bip340 := Sample.digest_prepared prepared ▸ Sample.verifies_signed
  obtain ⟨after, hafter, hversion, hpatch, happlied⟩ :=
    resolve_prepared (Sample.mined_chain _) resolved prepared bip340
      (Sample.published_spending p) (Nat.zero_le _) (fun i d => Sample.unseen_chain p)
      (Sample.unspent_chain _ _) 3
  exact ⟨p, _, after, resolved, prepared, hafter, hversion, hpatch, happlied⟩

end Resolver

end AnchoredDid
