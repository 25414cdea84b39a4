import AnchoredDid.Proofs.Publication

/-!
# The engine refines the replay

Scanner, window, buffer and cursor add nothing to what is resolved: on every chain a resolution that
is not cancelled is the replay of the chain's transactions from the genesis height on
(`Resolver.resolve_eq_replay`).

The samples here and further on resolve a contested chain. The beacon of a document is spent from
twice: first for an update that the document is not ready for, then for the one that deactivates it.
-/

namespace AnchoredDid

/-! ## A contested chain -/

namespace Sample

/-- An update for a version that may not be there yet. -/
def premature (version : Nat) : Update :=
  ⟨⟨UnsignedUpdate.contexts, [], digest 0, digest 0, version, []⟩, Proof.unsigned "#key"⟩

theorem tidy_premature (version : Nat) : (premature version).Tidy where
  unsigned := ⟨List.Pairwise.nil, nofun⟩
  proof := ⟨List.Pairwise.nil, nofun⟩

theorem hash_premature_ne : (premature 2).hash ≠ (premature 3).hash := by
  simp only [Update.hash, Json.hash_eq]
  decide +kernel

/-- The prepared update, and a premature one with another hash. -/
structure Contest (p : PreparedUpdate) (version : Nat) : Prop where
  prepared : draft.prepare pair "#beacon" = .ok p
  later : version ≠ 1
  other : (premature version).hash ≠ p.hash

theorem exists_contest : ∃ p version, Contest p version := by
  obtain ⟨p, prepared⟩ := exists_prepared
  by_cases h : (premature 2).hash = p.hash
  · exact ⟨p, 3, prepared, by decide, fun h' => hash_premature_ne (h.trans h'.symm)⟩
  · exact ⟨p, 2, prepared, by decide, h⟩

variable (p : PreparedUpdate) (version : Nat)

/-- The transaction that spends from the beacon first, and announces the premature update. -/
def contesting : Transaction := spending ⟨premature version, p.beacon⟩

/-- The transaction that spends from the beacon after that, and announces the prepared one. -/
def settling : Transaction :=
  ⟨[⟨⟨(contesting p version).id, 0⟩, []⟩], [⟨800, p.beacon.script⟩, ⟨0, p.script⟩]⟩

def contested : Chain := (grown ⟨premature version, p.beacon⟩).mine 30 [settling p version]

/-- The second transaction of the chain, in its second block. -/
def contestingVisit : Visit := ⟨2, 20, 0, contesting p version⟩

/-- The third one, in its third block. -/
def settlingVisit : Visit := ⟨3, 30, 0, settling p version⟩

def contestedSidecar : Sidecar := (sidecar.addUpdate (premature version)).addUpdate p.update

def contestedSource : Resolution.Source :=
  ⟨(contested p version).ledger, .regtest, (contestedSidecar p version).index⟩

theorem mined_contested : (contested p version).Mined :=
  .mine _ _ (mined_grown _)

theorem visits_contested :
    (contested p version).ledger.visits 0 3 =
      [⟨1, 10, 0, funding p.beacon.script⟩, contestingVisit p version, settlingVisit p version] :=
  rfl

/-- Whichever transactions have the ids that are spent from, their first outputs pay to the
beacon. -/
theorem contestingVisit_spends :
    (contestingVisit p version).Spends (contested p version).ledger p.beacon.script := by
  obtain ⟨old, hold, hpays⟩ := found_spent ⟨premature version, p.beacon⟩
  obtain ⟨tx, htx, hscript⟩ := (mined_grown ⟨premature version, p.beacon⟩).exists_output 30
    (t := settling p version) hold hpays rfl
  have hnull : OutPoint.isNull ⟨(funding p.beacon.script).id, 0⟩ = false :=
    OutPoint.isNull_of_index_ne (by decide)
  refine ⟨_, List.mem_singleton_self _, ?_⟩
  exact (Ledger.scriptAt_of_found hnull (congrArg Except.ok htx)).trans (congrArg Except.ok hscript)

theorem settlingVisit_spends :
    (settlingVisit p version).Spends (contested p version).ledger p.beacon.script := by
  have hpays : (contesting p version).outputs[0]?.map TxOutput.script = some p.beacon.script := rfl
  obtain ⟨tx, htx, hscript⟩ := (mined_grown ⟨premature version, p.beacon⟩).exists_output 30
    (t := settling p version) ((mined_chain _).transaction?_mine_own 20 (contesting p version))
    hpays rfl
  have hnull : OutPoint.isNull ⟨(contesting p version).id, 0⟩ = false :=
    OutPoint.isNull_of_index_ne (by decide)
  refine ⟨_, List.mem_singleton_self _, ?_⟩
  exact (Ledger.scriptAt_of_found hnull (congrArg Except.ok htx)).trans (congrArg Except.ok hscript)

/-- Both updates are known, so the first transaction has been tried and counted. -/
def atRejection (cursor : Cursor) : Checkpoint :=
  { Checkpoint.genesis did genesis 0 with rejectedCount := 1, cursor := cursor }

/-- The prepared update has been applied. -/
def atDeactivation : Checkpoint :=
  { did := did
    document := deactivated
    version := 2
    cursor := ⟨3, 1⟩
    applied := [p.hash]
    blockHeight := 3
    blockTime := some 30
    rejectedCount := 1 }

variable {p version}
variable {options : ResolutionOptions} {last : Nat} {cursor : Cursor}

theorem isDone_genesis (h : options.reached 1 = false) :
    (Checkpoint.genesis did genesis 0).isDone options = false :=
  Bool.or_eq_false_iff.2 ⟨h, (Checkpoint.isDone_eq_false open_genesis).2⟩

theorem isDone_atRejection (h : options.reached 1 = false) :
    (atRejection cursor).isDone options = false :=
  isDone_genesis h

theorem isDeactivated_deactivated : deactivated.isDeactivated = true := by
  rfl

theorem isDone_atDeactivation (p : PreparedUpdate) (options : ResolutionOptions) :
    (atDeactivation p).isDone options = true :=
  Bool.or_eq_true_iff.2 (.inr isDeactivated_deactivated)

namespace Contest

theorem registry_genesis (h : Contest p version) :
    Registry.ofDocument genesis .regtest = [p.beacon] := by
  obtain ⟨-, -, i, hi, hbeacon⟩ := Draft.prepare_eq_ok h.prepared
  obtain rfl : identifier = i :=
    Except.ok.inj ((Resolver.identify_decode identify_did).symm.trans hi)
  have hlength : (Registry.ofDocument genesis .regtest).length = 1 := by decide +kernel
  obtain ⟨b, hregistry⟩ := List.length_eq_one_iff.1 hlength
  have hmem : p.beacon ∈ Registry.ofDocument genesis .regtest := hbeacon
  rw [hregistry, List.mem_singleton] at hmem
  rw [hregistry, hmem]

/-- The genesis document's beacon is the only one that is watched. -/
theorem watched_eq (h : Contest p version) {v : Visit}
    (spends : v.Spends (contested p version).ledger p.beacon.script) :
    v.watched (contested p version).ledger (Registry.ofDocument genesis .regtest) = [p.beacon] := by
  rw [h.registry_genesis, Visit.watched]
  exact List.filter_eq_self.2 fun b hb => List.mem_singleton.1 hb ▸ Ledger.spends_iff.2 spends

theorem kind_eq (h : Contest p version) : p.beacon.kind = .singleton :=
  (Draft.prepare_eq_ok h.prepared).2.1

theorem decode_contesting (h : Contest p version) :
    Signal.decodeFor (contestedSidecar p version).index did p.beacon.kind (contesting p version) =
      some (premature version) := by
  have tidy := Draft.tidy_of_sign (Draft.prepare_eq_ok h.prepared).1
  have hannounced : Script.announced? (contesting p version) = some (premature version).hash :=
    Script.announced?_of_announcing (by
      simp [contesting, spending, PreparedUpdate.script, PreparedUpdate.hash, Script.announcing,
        Script.isReturn])
  rw [h.kind_eq, contestedSidecar, Signal.decodeFor_addUpdate_of_ne tidy,
    Signal.decodeFor_singleton (tidy_premature version) hannounced]
  intro bytes hbytes hsame
  rw [hannounced] at hbytes
  cases hbytes
  exact h.other (Option.some.inj hsame)

theorem decode_settling (h : Contest p version) :
    Signal.decodeFor (contestedSidecar p version).index did p.beacon.kind (settling p version) =
      some p.update := by
  have tidy := Draft.tidy_of_sign (Draft.prepare_eq_ok h.prepared).1
  have hannounced : Script.announced? (settling p version) = some p.update.hash :=
    Script.announced?_of_announcing (by
      simp [settling, PreparedUpdate.script, PreparedUpdate.hash, Script.announcing,
        Script.isReturn])
  rw [h.kind_eq]
  exact Signal.decodeFor_singleton tidy hannounced

theorem premature_rejected (h : Contest p version) :
    ∃ e, (premature version).advance genesis 1 did = .error e := by
  cases hadvance : (premature version).advance genesis 1 did with
  | error e => exact ⟨e, rfl⟩
  | ok applied =>
      obtain ⟨hsource, -⟩ := Update.advance_eq_ok_iff.1 hadvance
      exact absurd (Update.checkSource_eq_ok_iff.1 hsource).2.1 h.later

theorem prepared_accepted (h : Contest p version) :
    p.update.advance genesis 1 did = .ok ⟨deactivated, 2, p.hash⟩ := by
  obtain ⟨target, htarget, hadvance⟩ := Draft.sign_advance
    (Genesis.document_anchored document_identifier) (Draft.prepare_eq_ok h.prepared).1
    (digest_prepared h.prepared ▸ verifies_signed)
  obtain ⟨-, hpatch, -⟩ := Draft.target_eq_ok htarget
  have hpatched : patch.apply source = .ok Sample.target := by rfl
  have hvalue : target.value = Sample.target := Except.ok.inj (hpatch.symm.trans hpatched)
  cases target with
  | mk value checked =>
      cases hvalue
      exact hadvance

theorem watched_contesting (h : Contest p version) :
    (contestingVisit p version).watched (contestedSource p version).ledger
      (Registry.ofDocument genesis (contestedSource p version).network) = [p.beacon] :=
  h.watched_eq (contestingVisit_spends p version)

theorem watched_settling (h : Contest p version) :
    (settlingVisit p version).watched (contestedSource p version).ledger
      (Registry.ofDocument genesis (contestedSource p version).network) = [p.beacon] :=
  h.watched_eq (settlingVisit_spends p version)

/-- Behind the first of the two transactions one update has been rejected. -/
theorem behind_contesting (h : Contest p version)
    (hopen : options.reached 1 = false) :
    Resolution.behind (contestedSource p version) options (.genesis did genesis 0)
      (contestingVisit p version) = atRejection ⟨2, 1⟩ := by
  obtain ⟨e, hrejected⟩ := h.premature_rejected
  have hconsider : Replay.consider (contestedSource p version).index (contestingVisit p version)
      (.genesis did genesis 0) p.beacon = atRejection ⟨0, 0⟩ := by
    have hdecode : Signal.decodeFor (contestedSource p version).index
        (Checkpoint.genesis did genesis 0).did p.beacon.kind
          (contestingVisit p version).transaction = some (premature version) := h.decode_contesting
    have hadvance : (premature version).advance (Checkpoint.genesis did genesis 0).document
        (Checkpoint.genesis did genesis 0).version (Checkpoint.genesis did genesis 0).did =
          .error e := hrejected
    simp only [Replay.consider, hdecode, hadvance]
    exact if_neg List.not_mem_nil
  have hwatched : (contestingVisit p version).watched (contestedSource p version).ledger
      (Registry.ofDocument (Checkpoint.genesis did genesis 0).document
        (contestedSource p version).network) = [p.beacon] := h.watched_contesting
  rw [Resolution.behind, hwatched, Replay.considerAll_cons _ _ (isDone_genesis hopen), hconsider]
  rfl

/-- Behind the second one the other has been applied. -/
theorem behind_settling (h : Contest p version)
    (hopen : options.reached 1 = false) :
    Resolution.behind (contestedSource p version) options (atRejection cursor)
      (settlingVisit p version) = atDeactivation p := by
  have hconsider : Replay.consider (contestedSource p version).index (settlingVisit p version)
      (atRejection cursor) p.beacon = { atDeactivation p with cursor := cursor } := by
    have hdecode : Signal.decodeFor (contestedSource p version).index
        (atRejection cursor).did p.beacon.kind (settlingVisit p version).transaction =
          some p.update := h.decode_settling
    have hadvance : p.update.advance (atRejection cursor).document
        (atRejection cursor).version (atRejection cursor).did =
          .ok ⟨deactivated, 2, p.hash⟩ := h.prepared_accepted
    simp only [Replay.consider, hdecode, hadvance]
    exact if_neg List.not_mem_nil
  have hwatched : (settlingVisit p version).watched (contestedSource p version).ledger
      (Registry.ofDocument (atRejection cursor).document
        (contestedSource p version).network) = [p.beacon] := h.watched_settling
  rw [Resolution.behind, hwatched, Replay.considerAll_cons _ _ (isDone_atRejection hopen),
    hconsider]
  rfl

/-- A replay goes through the first two transactions of the chain, -/
theorem run_contested (h : Contest p version) (hopen : options.reached 1 = false)
    (timely : options.time.any (· < 20) = false) (rest : List Visit) :
    Replay.run (contestedSource p version) options last (.genesis did genesis 0)
        (⟨1, 10, 0, funding p.beacon.script⟩ :: contestingVisit p version :: rest) =
      Replay.run (contestedSource p version) options last (atRejection ⟨2, 1⟩) rest := by
  have hgoing := isDone_genesis hopen
  rw [Replay.run_unwatched hgoing (watched_funding _ _ _),
    Replay.run_watched hgoing (h.watched_contesting ▸ List.cons_ne_nil _ _)]
  refine (if_neg (Bool.eq_false_iff.1 timely)).trans ?_
  exact congrArg (Replay.run _ options last · _) (h.behind_contesting hopen)

/-- stops in front of the third, -/
theorem run_settling_of_late (h : Contest p version)
    (hopen : options.reached 1 = false)
    (late : options.time.any (· < 30) = true) :
    Replay.run (contestedSource p version) options last (atRejection cursor)
      [settlingVisit p version] = atRejection ⟨3, 0⟩ := by
  rw [Replay.run_watched (isDone_atRejection hopen) (h.watched_settling ▸ List.cons_ne_nil _ _)]
  exact if_pos late

/-- or goes through it and ends the history. -/
theorem run_settling (h : Contest p version)
    (hopen : options.reached 1 = false)
    (timely : options.time.any (· < 30) = false) :
    Replay.run (contestedSource p version) options last (atRejection cursor)
      [settlingVisit p version] = atDeactivation p := by
  rw [Replay.run_watched (isDone_atRejection hopen) (h.watched_settling ▸ List.cons_ne_nil _ _)]
  refine (if_neg (Bool.eq_false_iff.1 timely)).trans ?_
  refine (congrArg (Replay.run _ options last · _) (h.behind_settling hopen)).trans ?_
  exact Replay.run_of_isDone (isDone_atDeactivation p options) _

end Contest

end Sample

/-! ## Resolving and replaying -/

namespace Resolver

variable {did : String} {sidecar : Sidecar} {options : ResolutionOptions}

/-- Resolving on a chain is replaying it from the genesis height on, whatever the window is. Version
zero is refused, for versions start at one. -/
theorem resolve_eq_replay {chain : Chain} (mined : chain.Mined) (config : ResolverConfig)
    {i : Identifier} {genesis : Document} (hi : identify did = .ok i)
    (hgenesis : Genesis.document i sidecar.genesisDocument = .ok genesis)
    (never : ∀ progress, options.cancelled progress = false) :
    Resolver.resolve ⟨chain.ledger, config⟩ did sidecar options =
      if options.version = some 0 then .error .versionZero
      else
        .ok (Replay.history ⟨chain.ledger, i.network, sidecar.index⟩ options did genesis
          (sidecar.genesisHeight.getD config.genesisHeight) chain.tip) := by
  split
  · next hzero => simp [resolve, checkOptions, hzero, bind, Except.bind]
  · next hversion => exact resolve_eq_history mined config hversion hi hgenesis never

/-- Going on from a checkpoint is replaying what is left of the chain. -/
theorem resume_eq_replay {chain : Chain} (mined : chain.Mined) (config : ResolverConfig)
    {c : Checkpoint} {i : Identifier} (hversion : options.version ≠ some 0)
    (hi : identify c.did = .ok i) (never : ∀ progress, options.cancelled progress = false) :
    resume ⟨chain.ledger, config⟩ c sidecar options =
      .ok (Replay.finish options (Replay.run ⟨chain.ledger, i.network, sidecar.index⟩ options
        ((options.height.map (min · chain.tip)).getD chain.tip) c
        (chain.ledger.visitsFrom c.cursor
          ((options.height.map (min · chain.tip)).getD chain.tip)))) :=
  (resume_eq_continueFrom hversion hi).trans
    (continueFrom_eq_replay mined.faultless never c i.network)

/-- The contested chain, with no block read ahead: up to a time between the two transactions, and
with all three bounds reached or passed at its end. -/
theorem resolve_eq_replay_sample : ∃ p version, Sample.Contest p version ∧
    resolve ⟨(Sample.contested p version).ledger, { window := 0 }⟩ Sample.did
        (Sample.contestedSidecar p version) { time := some 25 } =
      .ok (Replay.history (Sample.contestedSource p version) { time := some 25 } Sample.did
        Sample.genesis 0 3) ∧
    Replay.history (Sample.contestedSource p version) { time := some 25 } Sample.did
        Sample.genesis 0 3 =
      Replay.finish { time := some 25 } (Sample.atRejection ⟨3, 0⟩) ∧
    resolve ⟨(Sample.contested p version).ledger, { window := 0 }⟩ Sample.did
        (Sample.contestedSidecar p version)
          { version := some 2, time := some 35, height := some 7 } =
      .ok (Replay.history (Sample.contestedSource p version)
        { version := some 2, time := some 35, height := some 7 } Sample.did Sample.genesis 0 3) ∧
    Replay.history (Sample.contestedSource p version)
        { version := some 2, time := some 35, height := some 7 } Sample.did Sample.genesis 0 3 =
      Replay.finish { version := some 2, time := some 35, height := some 7 }
        (Sample.atDeactivation p) := by
  obtain ⟨p, version, contest⟩ := Sample.exists_contest
  have mined := Sample.mined_contested p version
  have hgenesis : Genesis.document Sample.identifier
      (Sample.contestedSidecar p version).genesisDocument = .ok Sample.genesis :=
    Sample.document_identifier
  refine ⟨p, version, contest, ?_, ?_, ?_, ?_⟩
  · exact (resolve_eq_replay mined { window := 0 } Sample.identify_did hgenesis fun _ => rfl).trans
      (if_neg (by decide))
  · refine congrArg (Replay.finish _) ((contest.run_contested rfl rfl _).trans ?_)
    exact contest.run_settling_of_late rfl rfl
  · exact (resolve_eq_replay mined { window := 0 } Sample.identify_did hgenesis fun _ => rfl).trans
      (if_neg (by decide))
  · refine congrArg (Replay.finish _) ((contest.run_contested rfl rfl _).trans ?_)
    exact contest.run_settling rfl rfl

/-- A replay that is to stop at version zero stops at the genesis document; the engine is not. -/
theorem resolve_ne_history_of_versionZero : ∃ genesis,
    Chain.start.Mined ∧ identify sample = .ok sampleIdentifier ∧
    Genesis.document sampleIdentifier none = .ok genesis ∧
    resolve ⟨Chain.start.ledger, {}⟩ sample .empty { version := some 0 } ≠
      .ok (Replay.history ⟨Chain.start.ledger, .regtest, Sidecar.index .empty⟩
        { version := some 0 } sample genesis 0 0) := by
  obtain ⟨genesis, hgenesis⟩ := genesis_sample
  refine ⟨genesis, .start, identify_sample, hgenesis, ?_⟩
  simp [resolve, checkOptions, bind, Except.bind]

end Resolver

end AnchoredDid
