import AnchoredDid.Proofs.Authentication
import AnchoredDid.Proofs.Extension

/-!
# What holds of every checkpoint

A checkpoint is handed back by a resolution, or by a run that went on from one that was handed back
before, and each of these runs may have a ledger, a sidecar, bounds and a window of its own.
`Checkpoint.Sound` says what no such run breaks: a candidate that is accepted adds an update that
was not applied before and the block it was signalled in, and the cursor never moves back. What a
run reports is read off the checkpoint that it ends at (`Resolution.Reports`), and a deactivated
document ends every run before it does anything. `Resolver.Outcome.sound` is all of this for any
number of runs, on every ledger that numbers its blocks, whatever questions it fails on.
-/

namespace AnchoredDid

/-- A ledger that fails on some questions numbers its blocks as before. -/
theorem Ledger.Numbered.failing {l : Ledger} (numbered : l.Numbered) (f : Faults) :
    (l.failing f).Numbered := by
  intro height block h
  rw [Ledger.failing] at h
  dsimp only at h
  split at h
  · cases h
  · exact numbered height block h

/-- What a search finds are the signals of one transaction of the range, in no earlier block. -/
theorem Scanner.next_found {l : Ledger} (numbered : l.Numbered) {registry : Registry}
    {s t : Scanner} (aligned : s.Aligned l) {signals : List Signal}
    (h : s.next l registry = (.found signals, t)) :
    t.Aligned l ∧ t.last = s.last ∧ ∃ (v : Visit) (beacons : List Beacon), v.On l ∧
      s.cursor.height ≤ v.height ∧ v.height ≤ s.last ∧ signals = beacons.map v.signal ∧
      t.cursor = v.next := by
  obtain ⟨walk, taligned, tlast⟩ := next_walk registry aligned
  rw [h] at walk taligned tlast
  obtain ⟨v, beacons, on, range, hplace, hcursor, hsignals, -⟩ := walk.found_at numbered
  rw [Cursor.Before] at hplace
  exact ⟨taligned, tlast, v, beacons, on, Nat.le_of_not_lt fun hlt => hplace (.inl hlt), range,
    hsignals, hcursor⟩

/-! ## Soundness -/

namespace Checkpoint

variable {did : String} {first : Nat} {c : Checkpoint}

/-- What holds of the checkpoints of an identifier whose history starts at a height. -/
structure Sound (did : String) (first : Nat) (c : Checkpoint) : Prop where
  did_eq : c.did = did
  accepted : Document.ofJson c.document.value = .ok c.document
  id_eq : c.document.id = did
  version_eq : c.version = 1 + c.applied.length
  distinct : c.applied.Nodup
  time_eq_none_iff : c.blockTime = none ↔ c.applied = []
  height_eq : c.applied = [] → c.blockHeight = first
  height_le : c.blockHeight ≤ c.cursor.height

theorem Sound.genesis {document : Document} (h : document.id = did) :
    (Checkpoint.genesis did document first).Sound did first where
  did_eq := rfl
  accepted := Document.ofJson_eq_ok_iff.2 rfl
  id_eq := h
  version_eq := rfl
  distinct := .nil
  time_eq_none_iff := ⟨fun _ => rfl, fun _ => rfl⟩
  height_eq _ := rfl
  height_le := Nat.le_refl _

theorem Sound.moved (h : c.Sound did first) {cursor : Cursor}
    (hle : c.cursor.height ≤ cursor.height) : Sound did first { c with cursor := cursor } :=
  { h with height_le := Nat.le_trans h.height_le hle }

/-- A candidate is counted at most, or it is an update that was not applied before. -/
theorem Sound.consider (h : c.Sound did first) (index : SidecarIndex) {v : Visit} (b : Beacon)
    (hcursor : v.height ≤ c.cursor.height) : (Replay.consider index v c b).Sound did first := by
  rcases Replay.consider_cases index v c b with
    ⟨rejectedCount, heq⟩ | ⟨u, next, -, hfresh, happly, heq⟩
  · rw [heq]
    exact { h with }
  · obtain ⟨-, -, -, hpatched, -, hnext⟩ := Update.advance_eq_ok_iff.1 happly
    have hversion : next.version = c.version + 1 := by rw [hnext]
    rw [heq]
    exact {
      did_eq := h.did_eq
      accepted := Document.ofJson_eq_ok_iff.2 rfl
      id_eq := (Update.patched_eq_ok_iff.1 hpatched).2.trans h.id_eq
      version_eq := by
        rw [Replay.accepted_version, Replay.accepted_applied, hversion, h.version_eq,
          List.length_append, List.length_singleton, Nat.add_assoc]
      distinct := List.nodup_append.2 ⟨h.distinct, List.pairwise_singleton _ _, by
        rintro digest hdigest _ hu rfl
        exact hfresh (List.mem_singleton.1 hu ▸ hdigest)⟩
      time_eq_none_iff := by simp [Replay.accepted]
      height_eq := by simp
      height_le := hcursor }

/-- The candidates of a transaction are tried with the cursor behind it. -/
theorem Sound.considerAll (h : c.Sound did first) (options : ResolutionOptions)
    (index : SidecarIndex) {v : Visit} (beacons : List Beacon)
    (hcursor : c.cursor.height ≤ v.height) :
    Sound did first { Replay.considerAll options index v c beacons with cursor := v.next } := by
  refine Replay.considerAll_induction (P := fun d => Sound did first { d with cursor := v.next })
    ?_ (h.moved hcursor) beacons
  intro d b hd
  rw [← Replay.consider_cursor]
  exact hd.consider index b (Nat.le_refl _)

end Checkpoint

/-! ## Reports -/

namespace Resolution

/-- What a resolution reports is what its checkpoint holds; it is terminated if the document is
deactivated and no version that was asked for is reached. -/
structure Reports (options : ResolutionOptions) (r : Resolution) : Prop where
  version_eq : r.metadata.version = r.checkpoint.version
  blockHeight_eq : r.metadata.blockHeight = r.checkpoint.blockHeight
  blockTime_eq : r.metadata.blockTime = r.checkpoint.blockTime
  rejectedCount_eq : r.metadata.rejectedCount = r.checkpoint.rejectedCount
  updateCount_eq : r.metadata.updateCount = r.checkpoint.applied.length
  deactivated_eq : r.metadata.deactivated = r.document.isDeactivated
  state_eq : r.metadata.state = .terminated ∨ r.metadata.state = .targetReached
  terminated_iff : r.metadata.state = .terminated ↔
    r.document.isDeactivated = true ∧ options.reached r.checkpoint.version = false
  beyond_iff : r.metadata.beyondDeactivation = true ↔
    r.metadata.state = .terminated ∧ ∃ version, options.version = some version ∧
      r.checkpoint.version < version

theorem reports_finish (options : ResolutionOptions) (c : Checkpoint) :
    (Replay.finish options c).Reports options where
  version_eq := rfl
  blockHeight_eq := rfl
  blockTime_eq := rfl
  rejectedCount_eq := rfl
  updateCount_eq := rfl
  deactivated_eq := rfl
  state_eq := by
    simp only [Replay.finish, ending]
    split
    · exact .inl rfl
    · exact .inr rfl
  terminated_iff := by simp [Replay.finish, ending, document]
  beyond_iff := by
    simp only [Replay.finish, ending, Bool.and_eq_true, decide_eq_true_eq, Option.any_eq_true]

variable {source : Source} {options : ResolutionOptions} {polls : Nat} {c c' : Checkpoint}
variable {s : Scanner}

/-- A run ends as a replay that ends at its checkpoint. -/
theorem traverse_eq_finish {r : Resolution} (h : traverse source options polls c s = .ok r) :
    r = Replay.finish options r.checkpoint := by
  fun_induction traverse source options polls c s with
  | case1 polls c s hreached =>
      cases h
      simp [Replay.finish, ending, hreached]
  | case2 polls c s hreached hdeactivated =>
      cases h
      simp [Replay.finish, ending, hreached, hdeactivated]
  | case3 | case4 => cases h
  | case5 polls c s hreached hdeactivated hcancelled t hnext =>
      cases h
      simp [Replay.finish, ending, hdeactivated]
  | case6 polls c s hreached hdeactivated hcancelled signals t hnext cursor hlate =>
      cases h
      simp [Replay.finish, ending, hdeactivated]
  | case7 =>
      rename_i ih
      exact ih h

/-! ## Runs -/

theorem late?_cursor {v : Visit} {beacons : List Beacon} {cursor : Cursor}
    (h : late? options (beacons.map v.signal) = some cursor) : cursor = v.cursor := by
  cases beacons with
  | nil => cases htime : options.time <;> simp [late?, htime] at h
  | cons b beacons =>
      rw [late?_signals v (List.cons_ne_nil b beacons)] at h
      split at h
      · exact (Option.some.inj h).symm
      · cases h

/-- A run hands back sound checkpoints only. -/
theorem traverse_sound (numbered : source.ledger.Numbered) {did : String} {first : Nat}
    (aligned : s.Aligned source.ledger) (hcursor : s.cursor = c.cursor) (sound : c.Sound did first)
    (h : handedBack? (traverse source options polls c s) = some c') : c'.Sound did first := by
  fun_induction traverse source options polls c s with
  | case1 | case2 | case3 =>
      cases h
      exact sound
  | case4 => cases h
  | case5 polls c s hreached hdeactivated hcancelled t hnext =>
      obtain ⟨walk, -, -⟩ :=
        Scanner.next_walk (Registry.ofDocument c.document source.network) aligned
      rw [hnext, hcursor] at walk
      cases h
      exact sound.moved walk.height_le
  | case6 polls c s hreached hdeactivated hcancelled signals t hnext cursor hlate =>
      obtain ⟨-, -, v, beacons, -, hheight, -, rfl, -⟩ := Scanner.next_found numbered aligned hnext
      cases h
      rw [hcursor] at hheight
      exact sound.moved ((late?_cursor hlate).symm ▸ hheight)
  | case7 polls c s hreached hdeactivated hcancelled signals t hnext hlate attempted ih =>
      obtain ⟨taligned, -, v, beacons, -, hheight, -, rfl, htcursor⟩ :=
        Scanner.next_found numbered aligned hnext
      have hdone : c.isDone options = false := by
        simp [Checkpoint.isDone, hreached, hdeactivated]
      have hattempted : attempted = Replay.considerAll options source.index v c beacons :=
        Checkpoint.attemptAll_signals hdone beacons
      refine ih taligned rfl ?_ h
      rw [htcursor, hattempted]
      exact sound.considerAll options source.index beacons (hcursor ▸ hheight)

/-- A deactivated document ends a run before it does anything. -/
theorem traverse_of_isDeactivated (h : c.document.isDeactivated = true) :
    traverse source options polls c s = .ok (Replay.finish options c) :=
  traverse_of_isDone (by simp [Checkpoint.isDone, h])

end Resolution

namespace Resolver

variable {r : Resolver} {c c' : Checkpoint} {network : Network} {sidecar : Sidecar}
variable {options : ResolutionOptions} {did : String} {first : Nat}

/-- To go on is to fail on the height of the chain or to traverse what is left of it. -/
theorem continueFrom_cases (r : Resolver) (c : Checkpoint) (network : Network) (sidecar : Sidecar)
    (options : ResolutionOptions) :
    (∃ e, r.continueFrom c network sidecar options = .error (.ledger e)) ∨
    ∃ last, r.continueFrom c network sidecar options =
      Resolution.traverse ⟨r.ledger, network, sidecar.index⟩ options 0 c
        (Scanner.resume c.cursor last r.config.window) := by
  rw [continueFrom]
  cases r.ledger.tip with
  | error e => exact .inl ⟨e, rfl⟩
  | ok tip => exact .inr ⟨_, rfl⟩

theorem continueFrom_sound (numbered : r.ledger.Numbered) (sound : c.Sound did first)
    (h : Resolution.handedBack? (r.continueFrom c network sidecar options) = some c') :
    c'.Sound did first := by
  rcases r.continueFrom_cases c network sidecar options with ⟨e, heq⟩ | ⟨last, heq⟩
  · rw [heq] at h
    cases h
  · rw [heq] at h
    exact Resolution.traverse_sound numbered (Scanner.aligned_resume _ _ _ _) rfl sound h

theorem continueFrom_reports {result : Resolution}
    (h : r.continueFrom c network sidecar options = .ok result) : result.Reports options := by
  rcases r.continueFrom_cases c network sidecar options with ⟨e, heq⟩ | ⟨last, heq⟩
  · rw [heq] at h
    cases h
  · rw [heq] at h
    rw [Resolution.traverse_eq_finish h]
    exact Resolution.reports_finish options _

/-- A run goes on from a checkpoint or is refused at once. -/
theorem resume_cases (r : Resolver) (c : Checkpoint) (sidecar : Sidecar)
    (options : ResolutionOptions) :
    (∃ e, r.resume c sidecar options = .error e ∧ ∀ c', e ≠ .cancelled c') ∨
    ∃ i, identify c.did = .ok i ∧
      r.resume c sidecar options = r.continueFrom c i.network sidecar options := by
  by_cases hversion : options.version = some 0
  · refine .inl ⟨.versionZero, ?_, by simp⟩
    simp [resume, checkOptions, hversion, bind, Except.bind]
  · cases hi : identify c.did with
    | ok i => exact .inr ⟨i, rfl, resume_eq_continueFrom hversion hi⟩
    | error e =>
        refine .inl ⟨e, by simp [resume, checkOptions_of_ne hversion, hi, bind, Except.bind], ?_⟩
        exact identify_ne_cancelled hi

theorem handedBack?_error {e : ResolveError} (h : ∀ c, e ≠ .cancelled c) :
    Resolution.handedBack? (.error e) = none := by
  cases e with
  | cancelled c => exact absurd rfl (h c)
  | _ => rfl

/-- A resolution that hands back a checkpoint was not refused. -/
theorem resolve_of_handedBack
    (handed : Resolution.handedBack? (r.resolve did sidecar options) = some c) :
    ∃ i genesis, options.version ≠ some 0 ∧ identify did = .ok i ∧
      Genesis.document i sidecar.genesisDocument = .ok genesis ∧
      r.resolve did sidecar options =
        r.continueFrom
          (.genesis did genesis (sidecar.genesisHeight.getD r.config.genesisHeight))
          i.network sidecar options := by
  rcases r.resolve_cases did sidecar options with ⟨e, heq, hrefused⟩ | hcontinued
  · rw [heq, handedBack?_error hrefused] at handed
    cases handed
  · exact hcontinued

/-- Nor was a run that goes on and hands back one. -/
theorem resume_of_handedBack
    (handed : Resolution.handedBack? (r.resume c sidecar options) = some c') :
    ∃ i, identify c.did = .ok i ∧
      r.resume c sidecar options = r.continueFrom c i.network sidecar options := by
  rcases r.resume_cases c sidecar options with ⟨e, heq, hrefused⟩ | hcontinued
  · rw [heq, handedBack?_error hrefused] at handed
    cases handed
  · exact hcontinued

/-- What a resolution, and any number of runs that went on from one another, end with. The last of
them had these options; each had a ledger, a configuration and a sidecar of its own. -/
inductive Outcome (did : String) (first : Nat) :
    ResolutionOptions → Except ResolveError Resolution → Prop
  | resolved {r : Resolver} (numbered : r.ledger.Numbered) (sidecar : Sidecar)
      (start : sidecar.genesisHeight.getD r.config.genesisHeight = first)
      (options : ResolutionOptions) : Outcome did first options (r.resolve did sidecar options)
  | resumed {before : ResolutionOptions} {o : Except ResolveError Resolution} {c : Checkpoint}
      {r : Resolver} (past : Outcome did first before o)
      (handed : Resolution.handedBack? o = some c) (numbered : r.ledger.Numbered)
      (sidecar : Sidecar) (options : ResolutionOptions) :
      Outcome did first options (r.resume c sidecar options)

/-- Every run hands back sound checkpoints. -/
theorem Outcome.handsBack {o : Except ResolveError Resolution} (h : Outcome did first options o)
    (handed : Resolution.handedBack? o = some c) : c.Sound did first := by
  induction h generalizing c with
  | @resolved r numbered sidecar start options =>
      obtain ⟨i, genesis, -, hi, hgenesis, heq⟩ := resolve_of_handedBack handed
      have hid : genesis.id = did := (Genesis.document_id hgenesis).trans
        (Identifier.decode_eq_ok_iff.1 (identify_decode hi)).1
      rw [heq, start] at handed
      exact continueFrom_sound numbered (.genesis hid) handed
  | @resumed before o c₀ r past hpast numbered sidecar options ih =>
      obtain ⟨i, hi, heq⟩ := resume_of_handedBack handed
      rw [heq] at handed
      exact continueFrom_sound numbered (ih hpast) handed

/-- Every resolution reports its checkpoint. -/
theorem Outcome.reports {result : Resolution} (h : Outcome did first options (.ok result)) :
    result.Reports options := by
  generalize ho : Except.ok result = o at h
  have handed : Resolution.handedBack? o = some result.checkpoint := ho ▸ rfl
  cases h with
  | @resolved r numbered sidecar start options =>
      obtain ⟨i, genesis, -, -, -, heq⟩ := resolve_of_handedBack handed
      exact continueFrom_reports (heq ▸ ho.symm)
  | @resumed before o c₀ r past hpast numbered sidecar options =>
      obtain ⟨i, -, heq⟩ := resume_of_handedBack handed
      exact continueFrom_reports (heq ▸ ho.symm)

/-- Nothing changes once the document is deactivated. -/
theorem resume_of_isDeactivated (h : c.document.isDeactivated = true)
    (handed : Resolution.handedBack? (r.resume c sidecar options) = some c') : c' = c := by
  obtain ⟨i, -, heq⟩ := resume_of_handedBack handed
  rcases r.continueFrom_cases c i.network sidecar options with ⟨e, hfailed⟩ | ⟨last, hcontinued⟩
  · rw [heq, hfailed] at handed
    cases handed
  · rw [heq, hcontinued, Resolution.traverse_of_isDeactivated h] at handed
    exact (Option.some.inj handed).symm

/-- Whatever runs went on from one another, from a resolution on: the checkpoint that the last one
hands back, at its end or when it was cancelled, is sound; a resolution reports what its checkpoint
holds; and once the document is deactivated, any run that goes on hands back the same checkpoint. -/
theorem Outcome.sound {o : Except ResolveError Resolution} (h : Outcome did first options o) :
    (∀ c, Resolution.handedBack? o = some c → c.Sound did first) ∧
    (∀ result, o = .ok result → result.Reports options) ∧
    ∀ c, Resolution.handedBack? o = some c → c.document.isDeactivated = true →
      ∀ (r : Resolver) (sidecar : Sidecar) (options' : ResolutionOptions) (c' : Checkpoint),
        Resolution.handedBack? (r.resume c sidecar options') = some c' → c' = c := by
  refine ⟨fun c => h.handsBack, ?_, ?_⟩
  · rintro result rfl
    exact h.reports
  · intro c _ hdeactivated r sidecar options' c'
    exact resume_of_isDeactivated hdeactivated

end Resolver

/-! ## Three legs on the contested chain -/

namespace Sample.Contest

variable {p : PreparedUpdate} {version : Nat}

/-- Without its third block the chain resolves up to the second one. -/
theorem resolve_failing (h : Contest p version) :
    Resolver.resolve ⟨(contested p version).ledger.failing ⟨false, [3], []⟩, {}⟩ did
        (contestedSidecar p version) { height := some 2 } =
      .ok (Replay.finish { height := some 2 } (atRejection ⟨3, 0⟩)) := by
  have hgenesis : Genesis.document identifier (contestedSidecar p version).genesisDocument =
      .ok genesis := document_identifier
  have same : (contested p version).ledger.SameUpTo
      ((contested p version).ledger.failing ⟨false, [3], []⟩) 2 :=
    Ledger.sameUpTo_failing _ (List.forall_mem_singleton.2 (by decide)) rfl
  have htip : (contested p version).ledger.tip = .ok 3 := rfl
  have htip' : ((contested p version).ledger.failing ⟨false, [3], []⟩).tip = .ok 3 := rfl
  refine (Resolver.resolve_of_sameUpTo same htip htip' {} did _ rfl (by decide) (by decide)
    (by decide)).trans ?_
  refine (Resolver.resolve_eq_history (mined_contested p version) {} (by decide) identify_did
    hgenesis fun _ => rfl).trans ?_
  exact congrArg (Except.ok ∘ Replay.finish _)
    ((h.run_contested rfl rfl _).trans (Replay.run_nil (isDone_atRejection rfl)))

/-- Going on with all of its blocks, a run comes to the deactivation before the version asked
for. -/
theorem resume_contested (h : Contest p version) :
    Resolver.resume ⟨(contested p version).ledger, { window := 1 }⟩ (atRejection ⟨3, 0⟩)
        (contestedSidecar p version) { version := some 5 } =
      .ok (Replay.finish { version := some 5 } (atDeactivation p)) := by
  have hidentify : Resolver.identify (atRejection ⟨3, 0⟩).did = .ok identifier := identify_did
  exact (Resolver.resume_eq_replay (mined_contested p version) _ (by decide) hidentify
    fun _ => rfl).trans (congrArg (Except.ok ∘ Replay.finish _) (h.run_settling rfl rfl))

end Sample.Contest

namespace Resolver

/-- The contested chain. A run that does not get the third block stops before it; the next one gets
it and ends the history; one on a longer chain with other faults, and without the updates, adds
nothing. -/
theorem Outcome.sound_sample : ∃ p version, Sample.Contest p version ∧
    resolve ⟨(Sample.contested p version).ledger.failing ⟨false, [3], []⟩, {}⟩ Sample.did
        (Sample.contestedSidecar p version) { height := some 2 } =
      .ok (Replay.finish { height := some 2 } (Sample.atRejection ⟨3, 0⟩)) ∧
    (Sample.atRejection ⟨3, 0⟩).Sound Sample.did 0 ∧
    resume ⟨(Sample.contested p version).ledger, { window := 1 }⟩ (Sample.atRejection ⟨3, 0⟩)
        (Sample.contestedSidecar p version) { version := some 5 } =
      .ok (Replay.finish { version := some 5 } (Sample.atDeactivation p)) ∧
    (Sample.atDeactivation p).Sound Sample.did 0 ∧
    (Replay.finish { version := some 5 } (Sample.atDeactivation p)).Reports { version := some 5 } ∧
    (Replay.finish { version := some 5 } (Sample.atDeactivation p)).metadata.beyondDeactivation =
      true ∧
    ∃ c, Resolution.handedBack? (resume
        ⟨((Sample.contested p version).mine 40 [Sample.contesting p version]).ledger.failing
          ⟨false, [4], []⟩, {}⟩ (Sample.atDeactivation p) .empty {}) = some c ∧
      c = Sample.atDeactivation p := by
  obtain ⟨p, version, contest⟩ := Sample.exists_contest
  have numbered := (Sample.mined_contested p version).faultless.numbered
  have hfirst := contest.resolve_failing
  have hsecond := contest.resume_contested
  have first : Outcome Sample.did 0 { height := some 2 } _ :=
    .resolved (r := ⟨(Sample.contested p version).ledger.failing ⟨false, [3], []⟩, {}⟩)
      (numbered.failing _) (Sample.contestedSidecar p version) rfl { height := some 2 }
  have handed : Resolution.handedBack? _ = some (Sample.atRejection ⟨3, 0⟩) :=
    congrArg Resolution.handedBack? hfirst
  have second : Outcome Sample.did 0 { version := some 5 } _ :=
    .resumed (r := ⟨(Sample.contested p version).ledger, { window := 1 }⟩) first handed numbered
      (Sample.contestedSidecar p version) { version := some 5 }
  rw [hsecond] at second
  obtain ⟨hsound, hreports, hended⟩ := Outcome.sound second
  have hidentify : identify (Sample.atDeactivation p).did = .ok Sample.identifier :=
    Sample.identify_did
  have hthird : resume
      ⟨((Sample.contested p version).mine 40 [Sample.contesting p version]).ledger.failing
        ⟨false, [4], []⟩, {}⟩ (Sample.atDeactivation p) .empty {} =
          .ok (Replay.finish {} (Sample.atDeactivation p)) :=
    (resume_eq_continueFrom (by decide) hidentify).trans
      (Resolution.traverse_of_isDone (Sample.isDone_atDeactivation p {}))
  have hagain := congrArg Resolution.handedBack? hthird
  have reports := hreports _ rfl
  have beyond := reports.beyond_iff.2
    ⟨reports.terminated_iff.2 ⟨Sample.isDeactivated_deactivated, rfl⟩, 5, rfl,
      show 2 < 5 by decide⟩
  exact ⟨p, version, contest, hfirst, (Outcome.sound first).1 _ handed, hsecond, hsound _ rfl,
    reports, beyond, _, hagain, hended _ rfl Sample.isDeactivated_deactivated _ _ _ _ hagain⟩

end Resolver

end AnchoredDid
