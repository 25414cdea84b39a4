import AnchoredDid.Proofs.Refinement

/-!
# Interrupted resolutions

A run may stop early in four ways: a version, a time or a height that it was given, or cancellation
at any of its polls. Each leaves the checkpoint at another place, but `Replay.outcome`, the end of
the unbounded replay from a checkpoint, is the same before and after every run
(`Replay.Follows`, `Resolution.traverse_handsBack`). So runs that go on from one another end where
one run would have ended, whatever their windows and bounds are (`Resolver.resume_interrupted`).
-/

namespace AnchoredDid

namespace Replay

variable {index : SidecarIndex} {v : Visit} {c : Checkpoint} {beacons : List Beacon}
variable {options options' : ResolutionOptions}

/-- A candidate leaves the document as it is, or is applied from then on. -/
theorem consider_settled (index : SidecarIndex) (v : Visit) (c : Checkpoint) (b : Beacon) :
    (∀ options, (consider index v c b).isDone options = c.isDone options) ∨
      ∃ u, Signal.decodeFor index c.did b.kind v.transaction = some u ∧
        u.hash ∈ (consider index v c b).applied := by
  rcases consider_cases index v c b with ⟨_, heq⟩ | ⟨u, next, hu, -, -, heq⟩
  · exact .inl fun options => by rw [heq]; rfl
  · exact .inr ⟨u, hu, by simp [heq]⟩

/-- If all beacons announce the same update, it does not matter after which of them a run stops:
behind the one that is accepted, the others announce what was applied before. -/
theorem considerAll_options (h : c.isDone options = false) (h' : c.isDone options' = false)
    (agree : ∀ b ∈ beacons, ∀ b' ∈ beacons, ∀ u u',
      Signal.decodeFor index c.did b.kind v.transaction = some u →
      Signal.decodeFor index c.did b'.kind v.transaction = some u' → u = u') :
    considerAll options index v c beacons = considerAll options' index v c beacons := by
  induction beacons generalizing c with
  | nil => rfl
  | cons b rest ih =>
      rw [considerAll_cons index v h, considerAll_cons index v h']
      rcases consider_settled index v c b with hsame | ⟨u, hu, happlied⟩
      · refine ih ((hsame options).trans h) ((hsame options').trans h') ?_
        intro b₁ h₁ b₂ h₂
        rw [consider_did]
        exact agree b₁ (List.mem_cons_of_mem _ h₁) b₂ (List.mem_cons_of_mem _ h₂)
      · have hsettled : ∀ b' ∈ rest,
            consider index v (consider index v c b) b' = consider index v c b := by
          intro b' hb'
          apply consider_eq_self
          intro u' hu'
          rw [consider_did] at hu'
          have heq : u = u' :=
            agree b List.mem_cons_self b' (List.mem_cons_of_mem _ hb') u u' hu hu'
          exact heq ▸ happlied
        rw [considerAll_eq_self hsettled, considerAll_eq_self hsettled]

/-- The checkpoint that the unbounded replay from a checkpoint ends with. -/
def outcome (source : Resolution.Source) (tip : Nat) (c : Checkpoint) : Checkpoint :=
  run source {} tip c (source.ledger.visitsFrom c.cursor tip)

/-- No transaction that is still to come announces two updates for the identifier, through whichever
of the beacons it spends from. -/
def Unambiguous (source : Resolution.Source) (tip : Nat) (c : Checkpoint) : Prop :=
  ∀ group ∈ upcoming source tip c, ∀ s ∈ group, ∀ s' ∈ group, ∀ u u',
    s.decode source.index c.did = some u → s'.decode source.index c.did = some u' → u = u'

/-- A checkpoint is on the way of the unbounded replay from another: no signal lies ahead of it that
did not lie ahead of the other, and the replay from it ends where the other's ends. -/
structure Follows (source : Resolution.Source) (tip : Nat) (c c' : Checkpoint) : Prop where
  did : c'.did = c.did
  ahead : upcoming source tip c' <:+ upcoming source tip c
  outcome : outcome source tip c' = outcome source tip c

section Follows

variable {source : Resolution.Source} {tip last : Nat} {c c' c'' : Checkpoint} {passed : List Visit}

theorem Follows.refl (source : Resolution.Source) (tip : Nat) (c : Checkpoint) :
    Follows source tip c c :=
  ⟨rfl, List.suffix_refl _, rfl⟩

theorem Follows.trans (h : Follows source tip c c') (h' : Follows source tip c' c'') :
    Follows source tip c c'' :=
  ⟨h'.did.trans h.did, h'.ahead.trans h.ahead, h'.outcome.trans h.outcome⟩

theorem Unambiguous.of_follows (h : Unambiguous source tip c) (follows : Follows source tip c c') :
    Unambiguous source tip c' := by
  intro group hgroup s hs s' hs' u u' hu hu'
  rw [follows.did] at hu hu'
  exact h group (follows.ahead.subset hgroup) s hs s' hs' u u' hu hu'

theorem Unambiguous.agree (h : Unambiguous source tip c)
    (hgroup : beacons.map v.signal ∈ upcoming source tip c) :
    ∀ b ∈ beacons, ∀ b' ∈ beacons, ∀ u u',
      Signal.decodeFor source.index c.did b.kind v.transaction = some u →
      Signal.decodeFor source.index c.did b'.kind v.transaction = some u' → u = u' := by
  intro b hb b' hb' u u' hu hu'
  exact h _ hgroup _ (List.mem_map_of_mem hb) _ (List.mem_map_of_mem hb') u u' hu hu'

/-- The end of a range in which nothing was watched follows. -/
theorem Follows.past (h : c.isDone {} = false) (hlast : last ≤ tip)
    (hpassed : ∀ u ∈ source.ledger.visitsFrom c.cursor last,
      u.watched source.ledger (Registry.ofDocument c.document source.network) = []) :
    Follows source tip c { c with cursor := c.cursor.past last } where
  did := rfl
  ahead := by
    have hahead : upcoming source tip c =
        upcoming source tip { c with cursor := c.cursor.past last } := by
      rw [upcoming, upcoming, signals_cursor (c.cursor.past last),
        Ledger.visitsFrom_past c.cursor hlast, signals_passed h hpassed]
    exact hahead ▸ List.suffix_refl _
  outcome := by
    have hpast := Cursor.past_past (c := c.cursor) hlast
    rw [Replay.outcome, run_cursor h hpast, Replay.outcome, Ledger.visitsFrom_past c.cursor hlast,
      run_passed h hpassed]

section Watched

variable (h : c.isDone {} = false)
variable (hvisits : source.ledger.visitsFrom c.cursor tip =
  passed ++ v :: source.ledger.visitsFrom v.next tip)
variable (hpassed : ∀ u ∈ passed,
  u.watched source.ledger (Registry.ofDocument c.document source.network) = [])
variable (hwatched : v.watched source.ledger (Registry.ofDocument c.document source.network) ≠ [])
include h hvisits hpassed

theorem upcoming_watched :
    upcoming source tip c = signals source {} c (v :: source.ledger.visitsFrom v.next tip) := by
  rw [upcoming, hvisits, signals_passed h hpassed]

theorem outcome_watched :
    outcome source tip c = run source {} tip c (v :: source.ledger.visitsFrom v.next tip) := by
  rw [outcome, hvisits, run_passed h hpassed]

include hwatched

/-- So does the place of the next transaction that is watched. -/
theorem Follows.at_watched (numbered : source.ledger.Numbered) (on : v.On source.ledger)
    (hheight : v.height ≤ tip) : Follows source tip c { c with cursor := v.cursor } where
  did := rfl
  ahead := by
    have hahead : upcoming source tip { c with cursor := v.cursor } = upcoming source tip c := by
      rw [upcoming_watched h hvisits hpassed, upcoming, Ledger.visitsFrom_of_on numbered on hheight,
        signals_cursor]
    exact hahead ▸ List.suffix_refl _
  outcome := by
    have hmoved : Checkpoint.isDone { c with cursor := v.cursor } {} = false := h
    rw [outcome_watched h hvisits hpassed, Replay.outcome,
      Ledger.visitsFrom_of_on numbered on hheight, run_watched h hwatched,
      run_watched hmoved hwatched]
    simp only [considerAll_cursor]

/-- So does the place behind it, whatever bounds its signals were tried under. -/
theorem Follows.step (hopen : c.isDone options = false) (unambiguous : Unambiguous source tip c) :
    Follows source tip c
      { considerAll options source.index v c
          (v.watched source.ledger (Registry.ofDocument c.document source.network))
        with cursor := v.next } := by
  have hahead := upcoming_watched h hvisits hpassed
  rw [signals_watched h hwatched] at hahead
  simp only [Option.any_none, Bool.false_eq_true, if_false] at hahead
  have hsame := considerAll_options hopen h (unambiguous.agree (hahead ▸ List.mem_cons_self))
  refine ⟨by simp, ?_, ?_⟩
  · rw [hahead, hsame]
    exact List.suffix_cons _ _
  · rw [outcome_watched h hvisits hpassed, run_watched h hwatched, hsame]
    rfl

end Watched

end Follows

end Replay

namespace Resolution

variable {source : Source} {options : ResolutionOptions} {polls tip : Nat}
variable {c : Checkpoint} {s : Scanner}

/-- The checkpoint that a run hands back, at its end or when it is cancelled. -/
def handedBack? : Except ResolveError Resolution → Option Checkpoint
  | .ok r => some r.checkpoint
  | .error (.cancelled c) => some c
  | .error _ => none

/-- Whatever stops a run, it hands back a checkpoint on the way from the one it started from. -/
theorem traverse_handsBack (faultless : source.ledger.Faultless tip) (hlast : s.last ≤ tip)
    (aligned : s.Aligned source.ledger) (hcursor : s.cursor = c.cursor)
    (unambiguous : Replay.Unambiguous source tip c) :
    ∃ c', handedBack? (traverse source options polls c s) = some c' ∧
      Replay.Follows source tip c c' := by
  induction hn : (source.ledger.visitsFrom s.cursor s.last).length using Nat.strongRecOn
    generalizing polls c s with
  | ind n ih =>
      cases h : c.isDone options with
      | true => exact ⟨c, by rw [traverse_of_isDone h]; rfl, .refl source tip c⟩
      | false =>
          -- the unbounded replay goes on from here as well
          have hfree : c.isDone {} = false := (Checkpoint.isDone_eq_false h).2
          cases hcancelled : options.cancelled ⟨polls, s.asked⟩ with
          | true =>
              exact ⟨c, by rw [traverse_of_cancelled h hcancelled]; rfl, .refl source tip c⟩
          | false =>
              rcases traverse_turn faultless hlast aligned h hcancelled with ⟨hall, heq⟩ |
                ⟨passed, v, t, on, range, hvisits, hall, hsome, taligned, tlast, tcursor, heq⟩
              · rw [hcursor] at hall heq
                exact ⟨_, by rw [heq]; rfl, .past hfree hlast hall⟩
              · have hrest := hvisits tip hlast
                rw [hcursor, tcursor] at hrest
                by_cases hlate : options.time.any (· < v.time)
                · exact ⟨_, by rw [heq, if_pos hlate]; rfl, .at_watched hfree hrest hall hsome
                    faultless.numbered on (Nat.le_trans range hlast)⟩
                · have hshorter : (source.ledger.visitsFrom t.cursor t.last).length < n := by
                    rw [tlast, ← hn, hvisits s.last (Nat.le_refl _)]
                    simp only [List.length_append, List.length_cons]
                    omega
                  have follows := Replay.Follows.step hfree hrest hall hsome h unambiguous
                  obtain ⟨c', hc', follows'⟩ := ih _ hshorter (tlast ▸ hlast) taligned tcursor
                    (unambiguous.of_follows follows) rfl
                  exact ⟨c', by rw [heq, if_neg hlate]; exact hc', follows.trans follows'⟩

end Resolution

/-- A further run: how its resolver is set up and what bounds it. -/
structure Leg where
  config : ResolverConfig
  options : ResolutionOptions

namespace Resolver

variable {l : Ledger} {tip : Nat} {did : String} {sidecar : Sidecar}

/-- Runs that go on from one another, each from the checkpoint that the one before it handed
back. -/
def resumeAll (l : Ledger) (sidecar : Sidecar) : Checkpoint → List Leg → Option Checkpoint
  | c, [] => some c
  | c, leg :: rest =>
    (Resolution.handedBack? (resume ⟨l, leg.config⟩ c sidecar leg.options)).bind
      (resumeAll l sidecar · rest)

theorem continueFrom_handsBack (faultless : l.Faultless tip) (config : ResolverConfig)
    (options : ResolutionOptions) {c : Checkpoint} {network : Network}
    (unambiguous : Replay.Unambiguous ⟨l, network, sidecar.index⟩ tip c) :
    ∃ c', Resolution.handedBack? (continueFrom ⟨l, config⟩ c network sidecar options) = some c' ∧
      Replay.Follows ⟨l, network, sidecar.index⟩ tip c c' := by
  rw [continueFrom_eq faultless]
  exact Resolution.traverse_handsBack faultless (last_le options tip)
    (Scanner.aligned_resume l c.cursor _ _) rfl unambiguous

theorem version_ne_of_handedBack {config : ResolverConfig} {options : ResolutionOptions}
    {c c' : Checkpoint}
    (h : Resolution.handedBack? (resume ⟨l, config⟩ c sidecar options) = some c') :
    options.version ≠ some 0 := by
  intro hzero
  simp [resume, checkOptions, hzero, bind, Except.bind, Resolution.handedBack?] at h

/-- Any number of further runs stay on the way. -/
theorem resumeAll_follows (faultless : l.Faultless tip) {i : Identifier} (hi : identify did = .ok i)
    {c c' : Checkpoint} (hdid : c.did = did)
    (unambiguous : Replay.Unambiguous ⟨l, i.network, sidecar.index⟩ tip c) {legs : List Leg}
    (h : resumeAll l sidecar c legs = some c') :
    Replay.Follows ⟨l, i.network, sidecar.index⟩ tip c c' := by
  induction legs generalizing c with
  | nil =>
      cases h
      exact .refl _ tip _
  | cons leg rest ih =>
      obtain ⟨c₁, hleg, hrest⟩ := Option.bind_eq_some_iff.1 h
      have hversion := version_ne_of_handedBack hleg
      rw [resume_eq_continueFrom hversion (hdid ▸ hi)] at hleg
      obtain ⟨c₂, hc₂, follows⟩ :=
        continueFrom_handsBack faultless leg.config leg.options unambiguous
      obtain rfl : c₁ = c₂ := Option.some.inj (hleg.symm.trans hc₂)
      exact follows.trans (ih (follows.did.trans hdid) (unambiguous.of_follows follows) hrest)

/-- Every run hands back a checkpoint, unless it asks for version zero. -/
theorem resumeAll_handsBack (faultless : l.Faultless tip) {i : Identifier}
    (hi : identify did = .ok i) {legs : List Leg}
    (hversions : ∀ leg ∈ legs, leg.options.version ≠ some 0) {c : Checkpoint} (hdid : c.did = did)
    (unambiguous : Replay.Unambiguous ⟨l, i.network, sidecar.index⟩ tip c) :
    ∃ c', resumeAll l sidecar c legs = some c' := by
  induction legs generalizing c with
  | nil => exact ⟨c, rfl⟩
  | cons leg rest ih =>
      obtain ⟨hversion, hrest⟩ := List.forall_mem_cons.1 hversions
      obtain ⟨c₁, hc₁, follows⟩ :=
        continueFrom_handsBack faultless leg.config leg.options unambiguous
      obtain ⟨c', hc'⟩ := ih hrest (follows.did.trans hdid) (unambiguous.of_follows follows)
      refine ⟨c', ?_⟩
      rw [resumeAll, resume_eq_continueFrom hversion (hdid ▸ hi), hc₁]
      exact hc'

/-- The unbounded run from a checkpoint ends with its outcome. -/
theorem continueFrom_unbounded (faultless : l.Faultless tip) (config : ResolverConfig)
    (c : Checkpoint) (network : Network) :
    continueFrom ⟨l, config⟩ c network sidecar {} =
      .ok (Replay.finish {} (Replay.outcome ⟨l, network, sidecar.index⟩ tip c)) :=
  continueFrom_eq_replay faultless (fun _ => rfl) c network

/-- Interruption never changes the answer. Let a resolution be stopped by any bound or cancellation,
and any number of further runs, each stopped in any way, go on from one another. Then any run that
goes on from there hands back a checkpoint again, and the one without bounds ends with the very
resolution that one uninterrupted run would have ended with. -/
theorem resume_interrupted (faultless : l.Faultless tip) {config : ResolverConfig}
    {options : ResolutionOptions} {legs : List Leg} {c : Checkpoint}
    (unambiguous : ∀ i genesis, identify did = .ok i →
      Genesis.document i sidecar.genesisDocument = .ok genesis →
      Replay.Unambiguous ⟨l, i.network, sidecar.index⟩ tip
        (.genesis did genesis (sidecar.genesisHeight.getD config.genesisHeight)))
    (stopped : (Resolution.handedBack? (resolve ⟨l, config⟩ did sidecar options)).bind
      (resumeAll l sidecar · legs) = some c) (window : Nat) (further : ResolverConfig) :
    (∀ options', options'.version ≠ some 0 →
      ∃ c', Resolution.handedBack? (resume ⟨l, further⟩ c sidecar options') = some c') ∧
    ∃ result, resume ⟨l, further⟩ c sidecar {} = .ok result ∧
      resolve ⟨l, { config with window := window }⟩ did sidecar {} = .ok result := by
  obtain ⟨c₀, hfirst, hlegs⟩ := Option.bind_eq_some_iff.1 stopped
  rcases resolve_cases ⟨l, config⟩ did sidecar options with
    ⟨e, heq, hcancelled⟩ | ⟨i, genesis, hversion, hi, hgenesis, heq⟩
  · rw [heq] at hfirst
    cases e with
    | cancelled c => exact absurd rfl (hcancelled c)
    | _ => cases hfirst
  · have hfree : ({} : ResolutionOptions).version ≠ some 0 := by decide
    rw [heq] at hfirst
    have hgenesisUnambiguous := unambiguous i genesis hi hgenesis
    obtain ⟨c₁, hc₁, first⟩ := continueFrom_handsBack faultless config options hgenesisUnambiguous
    obtain rfl : c₀ = c₁ := Option.some.inj (hfirst.symm.trans hc₁)
    have follows := first.trans (resumeAll_follows faultless hi first.did
      (hgenesisUnambiguous.of_follows first) hlegs)
    have hdid : c.did = did := follows.did
    refine ⟨?_, Replay.finish {} (Replay.outcome ⟨l, i.network, sidecar.index⟩ tip c), ?_, ?_⟩
    · intro options' hoptions'
      rw [resume_eq_continueFrom hoptions' (hdid ▸ hi)]
      obtain ⟨c', hc', -⟩ := continueFrom_handsBack faultless further options'
        (hgenesisUnambiguous.of_follows follows)
      exact ⟨c', hc'⟩
    · rw [resume_eq_continueFrom hfree (hdid ▸ hi)]
      exact continueFrom_unbounded faultless further c i.network
    · rw [resolve_eq_continueFrom hfree hi hgenesis, follows.outcome]
      exact continueFrom_unbounded faultless _ _ i.network

end Resolver

namespace Sample

variable {p : PreparedUpdate} {version : Nat}

/-- What is signalled on the contested chain. -/
theorem Contest.upcoming_contested (h : Contest p version) :
    Replay.upcoming (contestedSource p version) 3 (.genesis did genesis 0) =
      [[(contestingVisit p version).signal p.beacon],
        [(settlingVisit p version).signal p.beacon]] := by
  have hopen : (Checkpoint.genesis did genesis 0).isDone {} = false := isDone_genesis rfl
  have hrejected : (atRejection ⟨2, 1⟩).isDone {} = false := isDone_atRejection rfl
  have hfirst := Resolution.signals_behind hopen h.watched_contesting (List.cons_ne_nil _ [])
    [settlingVisit p version]
  have hsecond := Resolution.signals_behind hrejected h.watched_settling (List.cons_ne_nil _ []) []
  rw [h.behind_contesting rfl] at hfirst
  rw [h.behind_settling rfl, Replay.signals_of_isDone (isDone_atDeactivation p {})] at hsecond
  rw [Replay.upcoming_genesis]
  refine (congrArg (Replay.signals _ {} _) (visits_contested p version)).trans ?_
  rw [Replay.signals_unwatched hopen (watched_funding _ _ _), hfirst, hsecond]
  rfl

/-- Each of the two transactions announces one update only. -/
theorem Contest.unambiguous (h : Contest p version) {i : Identifier} {d : Document}
    (hi : Resolver.identify did = .ok i)
    (hd : Genesis.document i (contestedSidecar p version).genesisDocument = .ok d) :
    Replay.Unambiguous ⟨(contested p version).ledger, i.network, (contestedSidecar p version).index⟩
      3 (.genesis did d 0) := by
  obtain rfl : identifier = i := Except.ok.inj (identify_did.symm.trans hi)
  obtain rfl : genesis = d := Except.ok.inj (document_identifier.symm.trans hd)
  have hupcoming : Replay.upcoming (contestedSource p version) 3 (.genesis did genesis 0) =
      [[(contestingVisit p version).signal p.beacon],
        [(settlingVisit p version).signal p.beacon]] :=
    h.upcoming_contested
  intro group hgroup s hs s' hs' u u' hu hu'
  have hgroup' : group ∈ [[(contestingVisit p version).signal p.beacon],
      [(settlingVisit p version).signal p.beacon]] := hupcoming ▸ hgroup
  obtain rfl : s = s' := by
    rcases List.mem_cons.1 hgroup' with rfl | hgroup'
    · exact (List.mem_singleton.1 hs).trans (List.mem_singleton.1 hs').symm
    · obtain rfl := List.mem_singleton.1 hgroup'
      exact (List.mem_singleton.1 hs).trans (List.mem_singleton.1 hs').symm
  exact Option.some.inj (hu.symm.trans hu')

/-- A run up to a time between the two transactions, and one up to a height behind which it
starts. -/
def contestedLegs : List Leg :=
  [⟨{ window := 1 }, { time := some 25 }⟩, ⟨{ window := 0 }, { height := some 2 }⟩]

theorem Contest.first_contested (h : Contest p version) :
    Resolution.First (contestedSource p version) 3 (.genesis did genesis 0) ⟨0, 0⟩
      [⟨1, 10, 0, funding p.beacon.script⟩] (contestingVisit p version) where
  visits := rfl
  unwatched := List.forall_mem_singleton.2 (watched_funding _ _ p.beacon.script)
  watched := h.watched_contesting ▸ List.cons_ne_nil _ _

/-- Cancelled when it looks for the second time, a run has tried the first transaction. -/
theorem Contest.resolve_cancelled (h : Contest p version) :
    Resolver.resolve ⟨(contested p version).ledger, {}⟩ did (contestedSidecar p version)
      { cancelled := fun progress => 0 < progress.polls } =
        .error (.cancelled (atRejection ⟨2, 1⟩)) := by
  have faultless := (mined_contested p version).faultless
  have hgenesis : Genesis.document identifier (contestedSidecar p version).genesisDocument =
      .ok genesis := document_identifier
  let options : ResolutionOptions := { cancelled := fun progress => 0 < progress.polls }
  have hgoing : (Checkpoint.genesis did genesis 0).isDone options = false := isDone_genesis rfl
  have hrunning : options.cancelled ⟨0, (Scanner.resume ⟨0, 0⟩ 3 8).asked⟩ = false := rfl
  obtain ⟨t, -, -, -, heq⟩ := h.first_contested.traverse_eq faultless (Nat.le_refl 3)
    (Scanner.aligned_resume _ _ _ _) hgoing hrunning
  rw [Resolver.resolve_eq_continueFrom (by decide) identify_did hgenesis,
    Resolver.continueFrom_eq faultless]
  refine heq.trans ((if_neg Bool.false_ne_true).trans ?_)
  rw [h.behind_contesting rfl]
  exact Resolution.traverse_of_cancelled (isDone_atRejection rfl) rfl

/-- The first leg stops at the second transaction, and the second one has nothing to do. -/
theorem Contest.resumeAll_contested (h : Contest p version) :
    Resolver.resumeAll (contested p version).ledger (contestedSidecar p version)
      (atRejection ⟨2, 1⟩) contestedLegs = some (atRejection ⟨3, 0⟩) := by
  have mined := mined_contested p version
  have hidentify : ∀ {cursor}, Resolver.identify (atRejection cursor).did = .ok identifier :=
    identify_did
  have htime : Resolver.resume ⟨(contested p version).ledger, { window := 1 }⟩ (atRejection ⟨2, 1⟩)
      (contestedSidecar p version) { time := some 25 } =
        .ok (Replay.finish { time := some 25 } (atRejection ⟨3, 0⟩)) :=
    (Resolver.resume_eq_replay mined _ (by decide) hidentify fun _ => rfl).trans
      (congrArg (Except.ok ∘ Replay.finish _) (h.run_settling_of_late rfl rfl))
  have hheight : Resolver.resume ⟨(contested p version).ledger, { window := 0 }⟩
      (atRejection ⟨3, 0⟩) (contestedSidecar p version) { height := some 2 } =
        .ok (Replay.finish { height := some 2 } (atRejection ⟨3, 0⟩)) :=
    (Resolver.resume_eq_replay mined _ (by decide) hidentify fun _ => rfl).trans
      (congrArg (Except.ok ∘ Replay.finish _) (Replay.run_nil (isDone_atRejection rfl)))
  simp only [contestedLegs, Resolver.resumeAll, htime, hheight, Resolution.handedBack?,
    Option.bind_some, Replay.finish, Resolution.ending]

end Sample

namespace Resolver

/-- The contested chain. The first run is cancelled behind the rejected update, the second one stops
at a time and the third one at a height, both in front of the update that is applied. -/
theorem resume_interrupted_sample : ∃ p version, Sample.Contest p version ∧
    resolve ⟨(Sample.contested p version).ledger, {}⟩ Sample.did (Sample.contestedSidecar p version)
      { cancelled := fun progress => 0 < progress.polls } =
        .error (.cancelled (Sample.atRejection ⟨2, 1⟩)) ∧
    resumeAll (Sample.contested p version).ledger (Sample.contestedSidecar p version)
      (Sample.atRejection ⟨2, 1⟩) Sample.contestedLegs = some (Sample.atRejection ⟨3, 0⟩) ∧
    (∃ c', Resolution.handedBack? (resume ⟨(Sample.contested p version).ledger, {}⟩
      (Sample.atRejection ⟨3, 0⟩) (Sample.contestedSidecar p version) { version := some 2 }) =
        some c') ∧
    resume ⟨(Sample.contested p version).ledger, {}⟩ (Sample.atRejection ⟨3, 0⟩)
        (Sample.contestedSidecar p version) {} =
      .ok (Replay.finish {} (Sample.atDeactivation p)) ∧
    resolve ⟨(Sample.contested p version).ledger, { window := 3 }⟩ Sample.did
        (Sample.contestedSidecar p version) {} =
      .ok (Replay.finish {} (Sample.atDeactivation p)) := by
  obtain ⟨p, version, contest⟩ := Sample.exists_contest
  have mined := Sample.mined_contested p version
  have hcancelled := contest.resolve_cancelled
  have hlegs := contest.resumeAll_contested
  have hstopped : (Resolution.handedBack? (resolve ⟨(Sample.contested p version).ledger, {}⟩
      Sample.did (Sample.contestedSidecar p version)
      { cancelled := fun progress => 0 < progress.polls })).bind
        (resumeAll (Sample.contested p version).ledger (Sample.contestedSidecar p version) ·
          Sample.contestedLegs) = some (Sample.atRejection ⟨3, 0⟩) := by
    rw [hcancelled, Resolution.handedBack?, Option.bind_some, hlegs]
  obtain ⟨hfurther, result, hresumed, hresolved⟩ :=
    resume_interrupted mined.faultless (fun i d => contest.unambiguous) hstopped 3 {}
  have hidentify : identify (Sample.atRejection ⟨3, 0⟩).did = .ok Sample.identifier :=
    Sample.identify_did
  have hlast : resume ⟨(Sample.contested p version).ledger, {}⟩ (Sample.atRejection ⟨3, 0⟩)
      (Sample.contestedSidecar p version) {} =
        .ok (Replay.finish {} (Sample.atDeactivation p)) :=
    (resume_eq_replay mined _ (by decide) hidentify fun _ => rfl).trans
      (congrArg (Except.ok ∘ Replay.finish _) (contest.run_settling rfl rfl))
  obtain rfl := Except.ok.inj (hresumed.symm.trans hlast)
  exact ⟨p, version, contest, hcancelled, hlegs, hfurther _ (by decide), hlast, hresolved⟩

end Resolver

end AnchoredDid
