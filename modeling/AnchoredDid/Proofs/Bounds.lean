import AnchoredDid.Proofs.Held
import AnchoredDid.Proofs.Publication

/-!
# Bounds stop a history early

A run under tighter bounds takes the same turns as one under looser bounds until it stops. Both find
the signals of the same transactions (`Scanner.next_found_of_le`) and try them alike, except that
the tighter run may stop between two of them because its version is reached
(`Checkpoint.attemptAll_within`). So what it hands back is a checkpoint that the looser run holds
(`Resolution.traverse_within`), and a version that is asked for is reached unless there is none of
that number (`Resolution.traverse_unreached`). `Resolver.resolve_within` says so of resolutions.
-/

namespace AnchoredDid

/-! ## Tighter and looser bounds -/

namespace ResolutionOptions

/-- A bound that is set, if the looser one is, to a value no larger. -/
def Caps (tight loose : Option Nat) : Prop :=
  ∀ k, loose = some k → ∃ j, tight = some j ∧ j ≤ k

/-- Each bound of the looser options is set in the tighter ones, to a value no larger. -/
structure Within (tighter looser : ResolutionOptions) : Prop where
  version : Caps tighter.version looser.version
  time : Caps tighter.time looser.time
  height : Caps tighter.height looser.height

namespace Within

variable {tighter looser : ResolutionOptions} (within : tighter.Within looser)
include within

theorem reached {version : Nat} (h : looser.reached version = true) :
    tighter.reached version = true := by
  obtain ⟨k, hk, hle⟩ := (Option.any_eq_true _ _).1 h
  obtain ⟨j, hj, hjk⟩ := within.version k hk
  exact (Option.any_eq_true _ _).2
    ⟨j, hj, decide_eq_true (Nat.le_trans hjk (of_decide_eq_true hle))⟩

theorem isDone {c : Checkpoint} (h : c.isDone tighter = false) : c.isDone looser = false := by
  obtain ⟨hreached, hdeactivated⟩ := Checkpoint.isDone_eq_false h
  refine Bool.or_eq_false_iff.2 ⟨Bool.eq_false_iff.2 fun hlooser => ?_, hdeactivated⟩
  rw [within.reached hlooser] at hreached
  cases hreached

/-- What is in time for the tighter run is in time for the looser one. -/
theorem timely {signals : List Signal} (h : Resolution.late? tighter signals = none) :
    Resolution.late? looser signals = none := by
  cases signals with
  | nil => cases htime : looser.time <;> simp [Resolution.late?, htime]
  | cons signal rest =>
      cases htime : looser.time with
      | none => simp [Resolution.late?, htime]
      | some limit =>
          obtain ⟨earlier, hearlier, hle⟩ := within.time limit htime
          simp only [Resolution.late?, hearlier, htime] at h ⊢
          split at h
          · cases h
          · next hnot => exact if_neg (by omega)

/-- The tighter run's range ends no later. -/
theorem last_le (tip : Nat) :
    (tighter.height.map (min · tip)).getD tip ≤ (looser.height.map (min · tip)).getD tip := by
  cases hheight : looser.height with
  | none => exact Resolver.last_le tighter tip
  | some height =>
      obtain ⟨lower, hlower, hle⟩ := within.height height hheight
      rw [hlower]
      simp only [Option.map_some, Option.getD_some]
      omega

end Within

/-- Without a bound on the version the run is only longer. -/
theorem within_unversioned (options : ResolutionOptions) :
    options.Within { options with version := none } where
  version := nofun
  time k hk := ⟨k, hk, Nat.le_refl k⟩
  height k hk := ⟨k, hk, Nat.le_refl k⟩

end ResolutionOptions

/-! ## The signals of a transaction -/

namespace Checkpoint

variable {tighter looser options : ResolutionOptions} {index : SidecarIndex} {c d : Checkpoint}
variable {signal : Signal} {signals : List Signal}

/-- Tighter bounds make no difference to the signals of a transaction, except that a version which
is reached leaves the rest of them untried. -/
theorem attemptAll_within (within : tighter.Within looser) (index : SidecarIndex) (c : Checkpoint)
    (signals : List Signal) :
    c.attemptAll tighter index signals = c.attemptAll looser index signals ∨
    (tighter.reached (c.attemptAll tighter index signals).version = true ∧
      ∃ tried, tried <+: signals ∧
        c.attemptAll tighter index signals = c.attemptAll looser index tried) := by
  fun_induction attemptAll tighter index c signals with
  | case1 c => exact .inl rfl
  | case2 c signal rest d hattempt hdone =>
      cases hdeactivated : d.document.isDeactivated with
      | true =>
          rw [attemptAll_cons_of_changed hattempt, if_pos (by simp [hdeactivated])]
          exact .inl rfl
      | false =>
          refine .inr ⟨by simpa [hdeactivated] using hdone, [signal], by simp, ?_⟩
          rw [attemptAll_cons_of_changed hattempt, attemptAll, ite_self]
  | case3 c signal rest d hattempt hgoing ih =>
      have hlooser : ¬(looser.reached d.version || d.document.isDeactivated) = true := by
        have := within.isDone (c := d) (Bool.eq_false_iff.2 hgoing)
        exact Bool.eq_false_iff.1 this
      rcases ih with hsame | ⟨hreached, tried, hfront, heq⟩
      · rw [attemptAll_cons_of_changed hattempt, if_neg hlooser]
        exact .inl hsame
      · refine .inr ⟨hreached, signal :: tried, by simpa using hfront, ?_⟩
        rw [attemptAll_cons_of_changed hattempt, if_neg hlooser]
        exact heq
  | case4 c signal rest d hattempt ih =>
      rcases ih with hsame | ⟨hreached, tried, hfront, heq⟩
      · rw [attemptAll_cons_of_unchanged hattempt]
        exact .inl hsame
      · refine .inr ⟨hreached, signal :: tried, by simpa using hfront, ?_⟩
        rw [attemptAll_cons_of_unchanged hattempt]
        exact heq

/-- A version that is asked for is not passed. -/
theorem attemptAll_version_le {k : Nat} (hversion : options.version = some k) (h : c.version < k) :
    (c.attemptAll options index signals).version ≤ k := by
  fun_induction attemptAll options index c signals with
  | case1 c => exact Nat.le_of_lt h
  | case2 c signal rest d hattempt hdone =>
      obtain ⟨u, document, -, rfl⟩ := attempt_of_changed hattempt
      exact h
  | case3 c signal rest d hattempt hgoing ih =>
      apply ih
      simpa [ResolutionOptions.reached, hversion] using (Bool.or_eq_false_iff.1
        (Bool.eq_false_iff.2 hgoing)).1
  | case4 c signal rest d hattempt ih =>
      obtain ⟨rejectedCount, rfl⟩ := attempt_of_unchanged hattempt
      exact ih h

/-- The update that was applied last is the one that a signal announces. -/
structure AppliedFrom (index : SidecarIndex) (d : Checkpoint) (signal : Signal) : Prop where
  announced : ∃ u, signal.decode index d.did = some u ∧ d.applied.getLast? = some u.hash
  blockHeight_eq : d.blockHeight = signal.height
  blockTime_eq : d.blockTime = some signal.time

theorem appliedFrom_of_changed (h : c.attempt index signal = (d, true)) :
    d.AppliedFrom index signal ∧ d.applied.length = c.applied.length + 1 := by
  obtain ⟨u, document, hdecode, rfl⟩ := attempt_of_changed h
  exact ⟨⟨⟨u, hdecode, List.getLast?_concat⟩, rfl, rfl⟩, by simp⟩

/-- Every update that the signals of a transaction add is applied from one of them. -/
theorem attemptAll_appliedFrom {n : Nat} (hbefore : c.applied.length ≤ n)
    (h : n < (c.attemptAll options index signals).applied.length) :
    ∃ tried signal, tried <+: signals ∧ signal ∈ signals ∧
      (c.attemptAll options index tried).AppliedFrom index signal ∧
      (c.attemptAll options index tried).applied.length = n + 1 := by
  fun_induction attemptAll options index c signals with
  | case1 c => exact absurd h (Nat.not_lt.2 hbefore)
  | case2 c signal rest d hattempt hdone =>
      obtain ⟨happlied, hlength⟩ := appliedFrom_of_changed hattempt
      refine ⟨[signal], signal, by simp, by simp, ?_⟩
      rw [attemptAll_cons_of_changed hattempt, attemptAll, ite_self]
      exact ⟨happlied, by omega⟩
  | case3 c signal rest d hattempt hgoing ih =>
      obtain ⟨happlied, hlength⟩ := appliedFrom_of_changed hattempt
      rcases Nat.lt_or_ge c.applied.length n with hlater | hnow
      · obtain ⟨tried, origin, hfront, hmem, hrest⟩ := ih (by omega) h
        refine ⟨signal :: tried, origin, by simpa using hfront, List.mem_cons_of_mem _ hmem, ?_⟩
        rw [attemptAll_cons_of_changed hattempt, if_neg hgoing]
        exact hrest
      · refine ⟨[signal], signal, by simp, by simp, ?_⟩
        rw [attemptAll_cons_of_changed hattempt, attemptAll, ite_self]
        exact ⟨happlied, by omega⟩
  | case4 c signal rest d hattempt ih =>
      obtain ⟨rejectedCount, rfl⟩ := attempt_of_unchanged hattempt
      obtain ⟨tried, origin, hfront, hmem, hrest⟩ := ih hbefore h
      refine ⟨signal :: tried, origin, by simpa using hfront, List.mem_cons_of_mem _ hmem, ?_⟩
      rw [attemptAll_cons_of_unchanged hattempt]
      exact hrest

end Checkpoint

/-! ## Two runs -/

/-- A range that ends later has the same next transaction that is watched. -/
theorem Scanner.next_found_of_le {l : Ledger} {tip : Nat} (faultless : l.Faultless tip)
    {registry : Registry} {s s' t : Scanner} (aligned : s.Aligned l) (aligned' : s'.Aligned l)
    (hcursor : s'.cursor = s.cursor) (hlast : s.last ≤ s'.last) (htop : s'.last ≤ tip)
    {signals : List Signal} (h : s.next l registry = (.found signals, t)) :
    ∃ t', s'.next l registry = (.found signals, t') ∧ t'.Aligned l ∧ t'.last = s'.last ∧
      t'.cursor = t.cursor := by
  obtain ⟨walk, -, -⟩ := next_walk registry aligned
  obtain ⟨walk', taligned', tlast'⟩ := next_walk registry aligned'
  rw [h] at walk
  obtain ⟨passed, v, on, range, hvisits, hpassed, hwatched, rfl, htcursor⟩ :=
    walk.searches (faultless.covers (Nat.le_trans hlast htop)) faultless.numbered
  -- the longer range begins with what the shorter one has up to there
  have hfirst : (l.visitsFrom s'.cursor s'.last).find? (fun u => u.watched l registry ≠ []) =
      some v := by
    rw [hcursor, hvisits s'.last hlast,
      Ledger.visitsFrom_of_on faultless.numbered on (Nat.le_trans range hlast), List.find?_append,
      List.find?_eq_none.2 (by simpa using hpassed), Option.none_or,
      List.find?_cons_of_pos (by simpa using hwatched)]
  cases hnext' : s'.next l registry with
  | mk outcome t' =>
      rw [hnext'] at walk' taligned' tlast'
      have searched := walk'.searches (faultless.covers htop) faultless.numbered
      cases outcome with
      | failed e => exact searched.elim
      | finished =>
          rw [List.find?_eq_none.2 (by simpa using searched.1)] at hfirst
          cases hfirst
      | found signals' =>
          obtain ⟨passed', v', on', range', hvisits', hpassed', hwatched', rfl, htcursor'⟩ :=
            searched
          rw [hvisits' s'.last (Nat.le_refl _),
            Ledger.visitsFrom_of_on faultless.numbered on' range', List.find?_append,
            List.find?_eq_none.2 (by simpa using hpassed'), Option.none_or,
            List.find?_cons_of_pos (by simpa using hwatched')] at hfirst
          obtain rfl : v' = v := Option.some.inj hfirst
          exact ⟨t', rfl, taligned', tlast', htcursor'.trans htcursor.symm⟩

namespace Resolution

variable {source : Source} {options tighter looser : ResolutionOptions} {polls polls' tip : Nat}
variable {c d e : Checkpoint} {s s' t : Scanner} {signals : List Signal}

theorem not_cancelled {r : Resolution} (h : c.isDone options = false)
    (hr : traverse source options polls c s = .ok r) :
    options.cancelled ⟨polls, s.asked⟩ = false := by
  rw [← Bool.not_eq_true]
  intro hcancelled
  rw [traverse_of_cancelled h hcancelled] at hr
  cases hr

/-- A turn that reaches the version asked for is the last one. -/
theorem isDone_turned
    (h : options.reached (c.attemptAll options source.index signals).version = true) :
    (turned source options c signals t).isDone options = true := by
  simp only [Checkpoint.isDone, Bool.or_eq_true]
  exact .inl h

/-- A turn of the tighter run is one of the looser run. -/
theorem Turn.of_within (within : tighter.Within looser) (faultless : source.ledger.Faultless tip)
    (aligned : s.Aligned source.ledger) (aligned' : s'.Aligned source.ledger)
    (hcursor : s'.cursor = s.cursor) (hlast : s.last ≤ s'.last) (htop : s'.last ≤ tip)
    {r : Resolution} (h' : traverse source looser polls' c s' = .ok r)
    (turn : Turn source tighter polls c s signals t) :
    ∃ t', Turn source looser polls' c s' signals t' ∧ t'.Aligned source.ledger ∧
      t'.last = s'.last ∧ t'.cursor = t.cursor := by
  obtain ⟨t', hfound, taligned', tlast', tcursor'⟩ :=
    Scanner.next_found_of_le faultless aligned aligned' hcursor hlast htop turn.found
  have hgoing := within.isDone turn.going
  exact ⟨t', ⟨hgoing, not_cancelled hgoing h', hfound, within.timely turn.timely⟩, taligned',
    tlast', tcursor'⟩

/-- Whatever stops the tighter run, it hands back what the looser run holds on its way, up to where
the cursor is. -/
theorem traverse_within (within : tighter.Within looser) (faultless : source.ledger.Faultless tip)
    (aligned : s.Aligned source.ledger) (aligned' : s'.Aligned source.ledger)
    (hcursor : s'.cursor = s.cursor) (hlast : s.last ≤ s'.last) (htop : s'.last ≤ tip)
    (handed : handedBack? (traverse source tighter polls c s) = some d) {r : Resolution}
    (h' : traverse source looser polls' c s' = .ok r) :
    ∃ e, Holds source looser polls' c s' e ∧ d = { e with cursor := d.cursor } := by
  fun_induction traverse source tighter polls c s generalizing polls' s' with
  | case1 | case2 | case3 | case5 | case6 =>
      cases handed
      exact ⟨_, .now, rfl⟩
  | case4 => cases handed
  | case7 polls c s hreached hdeactivated hcancelled signals t hnext hlate attempted =>
      rename_i ih
      have turn : Turn source tighter polls c s signals t :=
        .of_going hreached hdeactivated hcancelled hnext hlate
      obtain ⟨t', turn', taligned', tlast', tcursor'⟩ :=
        turn.of_within within faultless aligned aligned' hcursor hlast htop h'
      obtain ⟨taligned, tlast, -⟩ := Scanner.next_found faultless.numbered aligned hnext
      rw [turn'.traverse_eq] at h'
      rcases Checkpoint.attemptAll_within within source.index c signals with
        hsame | ⟨hstop, tried, hfront, heq⟩
      · have hturned :
            turned source looser c signals t' = turned source tighter c signals t := by
          rw [turned, turned, ← hsame, tcursor']
        rw [hturned] at h'
        obtain ⟨e, hholds, he⟩ := ih taligned taligned' tcursor' (by omega) (by omega) handed h'
        exact ⟨e, .later turn' (hturned ▸ hholds), he⟩
      · -- the tighter run ends here, between two signals
        have hended : handedBack? (traverse source tighter (polls + 1)
            (turned source tighter c signals t) t) = some d := handed
        rw [traverse_of_isDone (isDone_turned hstop)] at hended
        cases hended
        refine ⟨_, .trying turn' hfront, ?_⟩
        rw [← heq]
        rfl

theorem unversioned_isDone (h : ¬c.document.isDeactivated = true) :
    c.isDone { options with version := none } = false := by
  simp [Checkpoint.isDone, ResolutionOptions.reached, h]

/-- A run that does not reach the version asked for ends where it would have ended without
asking. -/
theorem traverse_unreached {r : Resolution} (h : traverse source options polls c s = .ok r)
    (hreached : options.reached r.checkpoint.version = false) :
    handedBack? (traverse source { options with version := none } polls c s) =
      some r.checkpoint := by
  fun_induction traverse source options polls c s with
  | case1 polls c s hnow =>
      cases h
      exact absurd hnow (Bool.eq_false_iff.1 hreached)
  | case2 polls c s hnow hdeactivated =>
      cases h
      rw [traverse_of_isDeactivated hdeactivated]
      rfl
  | case3 | case4 => cases h
  | case5 polls c s hnow hdeactivated hcancelled t hnext =>
      cases h
      rw [traverse_next (unversioned_isDone hdeactivated) (Bool.eq_false_iff.2 hcancelled), hnext]
      rfl
  | case6 polls c s hnow hdeactivated hcancelled signals t hnext cursor hlate =>
      cases h
      have hlate' : late? { options with version := none } signals = some cursor := hlate
      rw [traverse_next (unversioned_isDone hdeactivated) (Bool.eq_false_iff.2 hcancelled), hnext]
      simp only [hlate']
      rfl
  | case7 polls c s hnow hdeactivated hcancelled signals t hnext hlate attempted =>
      rename_i ih
      have turn : Turn source { options with version := none } polls c s signals t :=
        ⟨unversioned_isDone hdeactivated, Bool.eq_false_iff.2 hcancelled, hnext, hlate⟩
      rw [turn.traverse_eq, turned]
      rcases Checkpoint.attemptAll_within options.within_unversioned source.index c signals with
        hsame | ⟨hstop, -⟩
      · rw [← hsame]
        exact ih h
      · -- the run that asks for it ends here, with the version that it asks for
        have hended : traverse source options (polls + 1) (turned source options c signals t) t =
          .ok r := h
        rw [traverse_of_isDone (isDone_turned hstop)] at hended
        cases hended
        exact absurd hstop (Bool.eq_false_iff.1 hreached)

/-- A version that is asked for is not passed. -/
theorem version_le_of_handedBack {k : Nat} (hversion : options.version = some k)
    (hle : c.version ≤ k)
    (handed : handedBack? (traverse source options polls c s) = some d) : d.version ≤ k := by
  fun_induction traverse source options polls c s with
  | case1 | case2 | case3 | case5 | case6 =>
      cases handed
      exact hle
  | case4 => cases handed
  | case7 polls c s hnow hdeactivated hcancelled signals t hnext hlate attempted =>
      rename_i ih
      have hbelow : c.version < k := by
        simpa [ResolutionOptions.reached, hversion] using hnow
      exact ih (Checkpoint.attemptAll_version_le hversion hbelow) handed

/-- A version that the run would come to without bounds is where it ends if it is asked for. -/
theorem traverse_version {k : Nat} (hle : c.version ≤ k) {exact result : Resolution}
    (hexact : traverse source { version := some k } polls c s = .ok exact)
    (hresult : traverse source {} polls c s = .ok result)
    (hk : k ≤ result.checkpoint.version) : exact.checkpoint.version = k := by
  have hbelow : exact.checkpoint.version ≤ k :=
    version_le_of_handedBack rfl hle (by rw [hexact]; rfl)
  refine Nat.le_antisymm hbelow (Nat.le_of_not_lt fun hlt => ?_)
  have hunreached :
      ResolutionOptions.reached { version := some k } exact.checkpoint.version = false := by
    simpa [ResolutionOptions.reached] using hlt
  have hsame := traverse_unreached hexact hunreached
  rw [hresult] at hsame
  have hcheckpoint : result.checkpoint = exact.checkpoint := Option.some.inj hsame
  rw [hcheckpoint] at hk
  omega

end Resolution

/-! ## Where updates are applied from -/

/-- The last update was applied from this transaction, and that is within the bounds. -/
structure Checkpoint.PlacedAt (l : Ledger) (index : SidecarIndex) (options : ResolutionOptions)
    (d : Checkpoint) (v : Visit) : Prop where
  on : v.On l
  height_le : ∀ height, options.height = some height → v.height ≤ height
  time_le : ∀ limit, options.time = some limit → v.time ≤ limit
  applied : ∃ b, d.AppliedFrom index (v.signal b)

namespace Resolution

variable {source : Source} {options : ResolutionOptions} {polls : Nat} {c d e : Checkpoint}
variable {s t : Scanner} {signals : List Signal}

theorem time_le_of_timely {v : Visit} {beacons : List Beacon} {b : Beacon}
    (h : late? options (beacons.map v.signal) = none) (hb : b ∈ beacons) :
    ∀ limit, options.time = some limit → v.time ≤ limit := by
  intro limit hlimit
  rw [late?_signals v (List.ne_nil_of_mem hb), hlimit] at h
  by_contra hlate
  simp [Nat.lt_of_not_le hlate] at h

/-- Each update that a run applies is the last one of a checkpoint that it held, and was applied
from a transaction within the bounds. -/
theorem exists_placed (numbered : source.ledger.Numbered) (aligned : s.Aligned source.ledger)
    (hrange : ∀ height, options.height = some height → s.last ≤ height)
    (handed : handedBack? (traverse source options polls c s) = some e) {n : Nat}
    (hbefore : c.applied.length ≤ n) (h : n < e.applied.length) :
    ∃ d v, Holds source options polls c s d ∧ d.applied.length = n + 1 ∧
      d.PlacedAt source.ledger source.index options v := by
  fun_induction traverse source options polls c s with
  | case1 | case2 | case3 | case5 | case6 =>
      cases handed
      exact absurd h (Nat.not_lt.2 hbefore)
  | case4 => cases handed
  | case7 polls c s hnow hdeactivated hcancelled signals t hnext hlate attempted =>
      rename_i ih
      have turn : Turn source options polls c s signals t :=
        .of_going hnow hdeactivated hcancelled hnext hlate
      obtain ⟨taligned, tlast, v, beacons, on, -, range, rfl, -⟩ :=
        Scanner.next_found numbered aligned hnext
      rcases Nat.lt_or_ge n attempted.applied.length with hhere | hlater
      · obtain ⟨tried, signal, hfront, hsignal, happlied, hlength⟩ :=
          Checkpoint.attemptAll_appliedFrom hbefore hhere
        obtain ⟨b, hb, rfl⟩ := List.mem_map.1 hsignal
        exact ⟨_, v, .trying turn hfront, hlength, on,
          fun height hheight => Nat.le_trans range (hrange height hheight),
          time_le_of_timely hlate hb, b, happlied⟩
      · obtain ⟨d, w, hholds, hlength, hplaced⟩ :=
          ih taligned (fun height hheight => tlast ▸ hrange height hheight) handed hlater
        exact ⟨d, w, .later turn hholds, hlength, hplaced⟩

end Resolution

/-! ## Resolutions -/

namespace Resolver

variable {r : Resolver} {did : String} {sidecar : Sidecar} {options : ResolutionOptions} {tip : Nat}
variable {i : Identifier} {genesis : Document} {c d : Checkpoint}

/-- A resolution that ends was not refused. -/
theorem resolve_of_ok {result : Resolution} (h : r.resolve did sidecar options = .ok result) :
    ∃ i genesis, options.version ≠ some 0 ∧ identify did = .ok i ∧
      Genesis.document i sidecar.genesisDocument = .ok genesis := by
  have handed :
      Resolution.handedBack? (r.resolve did sidecar options) = some result.checkpoint := by
    rw [h]
    rfl
  obtain ⟨i, genesis, hversion, hi, hgenesis, -⟩ := resolve_of_handedBack handed
  exact ⟨i, genesis, hversion, hi, hgenesis⟩

/-- Resolving is traversing the range from the genesis document on. -/
theorem resolve_eq_traverse (faultless : r.ledger.Faultless tip)
    (hversion : options.version ≠ some 0) (hi : identify did = .ok i)
    (hgenesis : Genesis.document i sidecar.genesisDocument = .ok genesis) :
    r.resolve did sidecar options =
      Resolution.traverse ⟨r.ledger, i.network, sidecar.index⟩ options 0
        (.genesis did genesis (sidecar.genesisHeight.getD r.config.genesisHeight))
        (Scanner.resume ⟨sidecar.genesisHeight.getD r.config.genesisHeight, 0⟩
          ((options.height.map (min · tip)).getD tip) r.config.window) := by
  rw [resolve_eq_continueFrom hversion hi hgenesis, continueFrom_eq faultless]
  rfl

/-- A resolution holds this checkpoint on its way. -/
def Held (r : Resolver) (did : String) (sidecar : Sidecar) (options : ResolutionOptions)
    (d : Checkpoint) : Prop :=
  ∃ i genesis tip, identify did = .ok i ∧
    Genesis.document i sidecar.genesisDocument = .ok genesis ∧ r.ledger.tip = .ok tip ∧
    Resolution.Holds ⟨r.ledger, i.network, sidecar.index⟩ options 0
      (.genesis did genesis (sidecar.genesisHeight.getD r.config.genesisHeight))
      (Scanner.resume ⟨sidecar.genesisHeight.getD r.config.genesisHeight, 0⟩
        ((options.height.map (min · tip)).getD tip) r.config.window) d

theorem held_iff (htip : r.ledger.tip = .ok tip) (hi : identify did = .ok i)
    (hgenesis : Genesis.document i sidecar.genesisDocument = .ok genesis) :
    r.Held did sidecar options d ↔
      Resolution.Holds ⟨r.ledger, i.network, sidecar.index⟩ options 0
        (.genesis did genesis (sidecar.genesisHeight.getD r.config.genesisHeight))
        (Scanner.resume ⟨sidecar.genesisHeight.getD r.config.genesisHeight, 0⟩
          ((options.height.map (min · tip)).getD tip) r.config.window) d := by
  constructor
  · rintro ⟨i', genesis', tip', hi', hgenesis', htip', hholds⟩
    obtain rfl := Except.ok.inj (hi.symm.trans hi')
    obtain rfl := Except.ok.inj (hgenesis.symm.trans hgenesis')
    obtain rfl := Except.ok.inj (htip.symm.trans htip')
    exact hholds
  · intro hholds
    exact ⟨i, genesis, tip, hi, hgenesis, htip, hholds⟩

/-- A checkpoint that a resolution hands back under tighter bounds is a stage of the resolution
under looser ones. -/
structure Stage (r : Resolver) (did : String) (sidecar : Sidecar)
    (tighter looser : ResolutionOptions) (c : Checkpoint) (result : Resolution) : Prop where
  /-- The updates are the first of those of the other. -/
  applied : c.applied <+: result.checkpoint.applied
  /-- The other held it on its way, and this version with no other document. -/
  held : ∃ d, r.Held did sidecar looser d ∧ c = { d with cursor := c.cursor }
  document : ∀ d, r.Held did sidecar looser d → d.version = c.version → d.document = c.document
  version_le : ∀ k, tighter.version = some k → c.version ≤ k
  /-- Each update was applied from a transaction within the bounds. -/
  placed : ∀ n < c.applied.length, ∃ d v, r.Held did sidecar tighter d ∧
    d.applied = c.applied.take (n + 1) ∧ d.PlacedAt r.ledger sidecar.index tighter v

/-- Each update that a resolution applies is the last of a checkpoint that it held, and was applied
from a transaction within the bounds. -/
theorem placed_of_handedBack (faultless : r.ledger.Faultless tip)
    (handed : Resolution.handedBack? (r.resolve did sidecar options) = some c) {n : Nat}
    (hn : n < c.applied.length) :
    ∃ d v, r.Held did sidecar options d ∧ d.applied = c.applied.take (n + 1) ∧
      d.PlacedAt r.ledger sidecar.index options v := by
  obtain ⟨i, genesis, hversion, hi, hgenesis, -⟩ := resolve_of_handedBack handed
  rw [resolve_eq_traverse faultless hversion hi hgenesis] at handed
  have hrange : ∀ height, options.height = some height →
      (options.height.map (min · tip)).getD tip ≤ height := by
    intro height hheight
    rw [hheight]
    exact Nat.min_le_left height tip
  obtain ⟨d, v, hd, hlength, hplaced⟩ := Resolution.exists_placed faultless.numbered
    (Scanner.aligned_resume _ _ _ _) hrange handed (Nat.zero_le n) hn
  have hprefix := (hd.grows_handedBack handed).applied
  refine ⟨d, v, (held_iff faultless.tip_eq hi hgenesis).2 hd, ?_, hplaced⟩
  rw [← hlength]
  exact List.prefix_iff_eq_take.1 hprefix

/-- A resolution does not pass the version asked for. -/
theorem version_le_of_handedBack (faultless : r.ledger.Faultless tip) {k : Nat}
    (hk : options.version = some k)
    (handed : Resolution.handedBack? (r.resolve did sidecar options) = some c) : c.version ≤ k := by
  obtain ⟨i, genesis, hversion, hi, hgenesis, -⟩ := resolve_of_handedBack handed
  rw [resolve_eq_traverse faultless hversion hi hgenesis] at handed
  have hone : 1 ≤ k := Nat.one_le_iff_ne_zero.2 fun hzero => hversion (hzero ▸ hk)
  exact Resolution.version_le_of_handedBack hk hone handed

theorem stage_of_within (faultless : r.ledger.Faultless tip) {tighter looser : ResolutionOptions}
    (within : tighter.Within looser) {result : Resolution}
    (hresult : r.resolve did sidecar looser = .ok result)
    (handed : Resolution.handedBack? (r.resolve did sidecar tighter) = some c) :
    r.Stage did sidecar tighter looser c result := by
  have hplaced (n : Nat) := placed_of_handedBack (n := n) faultless handed
  have hversion_le (k : Nat) (hk : tighter.version = some k) :=
    version_le_of_handedBack faultless hk handed
  obtain ⟨i, genesis, hversion, hi, hgenesis, -⟩ := resolve_of_handedBack handed
  obtain ⟨-, -, hversion', -⟩ := resolve_of_ok hresult
  rw [resolve_eq_traverse faultless hversion hi hgenesis] at handed
  rw [resolve_eq_traverse faultless hversion' hi hgenesis] at hresult
  obtain ⟨e, hholds, he⟩ := Resolution.traverse_within within faultless
    (Scanner.aligned_resume _ _ ((tighter.height.map (min · tip)).getD tip) _)
    (Scanner.aligned_resume _ _ ((looser.height.map (min · tip)).getD tip) _) (by rfl)
    (within.last_le tip) (last_le looser tip) handed hresult
  have hversionEq : c.version = e.version := by rw [he]
  have hdocument : c.document = e.document := by rw [he]
  have happlied : c.applied = e.applied := by rw [he]
  refine ⟨?_, ⟨e, (held_iff faultless.tip_eq hi hgenesis).2 hholds, he⟩, ?_, hversion_le, hplaced⟩
  · rw [happlied]
    exact (hholds.grows_handedBack (by rw [hresult]; rfl)).applied
  · intro d hd hsame
    rw [hdocument]
    exact ((held_iff faultless.tip_eq hi hgenesis).1 hd).document_eq hholds (hsame.trans hversionEq)

/-- On a ledger that never fails, only version zero keeps an uncancelled run from an outcome. -/
theorem exists_resolve (faultless : r.ledger.Faultless tip) (hversion : options.version ≠ some 0)
    (hi : identify did = .ok i)
    (hgenesis : Genesis.document i sidecar.genesisDocument = .ok genesis)
    (never : ∀ progress, options.cancelled progress = false) :
    ∃ result, r.resolve did sidecar options = .ok result := by
  rw [resolve_eq_continueFrom hversion hi hgenesis, continueFrom_eq_replay faultless never]
  exact ⟨_, rfl⟩

/-- A version that the resolution without bounds comes to is where the one that asks for it ends. -/
theorem exists_version (faultless : r.ledger.Faultless tip) {k : Nat} (hk : k ≠ 0)
    {result : Resolution} (hresult : r.resolve did sidecar {} = .ok result)
    (hle : k ≤ result.metadata.version) :
    ∃ exact, r.resolve did sidecar { version := some k } = .ok exact ∧
      exact.metadata.version = k := by
  have hversion : ({ version := some k } : ResolutionOptions).version ≠ some 0 := by simpa using hk
  obtain ⟨i, genesis, hfree, hi, hgenesis⟩ := resolve_of_ok hresult
  obtain ⟨exact, hexact⟩ := exists_resolve faultless hversion hi hgenesis fun _ => rfl
  refine ⟨exact, hexact, ?_⟩
  rw [resolve_eq_traverse faultless hversion hi hgenesis] at hexact
  rw [resolve_eq_traverse faultless hfree hi hgenesis] at hresult
  rw [Resolution.traverse_eq_finish hresult] at hle
  rw [Resolution.traverse_eq_finish hexact]
  exact Resolution.traverse_version (Nat.one_le_iff_ne_zero.2 hk) hexact hresult hle

/-- Bounded resolutions are stages of one history. On a ledger that never fails, whatever a
resolution hands back is a stage of the one under any looser bounds; and where the resolution
without bounds comes to a version, the one that asks for this version ends with it. Version zero is
refused, for versions start at one. -/
theorem resolve_within (faultless : r.ledger.Faultless tip) (did : String) (sidecar : Sidecar) :
    (∀ tighter looser, tighter.Within looser → ∀ result,
      r.resolve did sidecar looser = .ok result →
      (tighter.version ≠ some 0 → (∀ progress, tighter.cancelled progress = false) →
        ∃ stage, r.resolve did sidecar tighter = .ok stage) ∧
      ∀ c, Resolution.handedBack? (r.resolve did sidecar tighter) = some c →
        r.Stage did sidecar tighter looser c result) ∧
    ∀ k result, k ≠ 0 → r.resolve did sidecar {} = .ok result → k ≤ result.metadata.version →
      ∃ exact, r.resolve did sidecar { version := some k } = .ok exact ∧
        exact.metadata.version = k := by
  refine ⟨fun tighter looser within result hresult => ⟨fun hversion never => ?_, ?_⟩, ?_⟩
  · obtain ⟨i, genesis, -, hi, hgenesis⟩ := resolve_of_ok hresult
    exact exists_resolve faultless hversion hi hgenesis never
  · exact fun c handed => stage_of_within faultless within hresult handed
  · exact fun k result hk hresult hle => exists_version faultless hk hresult hle

/-- A run that ends at the first block is a stage of the one that goes on to the update, and the
version that the update makes can be asked for. -/
theorem resolve_within_sample : ∃ p after before exact,
    Sample.draft.prepare Sample.pair "#beacon" = .ok p ∧
    resolve ⟨(Sample.grown p).ledger, {}⟩ Sample.did (Sample.sidecar.addUpdate p.update) {} =
      .ok after ∧
    resolve ⟨(Sample.grown p).ledger, {}⟩ Sample.did (Sample.sidecar.addUpdate p.update)
      { height := some 1, time := some 15 } = .ok before ∧
    Stage ⟨(Sample.grown p).ledger, {}⟩ Sample.did (Sample.sidecar.addUpdate p.update)
      { height := some 1, time := some 15 } {} before.checkpoint after ∧
    resolve ⟨(Sample.grown p).ledger, {}⟩ Sample.did (Sample.sidecar.addUpdate p.update)
      { version := some 2 } = .ok exact ∧
    exact.metadata.version = 2 := by
  obtain ⟨p, after, prepared, hafter, hversion⟩ := Sample.resolve_grown
  obtain ⟨stages, versions⟩ := resolve_within (r := ⟨(Sample.grown p).ledger, {}⟩)
    (Sample.mined_grown p).faultless Sample.did (Sample.sidecar.addUpdate p.update)
  obtain ⟨exact, hexact, hsecond⟩ := versions 2 after (by decide) hafter hversion.ge
  obtain ⟨exists_before, stage_of⟩ :=
    stages { height := some 1, time := some 15 } {} ⟨nofun, nofun, nofun⟩ after hafter
  obtain ⟨before, hbefore⟩ := exists_before (by decide) fun _ => rfl
  refine ⟨p, after, before, exact, prepared, hafter, hbefore, ?_, hexact, hsecond⟩
  exact stage_of before.checkpoint (by rw [hbefore]; rfl)

/-- Version zero is below every version and refused all the same. -/
theorem resolve_versionZero_ne : ∃ result,
    resolve ⟨Chain.start.ledger, {}⟩ sample .empty {} = .ok result ∧ 0 ≤ result.metadata.version ∧
    ¬∃ exact, resolve ⟨Chain.start.ledger, {}⟩ sample .empty { version := some 0 } = .ok exact ∧
      exact.metadata.version = 0 := by
  obtain ⟨genesis, hgenesis⟩ := genesis_sample
  have hfree : ({} : ResolutionOptions).version ≠ some 0 := by decide
  have faultless : (⟨Chain.start.ledger, {}⟩ : Resolver).ledger.Faultless Chain.start.tip :=
    Chain.Mined.start.faultless
  obtain ⟨result, hresult⟩ : ∃ result,
      resolve ⟨Chain.start.ledger, {}⟩ sample .empty {} = .ok result :=
    exists_resolve faultless hfree identify_sample hgenesis fun _ => rfl
  refine ⟨result, hresult, Nat.zero_le _, ?_⟩
  rintro ⟨exact, hexact, -⟩
  simp [resolve, checkOptions, bind, Except.bind] at hexact

end Resolver

end AnchoredDid
