import AnchoredDid.Proofs.Growth
import AnchoredDid.Proofs.Interruption
import AnchoredDid.Proofs.Publication

/-!
# A chain that grows does not rewrite history

What a scan asks for is at the heights of its range, and the window is cut short at its end. So on
two ledgers that agree up to there a scanner takes the same steps, with the same blocks in its
buffer (`Scanner.next_congr`), and a resolution ends the same, also where it fails or is cancelled
(`Resolution.traverse_congr`). Together with the replay of what a chain has grown by, this gives
both halves of `Resolver.resolve_mineAll`: the past resolves as it did, and going on from it is
resolving anew.
-/

namespace AnchoredDid

section Scan

variable {l l' : Ledger} {last : Nat}

namespace Scan

theorem fetch_congr {height count : Nat}
    (h : ∀ k, height ≤ k → k < height + count → l'.block k = l.block k) :
    fetch l' height count = fetch l height count := by
  induction count generalizing height with
  | zero => rfl
  | succ count ih =>
      rw [fetch, fetch, h height (Nat.le_refl _) (by omega),
        ih fun k hk hlt => h k (by omega) (by omega)]

theorem examine_congr {registry : Registry} {block : Block} {index : Nat} {txs : List Transaction}
    (h : ∀ tx ∈ txs, ∀ input ∈ tx.inputs, l'.scriptAt input.outpoint = l.scriptAt input.outpoint) :
    examine l' registry block index txs = examine l registry block index txs := by
  induction txs generalizing index with
  | nil => rfl
  | cons tx rest ih =>
      obtain ⟨htx, hrest⟩ := List.forall_mem_cons.1 h
      rw [examine, examine, signalsOf, signalsOf, spentScripts_congr htx, ih hrest]

/-- A block of the range is looked through with the same result. -/
theorem examine_block_congr (same : l.SameUpTo l' last) {height : Nat} (range : height ≤ last)
    {block : Block} (fetched : l.block height = .ok block) (registry : Registry) (index : Nat) :
    examine l' registry block index (block.transactions.drop index) =
      examine l registry block index (block.transactions.drop index) := by
  apply examine_congr
  intro tx htx
  obtain ⟨place, hplace⟩ := List.mem_iff_getElem?.1 (List.mem_of_mem_drop htx)
  exact same.scriptAt_eq ⟨height, block.time, place, tx⟩ ⟨block, fetched, rfl, hplace⟩ range

end Scan

namespace Scanner

/-- The window never reaches behind the range. -/
theorem fill_congr (same : l.SameUpTo l' last) {s : Scanner} (hlast : s.last ≤ last) :
    s.fill l' = s.fill l := by
  have hfetch : Scan.fetch l' s.cursor.height s.windowSize =
      Scan.fetch l s.cursor.height s.windowSize :=
    Scan.fetch_congr fun k _ hk => same.block_eq k (by rw [windowSize] at hk; omega)
  rw [fill, fill, hfetch]

theorem search_congr (same : l.SameUpTo l' last) (registry : Registry) {left : Nat} {s : Scanner}
    (hlast : s.last ≤ last) (aligned : s.Aligned l) (hleft : left + s.cursor.height ≤ s.last + 1) :
    search l' registry left s = search l registry left s := by
  induction left generalizing s with
  | zero => rfl
  | succ left ih =>
      have range : s.cursor.height ≤ s.last := by omega
      have hfill := fill_aligned aligned range
      rw [search, search, fill_congr same hlast]
      cases hfilled : s.fill l with
      | error e => rfl
      | ok t =>
          rw [hfilled] at hfill
          have hheight : t.cursor.height = s.cursor.height :=
            congrArg Cursor.height (fill_cursor hfilled)
          have htlast := fill_last hfilled
          cases hbuffer : t.buffer with
          | nil => simp only [hbuffer]
          | cons block later =>
              have htop : t.cursor.height ≤ last := by omega
              have hexamine := Scan.examine_block_congr same htop (hfill.1.head hbuffer) registry
                t.cursor.index
              have hsearch := ih
                (s := { t with buffer := later, cursor := ⟨t.cursor.height + 1, 0⟩ })
                (htlast ▸ hlast) (hfill.1.tail hbuffer) (by dsimp only; omega)
              simp only [hbuffer, hexamine, hsearch]

/-- The same search on both ledgers, to the same scanner. -/
theorem next_congr (same : l.SameUpTo l' last) (registry : Registry) {s : Scanner}
    (hlast : s.last ≤ last) (aligned : s.Aligned l) : s.next l' registry = s.next l registry := by
  rcases Nat.le_total s.cursor.height (s.last + 1) with hrange | hpast
  · exact search_congr same registry hlast aligned (by omega)
  · have hleft : s.last + 1 - s.cursor.height = 0 := by omega
    rw [next, next, hleft, search, search]

end Scanner

end Scan

namespace Resolution

/-- Where two ledgers agree up to the end of the range a resolution ends the same, in whatever
way. -/
theorem traverse_congr (source : Source) {l' : Ledger} {last : Nat}
    (same : source.ledger.SameUpTo l' last) {options : ResolutionOptions} {polls : Nat}
    {c : Checkpoint} {s : Scanner} (hlast : s.last ≤ last) (aligned : s.Aligned source.ledger) :
    traverse { source with ledger := l' } options polls c s =
      traverse source options polls c s := by
  cases h : c.isDone options with
  | true => rw [traverse_of_isDone h, traverse_of_isDone h]
  | false =>
      cases hcancelled : options.cancelled ⟨polls, s.asked⟩ with
      | true => rw [traverse_of_cancelled h hcancelled, traverse_of_cancelled h hcancelled]
      | false =>
          obtain ⟨-, taligned, tlast⟩ :=
            Scanner.next_walk (Registry.ofDocument c.document source.network) aligned
          rw [traverse_next h hcancelled, traverse_next h hcancelled]
          simp only [Scanner.next_congr same _ hlast aligned]
          cases hnext : s.next source.ledger (Registry.ofDocument c.document source.network) with
          | mk outcome t =>
              rw [hnext] at taligned tlast
              cases outcome with
              | failed e => rfl
              | finished => rfl
              | found signals =>
                  dsimp only
                  split
                  · rfl
                  · exact traverse_congr source same (tlast ▸ hlast) taligned
termination_by (s.blocksLeft, s.transactionsLeft)
decreasing_by exact Scanner.next_found_before hnext

end Resolution

namespace Resolver

variable {c : Chain} {blocks : List (Nat × List Transaction)}

/-- Ledgers that agree up to a height resolve alike up to it, if both have reached it. -/
theorem resolve_of_sameUpTo {l l' : Ledger} {last tip tip' height : Nat} (same : l.SameUpTo l' last)
    (htip : l.tip = .ok tip) (htip' : l'.tip = .ok tip') (config : ResolverConfig) (did : String)
    (sidecar : Sidecar) {options : ResolutionOptions} (hheight : options.height = some height)
    (agreed : height ≤ last) (reached : height ≤ tip) (reached' : height ≤ tip') :
    resolve ⟨l', config⟩ did sidecar options = resolve ⟨l, config⟩ did sidecar options := by
  have hcontinue : ∀ (start : Checkpoint) (network : Network),
      continueFrom ⟨l', config⟩ start network sidecar options =
        continueFrom ⟨l, config⟩ start network sidecar options := by
    intro start network
    simp only [continueFrom, htip, htip', hheight, Option.map_some, Option.getD_some,
      Nat.min_eq_left reached, Nat.min_eq_left reached']
    exact Resolution.traverse_congr ⟨l, network, sidecar.index⟩ same agreed
      (Scanner.aligned_resume _ _ _ _)
  simp only [resolve, hcontinue]

/-- Up to a height that the chain had reached, it resolves as it did before it grew. -/
theorem resolve_mineAll_of_height (mined : c.Mined)
    (unspent : ∀ b ∈ blocks, ∀ tx ∈ b.2, c.Unspent tx.id) (config : ResolverConfig) (did : String)
    (sidecar : Sidecar) {options : ResolutionOptions} {height : Nat}
    (hheight : options.height = some height) (reached : height ≤ c.tip) :
    resolve ⟨(c.mineAll blocks).ledger, config⟩ did sidecar options =
      resolve ⟨c.ledger, config⟩ did sidecar options := by
  have hreached : height ≤ (c.mineAll blocks).tip := by
    rw [mined.tip_mineAll]
    omega
  exact resolve_of_sameUpTo (mined.sameUpTo_mineAll blocks unspent) rfl rfl config did sidecar
    hheight reached reached hreached

/-- The replay of a chain that has grown goes on from where that of the chain before ended. -/
theorem outcome_mineAll (mined : c.Mined) (unspent : ∀ b ∈ blocks, ∀ tx ∈ b.2, c.Unspent tx.id)
    (network : Network) (index : SidecarIndex) (start : Checkpoint) :
    Replay.outcome ⟨(c.mineAll blocks).ledger, network, index⟩ (c.mineAll blocks).tip
        (Replay.outcome ⟨c.ledger, network, index⟩ c.tip start) =
      Replay.outcome ⟨(c.mineAll blocks).ledger, network, index⟩ (c.mineAll blocks).tip start := by
  have same := mined.sameUpTo_mineAll blocks unspent
  have hgrown : c.tip ≤ (c.mineAll blocks).tip := by
    rw [mined.tip_mineAll]
    omega
  have hvisits : ∀ v ∈ c.ledger.visitsFrom start.cursor c.tip,
      v.On c.ledger ∧ start.cursor.height ≤ c.tip ∧ v.height ≤ c.tip :=
    fun v hv => Ledger.on_of_mem_visitsFrom mined.faultless.numbered hv
  -- what the chain had before is replayed alike, and what comes later from there
  have hbefore : Replay.run ⟨(c.mineAll blocks).ledger, network, index⟩ {} c.tip start
      (c.ledger.visitsFrom start.cursor c.tip) =
        Replay.outcome ⟨c.ledger, network, index⟩ c.tip start := by
    refine Replay.run_congr (by rfl) ?_ (fun _ _ _ _ => rfl)
    intro v hv
    obtain ⟨on, -, range⟩ := hvisits v hv
    exact same.watched_eq on range
  have hlater : Replay.outcome ⟨(c.mineAll blocks).ledger, network, index⟩ (c.mineAll blocks).tip
      start = Replay.run ⟨(c.mineAll blocks).ledger, network, index⟩ {} (c.mineAll blocks).tip
        (Replay.outcome ⟨c.ledger, network, index⟩ c.tip start)
        ((c.mineAll blocks).ledger.visitsFrom (start.cursor.past c.tip)
          (c.mineAll blocks).tip) := by
    rw [Replay.outcome, Ledger.visitsFrom_past start.cursor hgrown, same.visitsFrom_eq,
      Replay.run_append hgrown, hbefore]
  rw [hlater]
  cases hdone : (Replay.outcome ⟨c.ledger, network, index⟩ c.tip start).isDone {} with
  | true => rw [Replay.run_of_isDone hdone, Replay.outcome, Replay.run_of_isDone hdone]
  | false =>
      have hcursor : (Replay.outcome ⟨c.ledger, network, index⟩ c.tip start).cursor =
          start.cursor.past c.tip :=
        Replay.cursor_run (fun v hv => (hvisits v hv).2) hdone
      rw [← hcursor, Replay.outcome]

/-- Growth never rewrites history. Let a chain grow by any blocks whose transactions do not take an
id that one of its transactions spends from. Up to any height that it had reached, every resolution
is what it was before. And a resolution without bounds goes on, from the checkpoint that one of the
chain before left, to the very result of resolving anew. -/
theorem resolve_mineAll (mined : c.Mined) (blocks : List (Nat × List Transaction))
    (unspent : ∀ b ∈ blocks, ∀ tx ∈ b.2, c.Unspent tx.id) (config : ResolverConfig) (did : String)
    (sidecar : Sidecar) :
    (∀ options height, options.height = some height → height ≤ c.tip →
      resolve ⟨(c.mineAll blocks).ledger, config⟩ did sidecar options =
        resolve ⟨c.ledger, config⟩ did sidecar options) ∧
    ∀ before, resolve ⟨c.ledger, config⟩ did sidecar {} = .ok before →
      ∀ (window : Nat) (further : ResolverConfig), ∃ after,
        resume ⟨(c.mineAll blocks).ledger, further⟩ before.checkpoint sidecar {} = .ok after ∧
        resolve ⟨(c.mineAll blocks).ledger, { config with window := window }⟩ did sidecar {} =
          .ok after := by
  refine ⟨fun options height => resolve_mineAll_of_height mined unspent config did sidecar, ?_⟩
  intro before resolved window further
  have hfree : ({} : ResolutionOptions).version ≠ some 0 := by decide
  rcases resolve_cases ⟨c.ledger, config⟩ did sidecar {} with
    ⟨e, heq, -⟩ | ⟨i, genesis, -, hi, hgenesis, heq⟩
  · rw [heq] at resolved
    cases resolved
  rw [heq, continueFrom_unbounded mined.faultless] at resolved
  obtain rfl := Except.ok.inj resolved
  have hgrown := (mined.mineAll blocks).faultless
  have hdid : (Replay.outcome ⟨c.ledger, i.network, sidecar.index⟩ c.tip (.genesis did genesis
      (sidecar.genesisHeight.getD config.genesisHeight))).did = did := Replay.run_did _
  refine ⟨_, ?_, (resolve_eq_continueFrom hfree hi hgenesis).trans
    (continueFrom_unbounded hgrown _ _ i.network)⟩
  rw [← outcome_mineAll mined unspent]
  exact (resume_eq_continueFrom hfree (hdid.symm ▸ hi)).trans
    (continueFrom_unbounded hgrown further _ i.network)

/-- A chain on which nothing was published yet grows by the block that publishes an update, which
the sidecar has from the start. -/
theorem resolve_mineAll_sample : ∃ p before after,
    Sample.draft.prepare Sample.pair "#beacon" = .ok p ∧
    resolve ⟨((Sample.chain p.beacon.script).mineAll [(20, [Sample.spending p])]).ledger, {}⟩
        Sample.did (Sample.sidecar.addUpdate p.update) { height := some 1 } =
      resolve ⟨(Sample.chain p.beacon.script).ledger, {}⟩
        Sample.did (Sample.sidecar.addUpdate p.update) { height := some 1 } ∧
    resolve ⟨(Sample.chain p.beacon.script).ledger, {}⟩
      Sample.did (Sample.sidecar.addUpdate p.update) {} = .ok before ∧
    resume ⟨((Sample.chain p.beacon.script).mineAll [(20, [Sample.spending p])]).ledger, {}⟩
      before.checkpoint (Sample.sidecar.addUpdate p.update) {} = .ok after ∧
    resolve ⟨((Sample.chain p.beacon.script).mineAll [(20, [Sample.spending p])]).ledger,
      { window := 3 }⟩ Sample.did (Sample.sidecar.addUpdate p.update) {} = .ok after := by
  obtain ⟨p, prepared⟩ := Sample.exists_prepared
  have mined := Sample.mined_chain p.beacon.script
  have hfree : ({} : ResolutionOptions).version ≠ some 0 := by decide
  have hgenesis :
      Genesis.document Sample.identifier (Sample.sidecar.addUpdate p.update).genesisDocument
      = .ok Sample.genesis := Sample.document_identifier
  have resolved := resolve_eq_history mined {} hfree Sample.identify_did hgenesis fun _ => rfl
  obtain ⟨hpast, hlater⟩ := resolve_mineAll mined [(20, [Sample.spending p])]
    (fun _ _ tx _ => Sample.unspent_chain _ tx.id) {} Sample.did (Sample.sidecar.addUpdate p.update)
  obtain ⟨after, hresume, hresolve⟩ := hlater _ resolved 3 {}
  exact ⟨p, _, after, prepared, hpast _ 1 rfl (Nat.le_refl 1), resolved, hresume, hresolve⟩

end Resolver

end AnchoredDid
