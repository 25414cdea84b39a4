import AnchoredDid.Proofs.Replay

/-!
# Replays on a longer chain and with a larger sidecar

A replay depends on the ledger only through what each transaction spends, and on the sidecar only
through what the signals that it comes to announce. Where two sources agree on that, their replays
are the same (`Replay.run_congr`); and the unbounded replay of a longer history is the replay of the
rest of it from where the shorter one ended (`Replay.run_append`).

A chain that grows agrees with itself on the blocks that it had, unless a new transaction takes an
id that one of its transactions spends from (`Chain.Mined.sameUpTo_mineAll`).
-/

namespace AnchoredDid

namespace Ledger

/-- Up to a height two ledgers have the same blocks, and know the same scripts behind the inputs of
their transactions. -/
structure SameUpTo (l l' : Ledger) (last : Nat) : Prop where
  block_eq : ∀ height ≤ last, l'.block height = l.block height
  scriptAt_eq : ∀ v : Visit, v.On l → v.height ≤ last → ∀ input ∈ v.transaction.inputs,
    l'.scriptAt input.outpoint = l.scriptAt input.outpoint

namespace SameUpTo

variable {l l' : Ledger} {last : Nat} {v : Visit}

theorem watched_eq (same : l.SameUpTo l' last) (on : v.On l) (range : v.height ≤ last)
    (registry : Registry) : v.watched l' registry = v.watched l registry := by
  have hspends : ∀ script, l'.spends v.transaction script = l.spends v.transaction script := by
    intro script
    rw [Bool.eq_iff_iff, spends, spends, List.any_eq_true, List.any_eq_true]
    apply exists_congr
    intro input
    apply and_congr_right
    intro hinput
    rw [script?, same.scriptAt_eq v on range input hinput, script?]
  simp only [Visit.watched, hspends]

theorem visitsFrom_eq (same : l.SameUpTo l' last) (c : Cursor) :
    l'.visitsFrom c last = l.visitsFrom c last := by
  rw [visitsFrom, visitsFrom]
  split
  · next range =>
    rw [visitsAt, same.block_eq _ range, visitsAt,
      visits_congr fun _ _ hheight => same.block_eq _ hheight]
  · rfl

end SameUpTo

/-- Faults on blocks behind a height change nothing up to it. -/
theorem sameUpTo_failing (l : Ledger) {f : Faults} {last : Nat}
    (behind : ∀ height ∈ f.blocks, last < height) (known : f.transactions = []) :
    l.SameUpTo (l.failing f) last where
  block_eq height hheight := by
    have hok : f.blocks.contains height = false :=
      Bool.eq_false_iff.2 fun h =>
        absurd hheight (Nat.not_le.2 (behind height (List.contains_iff_mem.1 h)))
    simp only [failing, hok, Bool.false_eq_true, if_false]
  scriptAt_eq v on range input hinput := by
    simp only [scriptAt, failing, known, List.contains_nil, Bool.false_eq_true, if_false]

end Ledger

namespace Chain

/-- No transaction of the chain spends an output of a transaction with this id. -/
def Unspent (c : Chain) (txid : Digest) : Prop :=
  ∀ v : Visit, v.On c.ledger → ∀ input ∈ v.transaction.inputs,
    input.outpoint.isNull = false → input.outpoint.txid ≠ txid

/-- New transactions whose outputs nobody spent yet change nothing about what was there before. -/
theorem Mined.sameUpTo_mineAll {c : Chain} (mined : c.Mined)
    (blocks : List (Nat × List Transaction))
    (unspent : ∀ b ∈ blocks, ∀ tx ∈ b.2, c.Unspent tx.id) :
    c.ledger.SameUpTo (c.mineAll blocks).ledger c.tip where
  block_eq _ hheight := mined.block_mineAll_of_le blocks hheight
  scriptAt_eq v on _ input hinput := mined.scriptAt_mineAll fun b hb tx htx hnull =>
    Ne.symm (unspent b hb tx htx v on input hinput hnull)

end Chain

namespace Replay

variable {source source' : Resolution.Source} {options : ResolutionOptions}

theorem consider_congr {index index' : SidecarIndex} {v : Visit} {c : Checkpoint} {b : Beacon}
    (h : Signal.decodeFor index' c.did b.kind v.transaction =
      Signal.decodeFor index c.did b.kind v.transaction) :
    consider index' v c b = consider index v c b := by
  simp only [consider]
  rw [h]

theorem considerAll_congr {index index' : SidecarIndex} {v : Visit} {c : Checkpoint}
    {beacons : List Beacon}
    (h : ∀ b ∈ beacons, Signal.decodeFor index' c.did b.kind v.transaction =
      Signal.decodeFor index c.did b.kind v.transaction) :
    considerAll options index' v c beacons = considerAll options index v c beacons := by
  induction beacons generalizing c with
  | nil => rfl
  | cons b rest ih =>
      obtain ⟨hb, hrest⟩ := List.forall_mem_cons.1 h
      simp only [considerAll]
      split
      · rfl
      · rw [consider_congr hb]
        exact ih fun b' hb' => by simpa using hrest b' hb'

/-- Replays are the same if each transaction spends the same in both sources, and each signal that
the one comes to announces the same in the other. -/
theorem run_congr (hnetwork : source'.network = source.network) {last : Nat} {c : Checkpoint}
    {visits : List Visit}
    (hspends : ∀ v ∈ visits, ∀ registry,
      v.watched source'.ledger registry = v.watched source.ledger registry)
    (hdecode : ∀ group ∈ signals source options c visits, ∀ s ∈ group,
      s.decode source'.index c.did = s.decode source.index c.did) :
    run source' options last c visits = run source options last c visits := by
  induction visits generalizing c with
  | nil => rfl
  | cons v rest ih =>
      obtain ⟨hv, hrest⟩ := List.forall_mem_cons.1 hspends
      cases hopen : c.isDone options with
      | true => rw [run_of_isDone hopen, run_of_isDone hopen]
      | false =>
      have hregistry := hv (Registry.ofDocument c.document source.network)
      rw [← hnetwork] at hregistry
      by_cases hwatched :
        v.watched source.ledger (Registry.ofDocument c.document source.network) = []
      · rw [signals_unwatched hopen hwatched] at hdecode
        rw [run_unwatched hopen hwatched, run_unwatched hopen (by rwa [hregistry, hnetwork]),
          ih hrest hdecode]
      · rw [run_watched hopen hwatched, run_watched hopen (by rwa [hregistry, hnetwork]), hregistry,
          hnetwork]
        rw [signals_watched hopen hwatched] at hdecode
        split
        · rfl
        · next hlate =>
          rw [if_neg hlate, List.forall_mem_cons] at hdecode
          obtain ⟨hgroup, hlater⟩ := hdecode
          rw [considerAll_congr fun b hb => hgroup (v.signal b) (List.mem_map_of_mem hb)]
          exact ih hrest (by simpa using hlater)

/-- The unbounded replay of a longer history goes on from where the shorter one ended. -/
theorem run_append {last last' : Nat} (hlast : last ≤ last') (c : Checkpoint)
    (visits later : List Visit) :
    run source {} last' c (visits ++ later) =
      run source {} last' (run source {} last c visits) later := by
  induction visits generalizing c with
  | nil =>
      cases h : c.isDone {} with
      | true => rw [run_of_isDone h, run_of_isDone h, run_of_isDone h]
      | false => rw [run_nil h, run_cursor h (Cursor.past_past hlast), List.nil_append]
  | cons v rest ih =>
      cases h : c.isDone {} with
      | true => rw [run_of_isDone h, run_of_isDone h, run_of_isDone h]
      | false =>
      by_cases hwatched :
        v.watched source.ledger (Registry.ofDocument c.document source.network) = []
      · rw [List.cons_append, run_unwatched h hwatched, run_unwatched h hwatched, ih]
      · rw [List.cons_append, run_watched h hwatched, run_watched h hwatched]
        exact ih _

/-- A replay that comes to its end leaves the cursor behind the range. -/
theorem cursor_run {last : Nat} {c : Checkpoint} {visits : List Visit}
    (hvisits : ∀ v ∈ visits, c.cursor.height ≤ last ∧ v.height ≤ last)
    (h : (run source {} last c visits).isDone {} = false) :
    (run source {} last c visits).cursor = c.cursor.past last := by
  induction visits generalizing c with
  | nil =>
      cases hc : c.isDone {} with
      | true =>
          rw [run_of_isDone hc, hc] at h
          cases h
      | false => rw [run_nil hc]
  | cons v rest ih =>
      obtain ⟨hv, hrest⟩ := List.forall_mem_cons.1 hvisits
      cases hc : c.isDone {} with
      | true =>
          rw [run_of_isDone hc, hc] at h
          cases h
      | false =>
      by_cases hwatched :
        v.watched source.ledger (Registry.ofDocument c.document source.network) = []
      · rw [run_unwatched hc hwatched] at h ⊢
        exact ih hrest h
      · rw [run_watched hc hwatched] at h ⊢
        rw [Cursor.past_of_le hv.1, ← Cursor.past_of_le (c := v.next) hv.2]
        exact ih (fun u hu => ⟨hv.2, (hrest u hu).2⟩) h

end Replay

end AnchoredDid
