import AnchoredDid.Proofs.Extension
import AnchoredDid.Proofs.Bounds
import AnchoredDid.Proofs.Scan.Serial

/-!
# Reading ahead can only make a resolution fail

On a ledger that fails on any questions, resolutions with different windows may fail in different
places, for a wider window asks for blocks that a narrower one never comes to. But those that end
with a result all end with the same one, and if any of them does then so does the one that reads no
block ahead (`Resolver.resolve_windows`). The engine takes the same turns beside a wider window as
long as that one finds answers (`Resolution.traverse_of_inStep`).

Cancellation is no exception as long as it is not taken back: the resolution that reads no block
ahead has asked for no more than the other when it looks for the same time.
-/

namespace AnchoredDid

/-- Once requested, cancellation is not taken back: what has requested it after some questions has
requested it after more. -/
def Cancellation.Lasting (cancelled : Cancellation) : Prop :=
  ∀ polls asked asked', asked ⊆ asked' → cancelled ⟨polls, asked⟩ = true →
    cancelled ⟨polls, asked'⟩ = true

/-- A request that is made before the resolution, or while the block at a height is fetched, is
lasting. -/
theorem Cancellation.lasting_requested (already : Bool) (height : Option Nat) :
    Cancellation.Lasting fun progress => already || height.any progress.asked.contains := by
  intro polls asked asked' hsubset h
  rcases Bool.or_eq_true_iff.1 h with h | h
  · exact Bool.or_eq_true_iff.2 (.inl h)
  · obtain ⟨k, hk, hasked⟩ := (Option.any_eq_true _ _).1 h
    exact Bool.or_eq_true_iff.2 (.inr ((Option.any_eq_true _ _).2
      ⟨k, hk, List.contains_iff_mem.2 (hsubset (List.contains_iff_mem.1 hasked))⟩))

/-- Trying signals does not look for cancellation. -/
theorem Checkpoint.attemptAll_cancelled (options : ResolutionOptions) (cancelled : Cancellation)
    (index : SidecarIndex) (c : Checkpoint) (signals : List Signal) :
    c.attemptAll { options with cancelled := cancelled } index signals =
      c.attemptAll options index signals := by
  fun_induction attemptAll options index c signals with
  | case1 c => rfl
  | case2 c signal rest d hattempt hdone =>
      rw [attemptAll_cons_of_changed hattempt]
      exact if_pos hdone
  | case3 c signal rest d hattempt hgoing ih =>
      rw [attemptAll_cons_of_changed hattempt, ih]
      exact if_neg hgoing
  | case4 c signal rest d hattempt ih => rw [attemptAll_cons_of_unchanged hattempt, ih]

namespace Resolution

variable {source : Source} {options : ResolutionOptions} {cancelled : Cancellation}
variable {result : Resolution}

/-- Beside a run that ends with a result, one that reads no block ahead takes the same turns. It may
be cancelled differently, but not earlier. -/
theorem traverse_of_inStep {polls : Nat} {c : Checkpoint} {s u : Scanner}
    (inStep : Scanner.InStep source.ledger s u)
    (later : ∀ polls asked asked', asked ⊆ asked' → options.cancelled ⟨polls, asked'⟩ = false →
      cancelled ⟨polls, asked⟩ = false)
    (h : traverse source options polls c u = .ok result) :
    traverse source { options with cancelled := cancelled } polls c s = .ok result := by
  cases hdone : c.isDone options with
  | true =>
      rw [traverse_of_isDone hdone] at h
      rw [← h]
      exact traverse_of_isDone hdone
  | false =>
      have hrunning := not_cancelled hdone h
      rw [traverse_next hdone hrunning] at h
      have hdone' : c.isDone { options with cancelled := cancelled } = false := hdone
      rw [traverse_next hdone' (later polls _ _ inStep.asked_subset hrunning)]
      cases hnext : u.next source.ledger (Registry.ofDocument c.document source.network) with
      | mk outcome u' =>
          rw [hnext] at h
          cases outcome with
          | failed e => cases h
          | finished =>
              obtain ⟨s', hs', inStep'⟩ := inStep.next hnext (by simp)
              rw [hs', ← h]
              simp only [inStep'.cursor_eq]
              rfl
          | found signals =>
              obtain ⟨s', hs', inStep'⟩ := inStep.next hnext (by simp)
              have hbound : late? { options with cancelled := cancelled } signals =
                  late? options signals := rfl
              simp only [hs', hbound, Checkpoint.attemptAll_cancelled]
              cases hlate : late? options signals with
              | some cursor =>
                  simp only [hlate] at h
                  exact h
              | none =>
                  simp only [hlate] at h
                  simp only [inStep'.cursor_eq]
                  exact traverse_of_inStep inStep' later h
termination_by (u.blocksLeft, u.transactionsLeft)
decreasing_by exact Scanner.next_found_before hnext

end Resolution

namespace Resolver

variable {ledger : Ledger} {config : ResolverConfig} {did : String} {sidecar : Sidecar}
variable {options : ResolutionOptions} {window : Nat} {result : Resolution}

/-- Whatever window a resolution with a result had, without reading ahead the result is the same. -/
theorem resolve_serial (cancelled : Cancellation)
    (later : ∀ polls asked asked', asked ⊆ asked' → options.cancelled ⟨polls, asked'⟩ = false →
      cancelled ⟨polls, asked⟩ = false)
    (h : resolve ⟨ledger, { config with window := window }⟩ did sidecar options = .ok result) :
    resolve ⟨ledger, { config with window := 1 }⟩ did sidecar
      { options with cancelled := cancelled } = .ok result := by
  obtain ⟨i, genesis, hversion, hi, hgenesis⟩ := resolve_of_ok h
  rw [resolve_eq_continueFrom hversion hi hgenesis, continueFrom] at h
  have hversion' : ({ options with cancelled := cancelled } : ResolutionOptions).version ≠ some 0 :=
    hversion
  rw [resolve_eq_continueFrom hversion' hi hgenesis, continueFrom]
  cases htip : ledger.tip with
  | error e =>
      simp only [htip] at h
      cases h
  | ok tip =>
      simp only [htip] at h ⊢
      exact Resolution.traverse_of_inStep (Scanner.inStep_resume ledger _ _ _) later h

/-- The ledger may fail on any questions. Of two resolutions that differ in their windows only, both
of which end with a result, the results are equal; and if any window leads to a result, then so does
the window of one block, to the same. -/
theorem resolve_windows (ledger : Ledger) (config : ResolverConfig) (did : String)
    (sidecar : Sidecar) (options : ResolutionOptions) :
    (∀ p q result result',
      resolve ⟨ledger, { config with window := p }⟩ did sidecar options = .ok result →
      resolve ⟨ledger, { config with window := q }⟩ did sidecar options = .ok result' →
        result = result') ∧
    (options.cancelled.Lasting → ∀ p result,
      resolve ⟨ledger, { config with window := p }⟩ did sidecar options = .ok result →
        resolve ⟨ledger, { config with window := 1 }⟩ did sidecar options = .ok result) := by
  constructor
  · -- both are what comes out without reading ahead, if nobody ever cancels
    intro p q result result' h h'
    have hserial := resolve_serial (fun _ => false) (fun _ _ _ _ _ => rfl) h
    have hserial' := resolve_serial (fun _ => false) (fun _ _ _ _ _ => rfl) h'
    exact Except.ok.inj (hserial.symm.trans hserial')
  · intro lasting p result h
    refine resolve_serial options.cancelled ?_ h
    intro polls asked asked' hsubset hrunning
    rw [← Bool.not_eq_true] at hrunning ⊢
    exact fun hcancelled => hrunning (lasting polls asked asked' hsubset hcancelled)

/-- A chain with a version behind the genesis document and a block behind that, which cannot be
fetched. The wider window takes in both blocks up to the height asked for at once. -/
theorem resolve_windows_sample : ∃ p result,
    Sample.draft.prepare Sample.pair "#beacon" = .ok p ∧
    resolve ⟨((Sample.grown p).mine 30 []).ledger.failing ⟨false, [3], []⟩, { window := 3 }⟩
      Sample.did (Sample.sidecar.addUpdate p.update) { height := some 2 } = .ok result ∧
    resolve ⟨((Sample.grown p).mine 30 []).ledger.failing ⟨false, [3], []⟩, { window := 1 }⟩
      Sample.did (Sample.sidecar.addUpdate p.update) { height := some 2 } = .ok result := by
  obtain ⟨p, prepared⟩ := Sample.exists_prepared
  have mined := (Sample.mined_grown p).mine 30 []
  have hgenesis :
      Genesis.document Sample.identifier (Sample.sidecar.addUpdate p.update).genesisDocument
      = .ok Sample.genesis := Sample.document_identifier
  have hversion : ({ height := some 2 } : ResolutionOptions).version ≠ some 0 := by decide
  obtain ⟨result, hresult⟩ := exists_resolve
    (r := ⟨((Sample.grown p).mine 30 []).ledger, { window := 3 }⟩) mined.faultless hversion
    Sample.identify_did hgenesis fun _ => rfl
  have hreached : 2 ≤ ((Sample.grown p).mine 30 []).tip := Nat.le_succ 2
  have behind : ∀ height ∈ [3], 2 < height :=
    fun height hheight => List.mem_singleton.1 hheight ▸ Nat.le_refl 3
  have same :=
    ((Sample.grown p).mine 30 []).ledger.sameUpTo_failing (f := ⟨false, [3], []⟩) behind rfl
  have hfailing : resolve ⟨((Sample.grown p).mine 30 []).ledger.failing ⟨false, [3], []⟩,
      { window := 3 }⟩ Sample.did (Sample.sidecar.addUpdate p.update) { height := some 2 } =
        .ok result :=
    (resolve_of_sameUpTo same rfl rfl _ _ _ rfl (Nat.le_refl 2) hreached hreached).trans hresult
  exact ⟨p, result, prepared, hfailing, (resolve_windows _ {} _ _ { height := some 2 }).2
    (fun _ _ _ _ h => h) 3 result hfailing⟩

end Resolver

end AnchoredDid
