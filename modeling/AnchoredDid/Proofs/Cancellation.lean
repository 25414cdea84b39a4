import AnchoredDid.Proofs.Held
import AnchoredDid.Proofs.Publication
import AnchoredDid.Proofs.Scan.Failure

/-!
# When cancellation takes effect

A run looks for cancellation between its turns, so at the boundary behind each transaction whose
signals it has tried, but not while the scanner walks over transactions without signals. A request
that is made on such a walk takes effect at the boundary behind the next transaction with signals,
however far off that is, unless the run ends first (`Resolver.Run.cancels`).
-/

namespace AnchoredDid

namespace Scanner

variable {l : Ledger} {registry : Registry} {last : Nat} {c m : Cursor}

/-- What is left at a place on the way is what was left before, without what was passed. -/
theorem Passes.visitsFrom (passes : Passes l registry last c m) (covers : l.Covers last)
    (numbered : l.Numbered) :
    ∃ passed, l.visitsFrom c last = passed ++ l.visitsFrom m last ∧
      ∀ u ∈ passed, u.watched l registry = [] := by
  induction passes with
  | refl c => exact ⟨[], rfl, nofun⟩
  | @pass height index block tx m range fetched here examined _ ih =>
      obtain ⟨passed, hvisits, hall⟩ := ih
      have hpassed := covers.watched_eq_nil numbered fetched examined
      refine ⟨⟨height, block.time, index, tx⟩ :: passed, ?_, List.forall_mem_cons.2 ⟨hpassed, hall⟩⟩
      rw [Ledger.visitsFrom_of_getElem? numbered range fetched here, hvisits, List.cons_append]
  | leave range fetched ended _ ih =>
      rw [Ledger.visitsFrom_of_length_le range fetched ended]
      exact ih

end Scanner

namespace Resolution

variable {source : Source} {options : ResolutionOptions} {polls n tip last : Nat}
variable {c d : Checkpoint} {s t u : Scanner} {m : Cursor} {passed : List Visit} {v : Visit}
variable {signals : List Signal}

/-- A boundary between turns that a run comes to: how often it has looked for cancellation before,
what it holds, and its scanner. -/
inductive Boundary (source : Source) (options : ResolutionOptions) :
    Nat → Checkpoint → Scanner → Nat → Checkpoint → Scanner → Prop
  | now {polls : Nat} {c : Checkpoint} {s : Scanner} : Boundary source options polls c s polls c s
  | later {polls n : Nat} {c d : Checkpoint} {s t u : Scanner} {signals : List Signal}
      (turn : Turn source options polls c s signals t)
      (rest : Boundary source options (polls + 1) (turned source options c signals t) t n d u) :
      Boundary source options polls c s n d u

theorem Boundary.traverse_eq (boundary : Boundary source options polls c s n d u) :
    traverse source options polls c s = traverse source options n d u := by
  induction boundary with
  | now => rfl
  | later turn _ ih => rw [turn.traverse_eq, ih]

theorem Turn.aligned (turn : Turn source options polls c s signals t)
    (aligned : s.Aligned source.ledger) : t.Aligned source.ledger ∧ t.last = s.last := by
  obtain ⟨-, taligned, tlast⟩ :=
    Scanner.next_walk (Registry.ofDocument c.document source.network) aligned
  rw [turn.found] at taligned tlast
  exact ⟨taligned, tlast⟩

/-- At each boundary the scanner stands where the checkpoint says, before the same end of the
range. -/
theorem Boundary.aligned (boundary : Boundary source options polls c s n d u)
    (aligned : s.Aligned source.ledger) (hcursor : s.cursor = c.cursor) :
    u.Aligned source.ledger ∧ u.last = s.last ∧ u.cursor = d.cursor := by
  induction boundary with
  | now => exact ⟨aligned, rfl, hcursor⟩
  | later turn _ ih =>
      obtain ⟨taligned, tlast⟩ := turn.aligned aligned
      obtain ⟨ualigned, ulast, ucursor⟩ := ih taligned rfl
      exact ⟨ualigned, ulast.trans tlast, ucursor⟩

/-- How a run ends once its cancellation is requested at a place behind this checkpoint. It goes on
to the next transaction with signals, if there is one in the range and in time, and tries these. At
the boundary behind it the run is cancelled, unless it has come to its end there. -/
inductive Ends (source : Source) (options : ResolutionOptions) (last : Nat) (d : Checkpoint)
    (m : Cursor) : Except ResolveError Resolution → Prop
  | exhausted (nothing : ∀ v ∈ source.ledger.visitsFrom m last,
        v.watched source.ledger (Registry.ofDocument d.document source.network) = []) :
      Ends source options last d m
        (.ok (ending options .targetReached { d with cursor := d.cursor.past last }))
  | late {passed : List Visit} {v : Visit} (first : First source last d m passed v)
      (late : options.time.any (· < v.time) = true) :
      Ends source options last d m
        (.ok (ending options .targetReached { d with cursor := v.cursor }))
  | done {passed : List Visit} {v : Visit} (first : First source last d m passed v)
      (timely : options.time.any (· < v.time) = false)
      (done : (behind source options d v).isDone options = true) :
      Ends source options last d m (.ok (Replay.finish options (behind source options d v)))
  | cancelled {passed : List Visit} {v : Visit} (first : First source last d m passed v)
      (timely : options.time.any (· < v.time) = false)
      (going : (behind source options d v).isDone options = false) :
      Ends source options last d m (.error (.cancelled (behind source options d v)))

/-- What was found from the boundary on is the first that is watched from any place before it. -/
theorem First.of_passes {before : List Visit}
    (hbefore : source.ledger.visitsFrom s.cursor last = before ++ source.ledger.visitsFrom m last)
    (unwatched : ∀ u ∈ before,
      u.watched source.ledger (Registry.ofDocument d.document source.network) = [])
    (first : First source last d s.cursor passed v) : ∃ passed, First source last d m passed v := by
  obtain ⟨between, rfl, hm⟩ :=
    exists_between (hbefore.symm.trans first.visits) unwatched first.watched
  refine ⟨between, hm, ?_, first.watched⟩
  intro u hu
  exact first.unwatched u (List.mem_append_right _ hu)

/-- If the boundary behind the first transaction with signals is no end, the run is cancelled
there. -/
theorem Ends.eq_cancelled {answer : Except ResolveError Resolution}
    (ends : Ends source options last d m answer) (first : First source last d m passed v)
    (timely : options.time.any (· < v.time) = false)
    (going : (behind source options d v).isDone options = false) :
    answer = .error (.cancelled (behind source options d v)) := by
  cases ends with
  | exhausted nothing => exact absurd (nothing v first.mem) first.watched
  | late first' late =>
      rw [first'.unique first, timely] at late
      cases late
  | done first' _ done =>
      rw [first'.unique first, going] at done
      cases done
  | cancelled first' _ _ => rw [first'.unique first]

/-- A request that the next look sees, made anywhere on the way of a turn. -/
theorem ends_of_requested (faultless : source.ledger.Faultless tip) (hlast : s.last ≤ tip)
    (aligned : s.Aligned source.ledger) (hcursor : s.cursor = d.cursor)
    (going : d.isDone options = false) (running : options.cancelled ⟨n, s.asked⟩ = false)
    (requested : ∀ signals t, Turn source options n d s signals t →
      options.cancelled ⟨n + 1, t.asked⟩ = true)
    (passes : Scanner.Passes source.ledger (Registry.ofDocument d.document source.network) s.last
      s.cursor m) :
    Ends source options s.last d m (traverse source options n d s) := by
  have covers := faultless.covers hlast
  obtain ⟨before, hbefore, hunwatched⟩ := passes.visitsFrom covers faultless.numbered
  obtain ⟨walk, -⟩ := Scanner.next_walk (Registry.ofDocument d.document source.network) aligned
  cases hnext : s.next source.ledger (Registry.ofDocument d.document source.network) with
  | mk outcome t =>
      rw [hnext] at walk
      have searched := walk.searches covers faultless.numbered
      cases outcome with
      | failed e => exact searched.elim
      | finished =>
          obtain ⟨hall, tcursor⟩ := searched
          rw [hbefore] at hall
          have heq : traverse source options n d s =
              .ok (ending options .targetReached { d with cursor := d.cursor.past s.last }) := by
            rw [traverse_next going running, hnext]
            dsimp only
            rw [tcursor, hcursor]
          rw [heq]
          exact .exhausted fun v hv => hall v (List.mem_append_right _ hv)
      | found signals =>
          obtain ⟨passed, v, on, range, hvisits, hpassed, hwatched, rfl, tcursor⟩ := searched
          have hrest := hvisits s.last (Nat.le_refl _)
          rw [Ledger.visitsFrom_of_on faultless.numbered on range] at hrest
          obtain ⟨passed, first⟩ := First.of_passes hbefore hunwatched ⟨hrest, hpassed, hwatched⟩
          have hlate : late? options _ = _ := late?_signals v hwatched
          cases htime : options.time.any (· < v.time) with
          | true =>
              rw [htime, if_pos rfl] at hlate
              have heq : traverse source options n d s =
                  .ok (ending options .targetReached { d with cursor := v.cursor }) := by
                rw [traverse_next going running, hnext]
                simp only [hlate]
              rw [heq]
              exact .late first htime
          | false =>
              rw [htime, if_neg Bool.false_ne_true] at hlate
              have turn : Turn source options n d s _ t := ⟨going, running, hnext, hlate⟩
              have hbehind : turned source options d ((v.watched source.ledger
                  (Registry.ofDocument d.document source.network)).map v.signal) t =
                    behind source options d v := by
                rw [turned, behind, Checkpoint.attemptAll_signals going, tcursor]
              rw [turn.traverse_eq, hbehind]
              cases hdone : (behind source options d v).isDone options with
              | true =>
                  rw [traverse_of_isDone hdone]
                  exact .done first htime hdone
              | false =>
                  rw [traverse_of_cancelled hdone (requested _ t turn)]
                  exact .cancelled first htime hdone

end Resolution

namespace Sample

/-- Without the update the transaction that publishes it announces nothing. -/
theorem behind_unknown (l : Ledger) (options : ResolutionOptions) (c : Checkpoint) (v : Visit) :
    Resolution.behind ⟨l, .regtest, sidecar.index⟩ options c v = { c with cursor := v.next } := by
  have hnone : ∀ kind did, Signal.decodeFor sidecar.index did kind v.transaction = none := by
    intro kind did
    cases hbytes : Script.announced? v.transaction <;>
      simp [Signal.decodeFor, hbytes, Sidecar.index, sidecar, Sidecar.empty, DigestMap.ofReadable,
        DigestMap.get?]
  rw [Resolution.behind, Replay.considerAll_eq_self fun b _ =>
    Replay.consider_eq_self fun u hu => by rw [hnone] at hu; cases hu]

theorem first_grown {p : PreparedUpdate} (prepared : draft.prepare pair "#beacon" = .ok p) :
    Resolution.First ⟨(grown p).ledger, .regtest, sidecar.index⟩ 2 (.genesis did genesis 0) ⟨1, 0⟩
      [⟨1, 10, 0, funding p.beacon.script⟩] ⟨2, 20, 0, spending p⟩ where
  visits := rfl
  unwatched := List.forall_mem_singleton.2 (watched_funding _ _ p.beacon.script)
  watched := by
    obtain ⟨-, -, i, hi, hbeacon⟩ := Draft.prepare_eq_ok prepared
    obtain rfl : identifier = i :=
      Except.ok.inj ((Resolver.identify_decode identify_did).symm.trans hi)
    exact List.ne_nil_of_mem ((published_spending p).mem_watched hbeacon 2 20 0)

end Sample

namespace Resolver

variable {r : Resolver} {sidecar : Sidecar} {options : ResolutionOptions} {network : Network}
variable {c d : Checkpoint} {answer : Except ResolveError Resolution} {tip n : Nat} {s : Scanner}

/-- The answer of a resolution, or of one that is taken up again, that is not refused at once, and
the checkpoint that it starts from. -/
inductive Run (r : Resolver) (sidecar : Sidecar) (options : ResolutionOptions) :
    Network → Checkpoint → Except ResolveError Resolution → Prop
  | resolved {did : String} {i : Identifier} {genesis : Document}
      (version : options.version ≠ some 0)
      (identified : identify did = .ok i)
      (established : Genesis.document i sidecar.genesisDocument = .ok genesis) :
      Run r sidecar options i.network
        (.genesis did genesis (sidecar.genesisHeight.getD r.config.genesisHeight))
        (r.resolve did sidecar options)
  | resumed {c : Checkpoint} {i : Identifier} (version : options.version ≠ some 0)
      (identified : identify c.did = .ok i) :
      Run r sidecar options i.network c (r.resume c sidecar options)

theorem Run.eq_continueFrom (run : r.Run sidecar options network c answer) :
    answer = r.continueFrom c network sidecar options := by
  cases run with
  | resolved version identified established =>
      exact resolve_eq_continueFrom version identified established
  | resumed version identified => exact resume_eq_continueFrom version identified

/-- A boundary that a run from a checkpoint comes to. -/
def Boundary (r : Resolver) (tip : Nat) (network : Network) (sidecar : Sidecar)
    (options : ResolutionOptions) (c : Checkpoint) (n : Nat) (d : Checkpoint) (s : Scanner) :
    Prop :=
  Resolution.Boundary ⟨r.ledger, network, sidecar.index⟩ options 0 c
    (Scanner.resume c.cursor ((options.height.map (min · tip)).getD tip) r.config.window) n d s

/-- On a ledger that never fails, a run that looks for cancellation at a boundary is cancelled there
if it has been requested. If it is requested after that, at any place up to which the scanner passes
before the next look, then the run goes on as far as the next transaction with signals, and is
cancelled at the boundary behind it unless it ends first. -/
theorem Run.cancels (faultless : r.ledger.Faultless tip)
    (run : r.Run sidecar options network c answer)
    (boundary : r.Boundary tip network sidecar options c n d s) (going : d.isDone options = false) :
    (options.cancelled ⟨n, s.asked⟩ = true → answer = .error (.cancelled d)) ∧
    (options.cancelled ⟨n, s.asked⟩ = false →
      (∀ signals t, Resolution.Turn ⟨r.ledger, network, sidecar.index⟩ options n d s signals t →
        options.cancelled ⟨n + 1, t.asked⟩ = true) →
      ∀ m, Scanner.Passes r.ledger (Registry.ofDocument d.document network) s.last s.cursor m →
        Resolution.Ends ⟨r.ledger, network, sidecar.index⟩ options s.last d m answer) := by
  have hanswer : answer = Resolution.traverse ⟨r.ledger, network, sidecar.index⟩ options n d s := by
    rw [run.eq_continueFrom, continueFrom_eq faultless, boundary.traverse_eq]
  obtain ⟨aligned, hlast, hcursor⟩ :=
    Resolution.Boundary.aligned boundary (Scanner.aligned_resume r.ledger c.cursor _ _) rfl
  rw [hanswer]
  constructor
  · intro requested
    exact Resolution.traverse_of_cancelled going requested
  · intro running requested m passes
    have hend : s.last ≤ tip := hlast ▸ last_le options tip
    exact Resolution.ends_of_requested faultless hend aligned hcursor going running requested passes

/-- The transaction that publishes an update is found by a resolution that does not have the update.
Cancellation is requested while the first block is fetched, where nothing is signalled, and takes
effect behind the transaction in the second one. -/
theorem Run.cancels_sample : ∃ p,
    Sample.draft.prepare Sample.pair "#beacon" = .ok p ∧
    resolve ⟨(Sample.grown p).ledger, { window := 1 }⟩ Sample.did Sample.sidecar
        { cancelled := fun progress => 0 < progress.polls } =
      .error (.cancelled
        { Checkpoint.genesis Sample.did Sample.genesis 0 with cursor := ⟨2, 1⟩ }) := by
  obtain ⟨p, prepared⟩ := Sample.exists_prepared
  have run : Run ⟨(Sample.grown p).ledger, { window := 1 }⟩ Sample.sidecar
      { cancelled := fun progress => 0 < progress.polls } .regtest
      (.genesis Sample.did Sample.genesis 0) _ :=
    .resolved (by decide) Sample.identify_did Sample.document_identifier
  have ends := (run.cancels (Sample.mined_grown p).faultless .now Sample.open_genesis).2 rfl
    (fun _ _ _ => rfl) ⟨1, 0⟩ (.leave (Nat.zero_le _) rfl (Nat.le_refl 0) (.refl _))
  refine ⟨p, prepared, (ends.eq_cancelled (Sample.first_grown prepared) rfl ?_).trans ?_⟩
  · rw [Sample.behind_unknown]
    exact Sample.open_genesis
  · rw [Sample.behind_unknown]
    rfl

/-- Three transactions, none of which signals anything. -/
def quietChain : Chain :=
  (Chain.start.mine 10 [Sample.funding [1], Sample.funding [2]]).mine 20 [Sample.funding [3]]

/-- Cancellation is requested when the first block is fetched, and three transactions are left from
there. The resolution walks over all of them and ends behind the last one. -/
theorem resolve_ne_cancelled : ∃ result,
    resolve ⟨quietChain.ledger, { window := 1 }⟩ Sample.did Sample.sidecar
      { cancelled := fun progress => progress.asked.contains 1 } = .ok result ∧
    (quietChain.ledger.visitsFrom ⟨1, 0⟩ 2).length = 3 ∧
    quietChain.ledger.visitsFrom result.checkpoint.cursor 2 = [] := by
  have faultless : quietChain.ledger.Faultless quietChain.tip :=
    Chain.Mined.faultless (.mine _ _ (.mine _ _ .start))
  have hvisits : quietChain.ledger.visitsFrom ⟨0, 0⟩ 2 = [⟨1, 10, 0, Sample.funding [1]⟩,
    ⟨1, 10, 1, Sample.funding [2]⟩, ⟨2, 20, 0, Sample.funding [3]⟩] := rfl
  have unwatched : ∀ registry, ∀ v ∈ quietChain.ledger.visitsFrom ⟨0, 0⟩ 2,
      v.watched quietChain.ledger registry = [] := by
    intro registry
    rw [hvisits]
    simp [Sample.watched_funding]
  rw [resolve_eq_continueFrom (by decide) Sample.identify_did
    (show Genesis.document Sample.identifier Sample.sidecar.genesisDocument =
      .ok Sample.genesis from Sample.document_identifier), continueFrom_eq faultless]
  have turn := @Resolution.traverse_turn ⟨quietChain.ledger, .regtest, Sample.sidecar.index⟩
    { cancelled := fun progress => progress.asked.contains 1 } 0 _
    (.genesis Sample.did Sample.genesis 0) (Scanner.resume ⟨0, 0⟩ 2 1) faultless
    (Nat.le_refl 2) (Scanner.aligned_resume _ _ _ _) Sample.open_genesis rfl
  rcases turn with ⟨-, heq⟩ | ⟨passed, v, t, -, -, hrest, -, hwatched, -⟩
  · exact ⟨_, heq, rfl, rfl⟩
  · have hsplit : quietChain.ledger.visitsFrom ⟨0, 0⟩ 2 = _ := hrest 2 (Nat.le_refl 2)
    refine absurd (unwatched _ v ?_) hwatched
    rw [hsplit]
    exact List.mem_append_right _ List.mem_cons_self

end Resolver

end AnchoredDid
