import AnchoredDid.Identifier.Vectors
import AnchoredDid.Resolution
import AnchoredDid.Proofs.Outcome
import AnchoredDid.Proofs.Scan
import AnchoredDid.Proofs.Validation

/-!
# Resolution as a plain replay

`Replay.run` goes through a list of transactions in order, without a scanner, a window or a buffer:
it matches each against the beacons of the document as it then stands and tries what they announce.
On a ledger that never fails the engine ends where the replay ends
(`Resolution.traverse_eq_replay`), for every window and from every checkpoint.
-/

namespace AnchoredDid

namespace Checkpoint

/-- Nothing that comes later counts: the version asked for is reached, or the document is
deactivated. -/
def isDone (c : Checkpoint) (options : ResolutionOptions) : Bool :=
  options.reached c.version || c.document.isDeactivated

theorem isDone_eq_false {c : Checkpoint} {options : ResolutionOptions}
    (h : c.isDone options = false) :
    options.reached c.version = false ∧ c.document.isDeactivated = false :=
  Bool.or_eq_false_iff.1 h

end Checkpoint

namespace Replay

/-- The checkpoint after an update was accepted. -/
def accepted (v : Visit) (c : Checkpoint) (u : Update) (next : Applied) : Checkpoint :=
  { c with
    document := next.document
    version := next.version
    applied := c.applied ++ [u.hash]
    blockHeight := v.height
    blockTime := some v.time }

section Accepted

variable (v : Visit) (c : Checkpoint) (u : Update) (next : Applied)

@[simp] theorem accepted_did : (accepted v c u next).did = c.did := rfl

@[simp] theorem accepted_document : (accepted v c u next).document = next.document := rfl

@[simp] theorem accepted_version : (accepted v c u next).version = next.version := rfl

@[simp] theorem accepted_applied : (accepted v c u next).applied = c.applied ++ [u.hash] := rfl

end Accepted

/-- Tries what a transaction announces through one beacon. Nothing happens if it announces no update
or one that was applied before; an update that is not accepted is counted. -/
def consider (index : SidecarIndex) (v : Visit) (c : Checkpoint) (b : Beacon) : Checkpoint :=
  match Signal.decodeFor index c.did b.kind v.transaction with
  | none => c
  | some update =>
    if update.hash ∈ c.applied then c
    else
      match update.advance c.document c.version c.did with
      | .error _ => { c with rejectedCount := c.rejectedCount + 1 }
      | .ok next => accepted v c update next

/-- Tries one beacon after the other, as long as anything counts. -/
def considerAll (options : ResolutionOptions) (index : SidecarIndex) (v : Visit) :
    Checkpoint → List Beacon → Checkpoint
  | c, [] => c
  | c, b :: rest =>
    if c.isDone options then c else considerAll options index v (consider index v c b) rest

/-- The checkpoint that a replay of these transactions ends with, for a range up to `last`. -/
def run (source : Resolution.Source) (options : ResolutionOptions) (last : Nat) :
    Checkpoint → List Visit → Checkpoint
  | c, [] => if c.isDone options then c else { c with cursor := c.cursor.past last }
  | c, v :: rest =>
    if c.isDone options then c
    else
      match v.watched source.ledger (Registry.ofDocument c.document source.network) with
      | [] => run source options last c rest
      | beacons =>
        if options.time.any (· < v.time) then { c with cursor := v.cursor }
        else
          run source options last
            { considerAll options source.index v c beacons with cursor := v.next } rest

/-- The signals that a replay comes to, those of one transaction after another. -/
def signals (source : Resolution.Source) (options : ResolutionOptions) :
    Checkpoint → List Visit → List (List Signal)
  | _, [] => []
  | c, v :: rest =>
    if c.isDone options then []
    else
      match v.watched source.ledger (Registry.ofDocument c.document source.network) with
      | [] => signals source options c rest
      | beacons =>
        if options.time.any (· < v.time) then []
        else
          beacons.map v.signal ::
            signals source options
              { considerAll options source.index v c beacons with cursor := v.next } rest

/-- The signals that the unbounded replay from a checkpoint comes to. -/
def upcoming (source : Resolution.Source) (tip : Nat) (c : Checkpoint) : List (List Signal) :=
  signals source {} c (source.ledger.visitsFrom c.cursor tip)

/-- A replay has reached what it was asked for unless the document is deactivated before. -/
def finish (options : ResolutionOptions) (c : Checkpoint) : Resolution :=
  Resolution.ending options
    (if c.document.isDeactivated && !options.reached c.version then .terminated
      else .targetReached) c

/-- The replay of a whole history, from the genesis document at a height on. -/
def history (source : Resolution.Source) (options : ResolutionOptions) (did : String)
    (genesis : Document) (first tip : Nat) : Resolution :=
  let last := (options.height.map (min · tip)).getD tip
  finish options
    (run source options last (.genesis did genesis first) (source.ledger.visits first last))

/-- Without bounds the range is the whole chain. -/
theorem history_unbounded (source : Resolution.Source) (did : String) (genesis : Document)
    (first tip : Nat) :
    history source {} did genesis first tip =
      finish {} (run source {} tip (.genesis did genesis first) (source.ledger.visits first tip)) :=
  rfl

theorem upcoming_genesis (source : Resolution.Source) (tip : Nat) (did : String)
    (genesis : Document) (first : Nat) :
    upcoming source tip (.genesis did genesis first) =
      signals source {} (.genesis did genesis first) (source.ledger.visits first tip) := by
  rw [upcoming, Checkpoint.genesis, Ledger.visitsFrom_start]

section Steps

variable {source : Resolution.Source} {options : ResolutionOptions} {last : Nat}
variable {c : Checkpoint} {v : Visit} {rest : List Visit}

theorem run_of_isDone (h : c.isDone options) (visits : List Visit) :
    run source options last c visits = c := by
  cases visits <;> simp [run, h]

theorem run_nil (h : c.isDone options = false) :
    run source options last c [] = { c with cursor := c.cursor.past last } := by
  simp [run, h]

theorem run_unwatched (h : c.isDone options = false)
    (hv : v.watched source.ledger (Registry.ofDocument c.document source.network) = []) :
    run source options last c (v :: rest) = run source options last c rest := by
  simp [run, h, hv]

theorem run_watched (h : c.isDone options = false)
    (hv : v.watched source.ledger (Registry.ofDocument c.document source.network) ≠ []) :
    run source options last c (v :: rest) =
      if options.time.any (· < v.time) then { c with cursor := v.cursor }
      else
        run source options last
          { considerAll options source.index v c
              (v.watched source.ledger (Registry.ofDocument c.document source.network))
            with cursor := v.next } rest := by
  rw [run]
  split
  · next hdone => simp [h] at hdone
  · split
    · next hnil => exact absurd hnil hv
    · rfl

theorem signals_of_isDone (h : c.isDone options) (visits : List Visit) :
    signals source options c visits = [] := by
  cases visits <;> simp [signals, h]

theorem signals_unwatched (h : c.isDone options = false)
    (hv : v.watched source.ledger (Registry.ofDocument c.document source.network) = []) :
    signals source options c (v :: rest) = signals source options c rest := by
  simp [signals, h, hv]

theorem signals_watched (h : c.isDone options = false)
    (hv : v.watched source.ledger (Registry.ofDocument c.document source.network) ≠ []) :
    signals source options c (v :: rest) =
      if options.time.any (· < v.time) then []
      else
        (v.watched source.ledger (Registry.ofDocument c.document source.network)).map v.signal ::
          signals source options
            { considerAll options source.index v c
                (v.watched source.ledger (Registry.ofDocument c.document source.network))
              with cursor := v.next } rest := by
  rw [signals]
  split
  · next hdone => simp [h] at hdone
  · split
    · next hnil => exact absurd hnil hv
    · rfl

theorem signals_passed (h : c.isDone options = false) {passed : List Visit}
    (hpassed : ∀ u ∈ passed,
      u.watched source.ledger (Registry.ofDocument c.document source.network) = []) :
    signals source options c (passed ++ rest) = signals source options c rest := by
  induction passed with
  | nil => rfl
  | cons u passed ih =>
      obtain ⟨hu, hpassed⟩ := List.forall_mem_cons.1 hpassed
      rw [List.cons_append, signals_unwatched h hu, ih hpassed]

/-- Transactions that are not watched leave no trace. -/
theorem run_passed (h : c.isDone options = false) {passed : List Visit}
    (hpassed : ∀ u ∈ passed,
      u.watched source.ledger (Registry.ofDocument c.document source.network) = []) :
    run source options last c (passed ++ rest) = run source options last c rest := by
  induction passed with
  | nil => rfl
  | cons u passed ih =>
      obtain ⟨hu, hpassed⟩ := List.forall_mem_cons.1 hpassed
      rw [List.cons_append, run_unwatched h hu, ih hpassed]

/-- A candidate counts as rejected at most, or it is accepted and leads to the next document. -/
theorem consider_cases (index : SidecarIndex) (v : Visit) (c : Checkpoint) (b : Beacon) :
    (∃ rejectedCount, consider index v c b = { c with rejectedCount := rejectedCount }) ∨
    ∃ update next, Signal.decodeFor index c.did b.kind v.transaction = some update ∧
      update.hash ∉ c.applied ∧ update.advance c.document c.version c.did = .ok next ∧
      consider index v c b = accepted v c update next := by
  cases hdecode : Signal.decodeFor index c.did b.kind v.transaction with
  | none => exact .inl ⟨c.rejectedCount, by simp [consider, hdecode]⟩
  | some update =>
      by_cases hknown : update.hash ∈ c.applied
      · exact .inl ⟨c.rejectedCount, by simp [consider, hdecode, hknown]⟩
      · cases happly : update.advance c.document c.version c.did with
        | error e =>
            exact .inl ⟨c.rejectedCount + 1, by simp [consider, hdecode, hknown, happly]⟩
        | ok next =>
            exact .inr ⟨update, next, rfl, hknown, happly,
              by simp [consider, hdecode, hknown, happly]⟩

theorem considerAll_of_isDone (index : SidecarIndex) (v : Visit) (h : c.isDone options)
    (beacons : List Beacon) : considerAll options index v c beacons = c := by
  cases beacons <;> simp [considerAll, h]

theorem considerAll_cons (index : SidecarIndex) (v : Visit) (h : c.isDone options = false)
    (b : Beacon) (beacons : List Beacon) :
    considerAll options index v c (b :: beacons) =
      considerAll options index v (consider index v c b) beacons := by
  simp [considerAll, h]

end Steps

section Consider

variable {index : SidecarIndex} {v : Visit} {c : Checkpoint} {b : Beacon} {beacons : List Beacon}
variable {options : ResolutionOptions}

/-- A candidate that was applied before changes nothing. -/
theorem consider_eq_self
    (h : ∀ u, Signal.decodeFor index c.did b.kind v.transaction = some u → u.hash ∈ c.applied) :
    consider index v c b = c := by
  cases hdecode : Signal.decodeFor index c.did b.kind v.transaction with
  | none => simp [consider, hdecode]
  | some u => simp [consider, hdecode, h u hdecode]

@[simp] theorem consider_did (index : SidecarIndex) (v : Visit) (c : Checkpoint) (b : Beacon) :
    (consider index v c b).did = c.did := by
  rcases consider_cases index v c b with ⟨_, heq⟩ | ⟨_, _, -, -, -, heq⟩
  · rw [heq]
  · rw [heq, accepted_did]

theorem consider_cursor (index : SidecarIndex) (v : Visit) (c : Checkpoint) (b : Beacon)
    (cursor : Cursor) :
    consider index v { c with cursor := cursor } b =
      { consider index v c b with cursor := cursor } := by
  unfold consider
  dsimp only
  repeat' split
  all_goals rfl

@[simp] theorem considerAll_did (options : ResolutionOptions) (index : SidecarIndex) (v : Visit)
    (c : Checkpoint) (beacons : List Beacon) :
    (considerAll options index v c beacons).did = c.did := by
  induction beacons generalizing c with
  | nil => rfl
  | cons b rest ih =>
      rw [considerAll]
      split
      · rfl
      · rw [ih, consider_did]

theorem considerAll_cursor (options : ResolutionOptions) (index : SidecarIndex) (v : Visit)
    (c : Checkpoint) (beacons : List Beacon) (cursor : Cursor) :
    considerAll options index v { c with cursor := cursor } beacons =
      { considerAll options index v c beacons with cursor := cursor } := by
  induction beacons generalizing c with
  | nil => rfl
  | cons b rest ih =>
      cases h : c.isDone options with
      | true =>
          rw [considerAll_of_isDone index v h]
          exact considerAll_of_isDone (c := { c with cursor := cursor }) index v h _
      | false =>
          have hmoved : Checkpoint.isDone { c with cursor := cursor } options = false := h
          rw [considerAll_cons index v h, considerAll_cons index v hmoved, consider_cursor, ih]

theorem considerAll_eq_self (h : ∀ b ∈ beacons, consider index v c b = c) :
    considerAll options index v c beacons = c := by
  induction beacons with
  | nil => rfl
  | cons b rest ih =>
      obtain ⟨hb, hrest⟩ := List.forall_mem_cons.1 h
      rw [considerAll]
      split
      · rfl
      · rw [hb, ih hrest]

end Consider

/-- What every candidate preserves, the candidates of a transaction preserve. -/
theorem considerAll_induction {options : ResolutionOptions} {index : SidecarIndex} {v : Visit}
    {P : Checkpoint → Prop} (hconsider : ∀ c b, P c → P (consider index v c b)) {c : Checkpoint}
    (h : P c) (beacons : List Beacon) : P (considerAll options index v c beacons) := by
  induction beacons generalizing c with
  | nil => exact h
  | cons b rest ih =>
      rw [considerAll]
      split
      · exact h
      · exact ih (hconsider c b h)

/-- What every candidate preserves, wherever the cursor is, a replay preserves. -/
theorem run_induction {source : Resolution.Source} {options : ResolutionOptions} {last : Nat}
    {P : Checkpoint → Prop} (hcursor : ∀ c cursor, P c → P { c with cursor := cursor })
    (hconsider : ∀ v c b, P c → P (consider source.index v c b)) {c : Checkpoint} (h : P c)
    (visits : List Visit) : P (run source options last c visits) := by
  induction visits generalizing c with
  | nil =>
      rw [run]
      split
      · exact h
      · exact hcursor c _ h
  | cons v rest ih =>
      rw [run]
      split
      · exact h
      · split
        · exact ih h
        · split
          · exact hcursor c _ h
          · exact ih (hcursor _ _ (considerAll_induction (hconsider v) h _))

theorem run_did {source : Resolution.Source} {options : ResolutionOptions} {last : Nat}
    {c : Checkpoint} (visits : List Visit) : (run source options last c visits).did = c.did :=
  run_induction (P := fun d => d.did = c.did) (fun _ _ h => h)
    (fun v d b h => (consider_did source.index v d b).trans h) rfl visits

/-- A run that has not come to its end forgets where it started. -/
theorem run_cursor {source : Resolution.Source} {options : ResolutionOptions} {last : Nat}
    {c : Checkpoint} {cursor : Cursor} (h : c.isDone options = false)
    (hpast : cursor.past last = c.cursor.past last) (visits : List Visit) :
    run source options last { c with cursor := cursor } visits =
      run source options last c visits := by
  have hmoved : Checkpoint.isDone { c with cursor := cursor } options = false := h
  induction visits with
  | nil => rw [run_nil h, run_nil hmoved, hpast]
  | cons v rest ih =>
      by_cases hv : v.watched source.ledger (Registry.ofDocument c.document source.network) = []
      · rw [run_unwatched h hv, run_unwatched hmoved hv, ih]
      · rw [run_watched h hv, run_watched hmoved hv]
        simp only [considerAll_cursor]

theorem signals_cursor {source : Resolution.Source} {options : ResolutionOptions} {c : Checkpoint}
    (cursor : Cursor) (visits : List Visit) :
    signals source options { c with cursor := cursor } visits =
      signals source options c visits := by
  cases h : c.isDone options with
  | true =>
      have hmoved : Checkpoint.isDone { c with cursor := cursor } options := h
      rw [signals_of_isDone h, signals_of_isDone hmoved]
  | false =>
      have hmoved : Checkpoint.isDone { c with cursor := cursor } options = false := h
      induction visits with
      | nil => rfl
      | cons v rest ih =>
          by_cases hv : v.watched source.ledger (Registry.ofDocument c.document source.network) = []
          · rw [signals_unwatched h hv, signals_unwatched hmoved hv, ih]
          · rw [signals_watched h hv, signals_watched hmoved hv]
            simp only [considerAll_cursor]

end Replay

namespace Checkpoint

variable {options : ResolutionOptions} {index : SidecarIndex} {v : Visit}

/-- The engine's attempt on a signal is the replay's; it also tells whether the document changed. -/
theorem attempt_signal (c : Checkpoint) (index : SidecarIndex) (v : Visit) (b : Beacon) :
    (c.attempt index (v.signal b)).1 = Replay.consider index v c b ∧
      ((c.attempt index (v.signal b)).2 = false →
        (Replay.consider index v c b).isDone = c.isDone) := by
  cases hdecode : Signal.decodeFor index c.did b.kind v.transaction with
  | none => simp [attempt, Signal.decode, Visit.signal, Replay.consider, hdecode]
  | some update =>
      by_cases hknown : update.hash ∈ c.applied
      · simp [attempt, Signal.decode, Visit.signal, Replay.consider, hdecode, hknown]
      · cases happly : update.advance c.document c.version c.did with
        | error e =>
            simp only [attempt, Signal.decode, Visit.signal, Replay.consider, hdecode, happly,
              List.contains_iff_mem, hknown, if_false]
            exact ⟨trivial, fun _ => rfl⟩
        | ok applied =>
            simp [attempt, Signal.decode, Visit.signal, Replay.consider, Replay.accepted, hdecode,
              happly, hknown, Update.advance_updateHash happly]

theorem attemptAll_signals {c : Checkpoint} (h : c.isDone options = false) (beacons : List Beacon) :
    c.attemptAll options index (beacons.map v.signal) =
      Replay.considerAll options index v c beacons := by
  induction beacons generalizing c with
  | nil => rfl
  | cons b rest ih =>
      obtain ⟨hfst, hsnd⟩ := attempt_signal c index v b
      rw [Replay.considerAll_cons index v h]
      rw [List.map_cons, attemptAll]
      split
      · next c' hc =>
        rw [hc] at hfst
        subst hfst
        split
        · next hdone => rw [Replay.considerAll_of_isDone index v hdone]
        · next hdone => exact ih (Bool.eq_false_iff.2 hdone)
      · next c' hc =>
        rw [hc] at hfst hsnd
        subst hfst
        exact ih (by rw [hsnd rfl]; exact h)

end Checkpoint

namespace Resolution

variable {source : Source} {options : ResolutionOptions} {polls tip : Nat}
variable {c : Checkpoint} {s : Scanner}

theorem traverse_of_isDone (h : c.isDone options) :
    traverse source options polls c s = .ok (Replay.finish options c) := by
  rw [traverse]
  split
  · next hreached => simp [Replay.finish, hreached]
  · next hreached =>
    have hdeactivated : c.document.isDeactivated = true := by
      simpa [Checkpoint.isDone, hreached] using h
    simp [Replay.finish, hreached, hdeactivated]

theorem traverse_of_cancelled (h : c.isDone options = false)
    (hcancelled : options.cancelled ⟨polls, s.asked⟩ = true) :
    traverse source options polls c s = .error (.cancelled c) := by
  obtain ⟨hreached, hdeactivated⟩ := Checkpoint.isDone_eq_false h
  rw [traverse]
  simp [hreached, hdeactivated, hcancelled]

/-- One turn of the engine, for the three things a search can end with. -/
theorem traverse_next (h : c.isDone options = false)
    (hcancelled : options.cancelled ⟨polls, s.asked⟩ = false) :
    traverse source options polls c s =
      match s.next source.ledger (Registry.ofDocument c.document source.network) with
      | (.failed e, _) => .error (.ledger e)
      | (.finished, t) => .ok (ending options .targetReached { c with cursor := t.cursor })
      | (.found signals, t) =>
        match late? options signals with
        | some cursor => .ok (ending options .targetReached { c with cursor := cursor })
        | none =>
          traverse source options (polls + 1)
            { c.attemptAll options source.index signals with cursor := t.cursor } t := by
  obtain ⟨hreached, hdeactivated⟩ := Checkpoint.isDone_eq_false h
  rw [traverse]
  simp only [hreached, hdeactivated, hcancelled, Bool.false_eq_true, if_false]
  split
  · next heq => simp only [heq]
  · next heq => simp only [heq]
  · next signals t heq =>
    cases hlate : late? options signals with
    | none => simp only [heq, hlate]
    | some cursor => simp only [heq, hlate]

theorem late?_signals (v : Visit) {beacons : List Beacon} (h : beacons ≠ []) :
    late? options (beacons.map v.signal) =
      if options.time.any (· < v.time) then some v.cursor else none := by
  cases beacons with
  | nil => exact absurd rfl h
  | cons b rest =>
      cases htime : options.time with
      | none => simp [late?, htime]
      | some limit => simp [late?, htime, Visit.signal, Visit.cursor]

/-- A turn ends the range or comes to the next watched transaction. -/
theorem traverse_turn (faultless : source.ledger.Faultless tip) (hlast : s.last ≤ tip)
    (aligned : s.Aligned source.ledger) (h : c.isDone options = false)
    (hcancelled : options.cancelled ⟨polls, s.asked⟩ = false) :
    ((∀ u ∈ source.ledger.visitsFrom s.cursor s.last,
        u.watched source.ledger (Registry.ofDocument c.document source.network) = []) ∧
      traverse source options polls c s =
        .ok (ending options .targetReached { c with cursor := s.cursor.past s.last })) ∨
    ∃ (passed : List Visit) (v : Visit) (t : Scanner), v.On source.ledger ∧ v.height ≤ s.last ∧
      (∀ top, s.last ≤ top → source.ledger.visitsFrom s.cursor top =
        passed ++ v :: source.ledger.visitsFrom t.cursor top) ∧
      (∀ u ∈ passed,
        u.watched source.ledger (Registry.ofDocument c.document source.network) = []) ∧
      v.watched source.ledger (Registry.ofDocument c.document source.network) ≠ [] ∧
      t.Aligned source.ledger ∧ t.last = s.last ∧ t.cursor = v.next ∧
      traverse source options polls c s =
        if options.time.any (· < v.time) then
          .ok (ending options .targetReached { c with cursor := v.cursor })
        else
          traverse source options (polls + 1)
            { Replay.considerAll options source.index v c
                (v.watched source.ledger (Registry.ofDocument c.document source.network))
              with cursor := v.next } t := by
  obtain ⟨walk, taligned, tlast⟩ :=
    Scanner.next_walk (Registry.ofDocument c.document source.network) aligned
  rw [traverse_next h hcancelled]
  cases hnext : s.next source.ledger (Registry.ofDocument c.document source.network) with
  | mk outcome t =>
      rw [hnext] at walk taligned tlast
      have searched := walk.searches (faultless.covers hlast) faultless.numbered
      cases outcome with
      | failed e => exact searched.elim
      | finished =>
          obtain ⟨hall, hcursor⟩ := searched
          exact .inl ⟨hall, by rw [← hcursor]⟩
      | found signals =>
          obtain ⟨passed, v, on, range, hvisits, hall, hsome, rfl, hcursor⟩ := searched
          refine .inr ⟨passed, v, t, on, range, ?_, hall, hsome, taligned, tlast, hcursor, ?_⟩
          · intro top htop
            rw [hvisits top htop, hcursor,
              Ledger.visitsFrom_of_on faultless.numbered on (Nat.le_trans range htop)]
          · dsimp only
            rw [late?_signals v hsome, Checkpoint.attemptAll_signals h, hcursor]
            by_cases hlate : options.time.any (· < v.time) <;> simp [hlate]

/-! ### The next watched transaction -/

section First

variable {last : Nat} {d : Checkpoint} {m : Cursor} {passed : List Visit} {v : Visit}

/-- From a place on, the transaction that the document's beacons watch first, and those before
it. -/
structure First (source : Source) (last : Nat) (d : Checkpoint) (m : Cursor) (passed : List Visit)
    (v : Visit) : Prop where
  visits : source.ledger.visitsFrom m last = passed ++ v :: source.ledger.visitsFrom v.next last
  unwatched : ∀ u ∈ passed,
    u.watched source.ledger (Registry.ofDocument d.document source.network) = []
  watched : v.watched source.ledger (Registry.ofDocument d.document source.network) ≠ []

/-- The checkpoint behind a transaction whose signals have been tried. -/
def behind (source : Source) (options : ResolutionOptions) (d : Checkpoint) (v : Visit) :
    Checkpoint :=
  { Replay.considerAll options source.index v d
      (v.watched source.ledger (Registry.ofDocument d.document source.network))
    with cursor := v.next }

/-- Without bounds, what is signalled behind a watched transaction comes after its own signals. -/
theorem signals_behind (h : d.isDone {} = false) {beacons : List Beacon}
    (hwatched : v.watched source.ledger (Registry.ofDocument d.document source.network) = beacons)
    (hsome : beacons ≠ []) (rest : List Visit) :
    Replay.signals source {} d (v :: rest) =
      beacons.map v.signal :: Replay.signals source {} (behind source {} d v) rest := by
  subst hwatched
  exact Replay.signals_watched h hsome

/-- A list of the unwatched ends before the first that is watched. -/
theorem exists_between {P : Visit → Prop} {before rest more : List Visit}
    (h : before ++ rest = passed ++ v :: more) (unwatched : ∀ u ∈ before, P u) (watched : ¬ P v) :
    ∃ between, passed = before ++ between ∧ rest = between ++ v :: more := by
  rcases List.append_eq_append_iff.1 h with hlater | ⟨between, rfl, hmore⟩
  · exact hlater
  · cases between with
    | nil => exact ⟨[], by simp, hmore.symm⟩
    | cons w between =>
        obtain ⟨rfl, -⟩ := List.cons.inj hmore
        exact absurd (unwatched v (by simp)) watched

theorem First.unique {passed' : List Visit} {v' : Visit} (first : First source last d m passed v)
    (first' : First source last d m passed' v') : v = v' := by
  obtain ⟨between, rfl, h⟩ := exists_between (first.visits.symm.trans first'.visits)
    first.unwatched first'.watched
  cases between with
  | nil => exact (List.cons.inj h).1
  | cons w between =>
      obtain ⟨rfl, -⟩ := List.cons.inj h
      exact absurd (first'.unwatched v (by simp)) first.watched

theorem First.mem (first : First source last d m passed v) :
    v ∈ source.ledger.visitsFrom m last := by
  rw [first.visits]
  exact List.mem_append_right _ List.mem_cons_self

/-- A turn comes to the first transaction that is watched. It ends before it, or goes on behind
it. -/
theorem First.traverse_eq (faultless : source.ledger.Faultless tip) (hlast : s.last ≤ tip)
    (aligned : s.Aligned source.ledger) (h : d.isDone options = false)
    (hcancelled : options.cancelled ⟨polls, s.asked⟩ = false)
    (first : First source s.last d s.cursor passed v) :
    ∃ t : Scanner, t.Aligned source.ledger ∧ t.last = s.last ∧ t.cursor = v.next ∧
      traverse source options polls d s =
        if options.time.any (· < v.time) then
          .ok (ending options .targetReached { d with cursor := v.cursor })
        else traverse source options (polls + 1) (behind source options d v) t := by
  rcases traverse_turn faultless hlast aligned h hcancelled with ⟨hall, -⟩ |
    ⟨passed', v', t, -, -, hvisits, hpassed, hwatched, taligned, tlast, tcursor, heq⟩
  · exact absurd (hall v first.mem) first.watched
  · have hrest := hvisits s.last (Nat.le_refl _)
    rw [tcursor] at hrest
    obtain rfl := First.unique ⟨hrest, hpassed, hwatched⟩ first
    exact ⟨t, taligned, tlast, tcursor, heq⟩

end First

/-- Without cancellation the engine ends where the replay of what is left ends. -/
theorem traverse_eq_replay (faultless : source.ledger.Faultless tip) (hlast : s.last ≤ tip)
    (aligned : s.Aligned source.ledger) (hcursor : c.cursor = s.cursor)
    (never : ∀ progress, options.cancelled progress = false) :
    traverse source options polls c s =
      .ok (Replay.finish options (Replay.run source options s.last c
        (source.ledger.visitsFrom s.cursor s.last))) := by
  induction hn : (source.ledger.visitsFrom s.cursor s.last).length using Nat.strongRecOn
    generalizing polls c s with
  | ind n ih =>
      cases h : c.isDone options with
      | true =>
          rw [Replay.run_of_isDone h]
          exact traverse_of_isDone h
      | false =>
          obtain ⟨hreached, hdeactivated⟩ := Checkpoint.isDone_eq_false h
          rcases traverse_turn faultless hlast aligned h (never ⟨polls, s.asked⟩) with ⟨hall, heq⟩ |
            ⟨passed, v, t, on, range, hvisits, hall, hsome, taligned, tlast, tcursor, heq⟩
          · rw [heq, ← List.append_nil (source.ledger.visitsFrom s.cursor s.last),
              Replay.run_passed h hall, Replay.run_nil h, hcursor]
            simp [Replay.finish, hdeactivated]
          · have hrest := hvisits s.last (Nat.le_refl _)
            rw [heq, hrest, Replay.run_passed h hall, Replay.run_watched h hsome]
            split
            · simp [Replay.finish, hdeactivated]
            · have hshorter : (source.ledger.visitsFrom t.cursor t.last).length < n := by
                rw [tlast, ← hn, hrest]
                simp only [List.length_append, List.length_cons]
                omega
              rw [ih _ hshorter (tlast ▸ hlast) taligned tcursor.symm rfl, tlast]

end Resolution

namespace Resolver

variable {r : Resolver} {did : String} {sidecar : Sidecar} {options : ResolutionOptions} {tip : Nat}

theorem checkOptions_of_ne (h : options.version ≠ some 0) : checkOptions options = .ok () :=
  if_neg h

theorem identify_decode {i : Identifier} (h : identify did = .ok i) :
    Identifier.decode did = .ok i := by
  rw [identify] at h
  split at h
  · cases h
  · next hdecode =>
    split at h
    · cases h
      exact hdecode
    · cases h

/-- Nothing has begun yet that could be cancelled. -/
theorem identify_ne_cancelled {e : ResolveError} (h : identify did = .error e) (c : Checkpoint) :
    e ≠ .cancelled c := by
  rintro rfl
  rw [identify] at h
  repeat' split at h
  all_goals cases h

theorem continueFrom_eq (faultless : r.ledger.Faultless tip) (c : Checkpoint) (network : Network) :
    r.continueFrom c network sidecar options =
      Resolution.traverse ⟨r.ledger, network, sidecar.index⟩ options 0 c
        (Scanner.resume c.cursor ((options.height.map (min · tip)).getD tip) r.config.window) := by
  rw [continueFrom, faultless.tip_eq]

/-- A range ends with the chain at the latest. -/
theorem last_le (options : ResolutionOptions) (tip : Nat) :
    (options.height.map (min · tip)).getD tip ≤ tip := by
  cases options.height with
  | none => exact Nat.le_refl _
  | some height => exact Nat.min_le_right height tip

theorem resolve_eq_continueFrom {i : Identifier} {genesis : Document}
    (hversion : options.version ≠ some 0) (hi : identify did = .ok i)
    (hgenesis : Genesis.document i sidecar.genesisDocument = .ok genesis) :
    r.resolve did sidecar options =
      r.continueFrom
        (.genesis did genesis (sidecar.genesisHeight.getD r.config.genesisHeight))
        i.network sidecar options := by
  simp only [resolve, checkOptions_of_ne hversion, hi, hgenesis, bind, Except.bind]

/-- A resolution is refused at once or goes on from a genesis document. -/
theorem resolve_cases (r : Resolver) (did : String) (sidecar : Sidecar)
    (options : ResolutionOptions) :
    (∃ e, r.resolve did sidecar options = .error e ∧ ∀ c, e ≠ .cancelled c) ∨
    ∃ i genesis, options.version ≠ some 0 ∧ identify did = .ok i ∧
      Genesis.document i sidecar.genesisDocument = .ok genesis ∧
      r.resolve did sidecar options =
        r.continueFrom
          (.genesis did genesis (sidecar.genesisHeight.getD r.config.genesisHeight))
          i.network sidecar options := by
  by_cases hversion : options.version = some 0
  · refine .inl ⟨.versionZero, ?_, by simp⟩
    simp [resolve, checkOptions, hversion, bind, Except.bind]
  · cases hi : identify did with
    | error e =>
        refine .inl ⟨e, by simp [resolve, checkOptions_of_ne hversion, hi, bind, Except.bind], ?_⟩
        exact identify_ne_cancelled hi
    | ok i =>
        cases hgenesis : Genesis.document i sidecar.genesisDocument with
        | error e =>
            refine .inl ⟨.ofFailure e, ?_, fun c => by cases e <;> simp [ResolveError.ofFailure]⟩
            simp [resolve, checkOptions_of_ne hversion, hi, hgenesis, bind, Except.bind]
        | ok genesis =>
            exact .inr ⟨i, genesis, hversion, rfl, hgenesis,
              resolve_eq_continueFrom hversion hi hgenesis⟩

theorem resume_eq_continueFrom {c : Checkpoint} {i : Identifier}
    (hversion : options.version ≠ some 0) (hi : identify c.did = .ok i) :
    r.resume c sidecar options = r.continueFrom c i.network sidecar options := by
  simp only [resume, checkOptions_of_ne hversion, hi, bind, Except.bind]

/-- Without cancellation, going on from any checkpoint is replaying what is left. -/
theorem continueFrom_eq_replay (faultless : r.ledger.Faultless tip)
    (never : ∀ progress, options.cancelled progress = false) (c : Checkpoint) (network : Network) :
    r.continueFrom c network sidecar options =
      .ok (Replay.finish options
        (Replay.run ⟨r.ledger, network, sidecar.index⟩ options
          ((options.height.map (min · tip)).getD tip) c
          (r.ledger.visitsFrom c.cursor ((options.height.map (min · tip)).getD tip)))) := by
  rw [continueFrom_eq faultless]
  exact Resolution.traverse_eq_replay faultless (last_le options tip)
    (Scanner.aligned_resume r.ledger c.cursor _ _) rfl never

/-- A known identifier, for trying what holds of all of them. -/
def sample : String := "did:btcr2:k1qgpkyr20hr2ugzcdctulmprrdkz5slj3an64l0x4encgc6kpfz7g5ds4tgr4f"

def sampleIdentifier : Identifier := ⟨.key, 1, .regtest, KnownIdentifier.key⟩

theorem identify_sample : identify sample = .ok sampleIdentifier :=
  eq_ok_of_toOption (by decide +kernel)

theorem genesis_sample : ∃ genesis, Genesis.document sampleIdentifier none = .ok genesis := by
  have hsome : (Genesis.document sampleIdentifier none).toOption.isSome := by decide +kernel
  cases h : Genesis.document sampleIdentifier none with
  | error e => simp [h, Except.toOption] at hsome
  | ok genesis => exact ⟨genesis, rfl⟩

theorem resolve_eq_history {chain : Chain} (mined : chain.Mined) (config : ResolverConfig)
    {i : Identifier} {genesis : Document} (hversion : options.version ≠ some 0)
    (hi : identify did = .ok i)
    (hgenesis : Genesis.document i sidecar.genesisDocument = .ok genesis)
    (never : ∀ progress, options.cancelled progress = false) :
    Resolver.resolve ⟨chain.ledger, config⟩ did sidecar options =
      .ok (Replay.history ⟨chain.ledger, i.network, sidecar.index⟩ options did genesis
        (sidecar.genesisHeight.getD config.genesisHeight) chain.tip) := by
  rw [resolve_eq_continueFrom hversion hi hgenesis, continueFrom_eq_replay mined.faultless never,
    Checkpoint.genesis, Ledger.visitsFrom_start]
  rfl

end Resolver

end AnchoredDid
