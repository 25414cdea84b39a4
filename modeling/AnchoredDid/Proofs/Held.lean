import AnchoredDid.Proofs.Checkpoint

/-!
# The checkpoints that a run holds

`Resolution.Holds` lists what a run has at hand on its way: the checkpoint it starts from, those
between the signals of a transaction, and those of its further turns. They are stages of one
history: of two of them, one is the other or came from it by further updates
(`Resolution.Holds.comparable`), so a run holds one document for each version
(`Resolution.Holds.document_eq`), and what it hands back came from all of them.
-/

namespace AnchoredDid

/-! ## Attempts -/

namespace Checkpoint

variable {index : SidecarIndex} {options : ResolutionOptions} {c d e : Checkpoint}
variable {signal : Signal} {signals : List Signal}

/-- A signal that changes the document announces an update, which is applied from its block. -/
theorem attempt_of_changed (h : c.attempt index signal = (d, true)) :
    ∃ u document, signal.decode index c.did = some u ∧
      d = { c with
        document := document
        version := c.version + 1
        applied := c.applied ++ [u.hash]
        blockHeight := signal.height
        blockTime := some signal.time } := by
  rw [attempt] at h
  cases hdecode : signal.decode index c.did with
  | none => simp [hdecode] at h
  | some u =>
      simp only [hdecode] at h
      split at h
      · cases h
      · split at h
        · cases h
        · next applied happly =>
          obtain ⟨-, -, -, -, -, hnext⟩ := Update.advance_eq_ok_iff.1 happly
          cases h
          exact ⟨u, applied.document, rfl, by rw [hnext]⟩

/-- One that does not is counted at most. -/
theorem attempt_of_unchanged (h : c.attempt index signal = (d, false)) :
    ∃ rejectedCount, d = { c with rejectedCount := rejectedCount } := by
  rw [attempt] at h
  cases hdecode : signal.decode index c.did with
  | none =>
      simp only [hdecode] at h
      cases h
      exact ⟨_, rfl⟩
  | some u =>
      simp only [hdecode] at h
      split at h
      · cases h
        exact ⟨_, rfl⟩
      · split at h <;> cases h
        exact ⟨_, rfl⟩

theorem attemptAll_cons_of_changed (h : c.attempt index signal = (d, true)) :
    c.attemptAll options index (signal :: signals) =
      if options.reached d.version || d.document.isDeactivated then d
      else d.attemptAll options index signals := by
  rw [attemptAll, h]

theorem attemptAll_cons_of_unchanged (h : c.attempt index signal = (d, false)) :
    c.attemptAll options index (signal :: signals) = d.attemptAll options index signals := by
  rw [attemptAll, h]

/-! ## Growth -/

/-- A later stage of the same history: further updates, each with a version of its own, and the same
document if there are none. -/
structure Grows (c d : Checkpoint) : Prop where
  did : d.did = c.did
  applied : c.applied <+: d.applied
  version : d.version + c.applied.length = c.version + d.applied.length
  document : d.applied = c.applied → d.document = c.document

theorem Grows.refl (c : Checkpoint) : c.Grows c :=
  ⟨rfl, List.prefix_refl _, rfl, fun _ => rfl⟩

theorem Grows.trans (h : c.Grows d) (h' : d.Grows e) : c.Grows e where
  did := h'.did.trans h.did
  applied := h.applied.trans h'.applied
  version := by
    have := h.version
    have := h'.version
    omega
  document heq := by
    have hmiddle : d.applied = c.applied :=
      (h.applied.eq_of_length_le (heq ▸ h'.applied.length_le)).symm
    exact (h'.document (heq.trans hmiddle.symm)).trans (h.document hmiddle)

/-- At the same version nothing was applied in between. -/
theorem Grows.document_eq (h : c.Grows d) (hversion : d.version = c.version) :
    d.document = c.document := by
  have hlength : c.applied.length = d.applied.length := by
    have := h.version
    omega
  exact h.document (h.applied.eq_of_length hlength).symm

/-- Where the cursor is does not matter. -/
theorem Grows.moved (h : c.Grows d) (cursor : Cursor) : c.Grows { d with cursor := cursor } :=
  ⟨h.did, h.applied, h.version, h.document⟩

theorem grows_attempt (h : (c.attempt index signal).1 = d) : c.Grows d := by
  cases hattempt : c.attempt index signal with
  | mk e changed =>
      obtain rfl : e = d := by rw [← h, hattempt]
      cases changed with
      | true =>
          obtain ⟨u, document, -, rfl⟩ := attempt_of_changed hattempt
          refine ⟨rfl, List.prefix_append _ _, ?_, fun hsame => ?_⟩
          · show c.version + 1 + c.applied.length = c.version + (c.applied ++ [u.hash]).length
            rw [List.length_append, List.length_singleton]
            omega
          · simp at hsame
      | false =>
          obtain ⟨rejectedCount, rfl⟩ := attempt_of_unchanged hattempt
          exact ⟨rfl, List.prefix_refl _, rfl, fun _ => rfl⟩

theorem grows_attemptAll (options : ResolutionOptions) (index : SidecarIndex) (c : Checkpoint)
    (signals : List Signal) : c.Grows (c.attemptAll options index signals) := by
  fun_induction attemptAll options index c signals with
  | case1 c => exact .refl c
  | case2 c signal rest d hattempt hdone => exact grows_attempt (by rw [hattempt])
  | case3 c signal rest d hattempt hgoing ih => exact (grows_attempt (by rw [hattempt])).trans ih
  | case4 c signal rest d hattempt ih => exact (grows_attempt (by rw [hattempt])).trans ih

/-- More signals lead on from where the first of them led. -/
theorem grows_attemptAll_append (options : ResolutionOptions) (index : SidecarIndex)
    (c : Checkpoint) (signals more : List Signal) :
    (c.attemptAll options index signals).Grows (c.attemptAll options index (signals ++ more)) := by
  fun_induction attemptAll options index c signals with
  | case1 c => exact grows_attemptAll options index c more
  | case2 c signal rest d hattempt hdone =>
      rw [List.cons_append, attemptAll_cons_of_changed hattempt, if_pos hdone]
      exact .refl d
  | case3 c signal rest d hattempt hgoing ih =>
      rw [List.cons_append, attemptAll_cons_of_changed hattempt, if_neg hgoing]
      exact ih
  | case4 c signal rest d hattempt ih =>
      rw [List.cons_append, attemptAll_cons_of_unchanged hattempt]
      exact ih

end Checkpoint

/-! ## Turns -/

namespace Resolution

variable {source : Source} {options : ResolutionOptions} {polls : Nat} {c d e : Checkpoint}
variable {s t : Scanner} {signals : List Signal}

/-- The checkpoint after a turn in which these signals were tried. -/
def turned (source : Source) (options : ResolutionOptions) (c : Checkpoint) (signals : List Signal)
    (t : Scanner) : Checkpoint :=
  { c.attemptAll options source.index signals with cursor := t.cursor }

/-- In this turn the run neither ends nor is cancelled, but finds signals to try. -/
structure Turn (source : Source) (options : ResolutionOptions) (polls : Nat) (c : Checkpoint)
    (s : Scanner) (signals : List Signal) (t : Scanner) : Prop where
  going : c.isDone options = false
  running : options.cancelled ⟨polls, s.asked⟩ = false
  found : s.next source.ledger (Registry.ofDocument c.document source.network) = (.found signals, t)
  timely : late? options signals = none

theorem Turn.of_going (hreached : ¬options.reached c.version = true)
    (hdeactivated : ¬c.document.isDeactivated = true)
    (hcancelled : ¬options.cancelled ⟨polls, s.asked⟩ = true)
    (hnext : s.next source.ledger (Registry.ofDocument c.document source.network) =
      (.found signals, t))
    (hlate : late? options signals = none) : Turn source options polls c s signals t where
  going := by simp [Checkpoint.isDone, hreached, hdeactivated]
  running := Bool.eq_false_iff.2 hcancelled
  found := hnext
  timely := hlate

theorem Turn.traverse_eq (turn : Turn source options polls c s signals t) :
    traverse source options polls c s =
      traverse source options (polls + 1) (turned source options c signals t) t := by
  rw [traverse_next turn.going turn.running, turn.found]
  simp only [turn.timely, turned]

theorem Turn.unique {signals' : List Signal} {t' : Scanner}
    (turn : Turn source options polls c s signals t)
    (turn' : Turn source options polls c s signals' t') : signals = signals' ∧ t = t' := by
  have hsame := turn.found.symm.trans turn'.found
  simp only [Prod.mk.injEq, Scanner.Outcome.found.injEq] at hsame
  exact hsame

/-- The checkpoints that a run holds on its way. -/
inductive Holds (source : Source) (options : ResolutionOptions) :
    Nat → Checkpoint → Scanner → Checkpoint → Prop
  | now {polls : Nat} {c : Checkpoint} {s : Scanner} : Holds source options polls c s c
  /-- After the first signals of a turn. -/
  | trying {polls : Nat} {c : Checkpoint} {s t : Scanner} {signals tried : List Signal}
      (turn : Turn source options polls c s signals t) (front : tried <+: signals) :
      Holds source options polls c s (c.attemptAll options source.index tried)
  | later {polls : Nat} {c d : Checkpoint} {s t : Scanner} {signals : List Signal}
      (turn : Turn source options polls c s signals t)
      (rest : Holds source options (polls + 1) (turned source options c signals t) t d) :
      Holds source options polls c s d

/-- What a run hands back has grown from what it started from. -/
theorem grows_of_handedBack (h : handedBack? (traverse source options polls c s) = some d) :
    c.Grows d := by
  fun_induction traverse source options polls c s with
  | case1 | case2 | case3 =>
      cases h
      exact .refl _
  | case4 => cases h
  | case5 | case6 =>
      cases h
      exact (Checkpoint.Grows.refl _).moved _
  | case7 polls c s hreached hdeactivated hcancelled signals t hnext hlate attempted ih =>
      exact ((Checkpoint.grows_attemptAll options source.index c signals).moved t.cursor).trans
        (ih h)

namespace Holds

theorem grows (h : Holds source options polls c s d) : c.Grows d := by
  induction h with
  | now => exact .refl _
  | trying turn front => exact Checkpoint.grows_attemptAll _ _ _ _
  | later turn rest ih =>
      exact ((Checkpoint.grows_attemptAll _ _ _ _).moved _).trans ih

/-- A prefix of the signals of a turn leads to a stage before the end of the turn. -/
theorem grows_turned {tried : List Signal} (front : tried <+: signals) :
    (c.attemptAll options source.index tried).Grows (turned source options c signals t) := by
  obtain ⟨more, rfl⟩ := front
  exact (Checkpoint.grows_attemptAll_append options source.index c tried more).moved t.cursor

/-- What a run hands back has grown from everything that it held. -/
theorem grows_handedBack (h : Holds source options polls c s d)
    (handed : handedBack? (traverse source options polls c s) = some e) : d.Grows e := by
  induction h with
  | now => exact grows_of_handedBack handed
  | trying turn front =>
      rw [turn.traverse_eq] at handed
      exact (grows_turned front).trans (grows_of_handedBack handed)
  | later turn rest ih =>
      rw [turn.traverse_eq] at handed
      exact ih handed

/-- Of two checkpoints that a run held, one has grown from the other. -/
theorem comparable (h : Holds source options polls c s d) (h' : Holds source options polls c s e) :
    d.Grows e ∨ e.Grows d := by
  induction h generalizing e with
  | now => exact .inl h'.grows
  | @trying polls c s t signals tried turn front =>
      cases h' with
      | now => exact .inr (Checkpoint.grows_attemptAll _ _ _ _)
      | trying turn' front' =>
          obtain ⟨rfl, rfl⟩ := turn.unique turn'
          rcases List.prefix_or_prefix_of_prefix front front' with ⟨more, rfl⟩ | ⟨more, rfl⟩
          · exact .inl (Checkpoint.grows_attemptAll_append _ _ _ _ _)
          · exact .inr (Checkpoint.grows_attemptAll_append _ _ _ _ _)
      | later turn' rest' =>
          obtain ⟨rfl, rfl⟩ := turn.unique turn'
          exact .inl ((grows_turned front).trans rest'.grows)
  | later turn rest ih =>
      cases h' with
      | now =>
          exact .inr (((Checkpoint.grows_attemptAll _ _ _ _).moved _).trans rest.grows)
      | trying turn' front' =>
          obtain ⟨rfl, rfl⟩ := turn.unique turn'
          exact .inr ((grows_turned front').trans rest.grows)
      | later turn' rest' =>
          obtain ⟨rfl, rfl⟩ := turn.unique turn'
          exact ih rest'

/-- A run holds one document for each version. -/
theorem document_eq (h : Holds source options polls c s d) (h' : Holds source options polls c s e)
    (hversion : d.version = e.version) : d.document = e.document := by
  rcases h.comparable h' with hgrows | hgrows
  · exact (hgrows.document_eq hversion.symm).symm
  · exact hgrows.document_eq hversion

end Holds

end Resolution

end AnchoredDid
