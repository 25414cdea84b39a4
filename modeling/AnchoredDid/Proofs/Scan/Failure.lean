import AnchoredDid.Proofs.Scan.Restart

/-!
# What a failed call loses

A call fails on a block that cannot be fetched or on a transaction that cannot be examined. Before
that it has passed whole transactions only (`Scanner.Clear`). A block leaves the cursor before what
has not been examined, so nothing is lost; but a transaction is already behind the cursor when its
examination fails. `Scanner.next_failed` says what the calls after a recovery come to: what they
would have come to without the failure, except for the signals of that one transaction, if it has
any.
-/

namespace AnchoredDid

/-- The transaction was examined and matches no beacon. An empty registry needs no examination. -/
def Visit.Passed (l : Ledger) (registry : Registry) (v : Visit) : Prop :=
  registry = [] ∨ ∃ scripts, Scan.spentScripts l v.transaction.inputs = .ok scripts ∧
    ∀ b ∈ registry, b.script ∉ scripts

/-- The second ledger is the first one after it has recovered: it gives the same answers wherever
the first did not fail, and nothing that a scan up to a height asks for fails. -/
structure Ledger.Recovers (l l' : Ledger) (last : Nat) : Prop where
  block_eq : ∀ height block, l.block height = .ok block → l'.block height = .ok block
  transaction_eq : ∀ txid, Answered (l.transaction txid) → l'.transaction txid = l.transaction txid
  covers : l'.Covers last

/-- A ledger on which questions fail recovers when they do not any more. -/
theorem Ledger.Covers.recovers_failing {l : Ledger} {last : Nat} (h : l.Covers last) (f : Faults) :
    (l.failing f).Recovers l last where
  block_eq height block fetched := by
    simp only [failing] at fetched
    split at fetched
    · cases fetched
    · exact fetched
  transaction_eq txid answered := by
    simp only [failing] at answered ⊢
    split at answered
    · obtain ⟨unknown, hunknown⟩ := answered _ rfl
      cases hunknown
    · next hok => rw [if_neg hok]
  covers := h

namespace Scan

variable {l l' : Ledger} {last : Nat} {registry : Registry} {block : Block} {index : Nat}
variable {tx : Transaction} {signals : List Signal} {e : LedgerError}

/-- About inputs that were examined all questions were answered. -/
theorem answered_of_spentScripts {inputs : List TxInput} {scripts : List Bytes}
    (h : spentScripts l inputs = .ok scripts) :
    ∀ input ∈ inputs, Ledger.Answered (l.scriptAt input.outpoint) := by
  induction inputs generalizing scripts with
  | nil => nofun
  | cons input rest ih =>
      have hrest : ∃ scripts', spentScripts l rest = .ok scripts' := by
        rw [spentScripts] at h
        cases hspent : spentScripts l rest with
        | ok scripts' => exact ⟨scripts', rfl⟩
        | error e =>
            rw [hspent] at h
            split at h <;> cases h
      obtain ⟨scripts', hspent⟩ := hrest
      refine List.forall_mem_cons.2 ⟨fun e he => ?_, ih hspent⟩
      rw [spentScripts, he] at h
      cases e with
      | transactionNotFound unknown => exact ⟨unknown, rfl⟩
      | blockNotFound | backend => cases h

theorem scriptAt_recovered (h : l.Recovers l' last) {o : OutPoint}
    (answered : Ledger.Answered (l.scriptAt o)) : l'.scriptAt o = l.scriptAt o := by
  cases hnull : o.isNull with
  | true => simp [Ledger.scriptAt, hnull]
  | false =>
      have hsame :=
        h.transaction_eq o.txid fun e he => answered e (by simp [Ledger.scriptAt, hnull, he])
      simp only [Ledger.scriptAt, hsame]

theorem spentScripts_recovered (h : l.Recovers l' last) {inputs : List TxInput}
    {scripts : List Bytes} (examined : spentScripts l inputs = .ok scripts) :
    spentScripts l' inputs = .ok scripts := by
  rw [← examined]
  exact spentScripts_congr fun input hinput =>
    scriptAt_recovered h (answered_of_spentScripts examined input hinput)

theorem exists_of_signalsOf_nil (h : signalsOf l registry block index tx = .ok []) :
    ∃ scripts, spentScripts l tx.inputs = .ok scripts ∧ ∀ b ∈ registry, b.script ∉ scripts := by
  obtain ⟨scripts, hspent, hnone⟩ := signalsOf_eq_ok_iff.1 h
  refine ⟨scripts, hspent, fun b hb hspends => ?_⟩
  exact List.filter_eq_nil_iff.1 (List.map_eq_nil_iff.1 hnone.symm) b hb
    (List.contains_iff_mem.2 hspends)

/-- What was examined is examined again with the same signals. -/
theorem signalsOf_recovered (h : l.Recovers l' last)
    (examined : signalsOf l registry block index tx = .ok signals) :
    signalsOf l' registry block index tx = .ok signals := by
  obtain ⟨scripts, hspent, hsignals⟩ := signalsOf_eq_ok_iff.1 examined
  exact signalsOf_eq_ok_iff.2 ⟨scripts, spentScripts_recovered h hspent, hsignals⟩

end Scan

namespace Scanner

variable {l l' : Ledger} {registry : Registry} {last : Nat} {c d m : Cursor} {o : Outcome}
variable {e : LedgerError} {s t : Scanner}

/-- Up to a cursor nothing was overlooked: all blocks before it were fetched, and all transactions
before it were passed. -/
structure Clear (l : Ledger) (registry : Registry) (c m : Cursor) : Prop where
  forward : ¬ m.Before c
  fetched : ∀ height, c.height ≤ height → height < m.height → ∃ block, l.block height = .ok block
  passed : ∀ v : Visit, v.On l → ¬ v.cursor.Before c → v.cursor.Before m → v.Passed l registry

/-- A way on which transactions are passed one by one. -/
inductive Passes (l : Ledger) (registry : Registry) (last : Nat) : Cursor → Cursor → Prop
  | refl (c : Cursor) : Passes l registry last c c
  | pass {height index : Nat} {block : Block} {tx : Transaction} {m : Cursor}
      (range : height ≤ last) (fetched : l.block height = .ok block)
      (here : block.transactions[index]? = some tx)
      (examined : registry = [] ∨ Scan.signalsOf l registry block index tx = .ok [])
      (rest : Passes l registry last ⟨height, index + 1⟩ m) :
      Passes l registry last ⟨height, index⟩ m
  | leave {height index : Nat} {block : Block} {m : Cursor}
      (range : height ≤ last) (fetched : l.block height = .ok block)
      (ended : block.transactions.length ≤ index)
      (rest : Passes l registry last ⟨height + 1, 0⟩ m) :
      Passes l registry last ⟨height, index⟩ m

/-- Where a search failed, and where it left the cursor. -/
inductive Stops (l : Ledger) (registry : Registry) (last : Nat) (e : LedgerError) :
    Cursor → Cursor → Prop
  | unfetched {m : Cursor} {height : Nat} (first : m.height ≤ height) (range : height ≤ last)
      (fetched : l.block height = .error e) : Stops l registry last e m m
  | unexamined {height index : Nat} {block : Block} {tx : Transaction}
      (range : height ≤ last) (fetched : l.block height = .ok block)
      (here : block.transactions[index]? = some tx)
      (examined : Scan.signalsOf l registry block index tx = .error e) :
      Stops l registry last e ⟨height, index⟩ ⟨height, index + 1⟩

/-- A walk that fails has passed whole transactions before. -/
theorem Walk.stops (walk : Walk l registry last c (.failed e) d) :
    ∃ m, Passes l registry last c m ∧ Stops l registry last e m d := by
  generalize ho : Outcome.failed e = o at walk
  induction walk with
  | finished | found => cases ho
  | unexamined range fetched here examined =>
      cases ho
      exact ⟨_, .refl _, .unexamined range fetched here examined⟩
  | unfetched first range fetched =>
      cases ho
      exact ⟨_, .refl _, .unfetched first range fetched⟩
  | pass range fetched here examined _ ih =>
      obtain ⟨m, passes, stops⟩ := ih ho
      exact ⟨m, .pass range fetched here examined passes, stops⟩
  | leave range fetched ended _ ih =>
      obtain ⟨m, passes, stops⟩ := ih ho
      exact ⟨m, .leave range fetched ended passes, stops⟩

/-- From where a way leads to, a walk may go on. -/
theorem Passes.walk (passes : Passes l registry last c m) (walk : Walk l registry last m o d) :
    Walk l registry last c o d := by
  induction passes with
  | refl => exact walk
  | pass range fetched here examined _ ih => exact .pass range fetched here examined (ih walk)
  | leave range fetched ended _ ih => exact .leave range fetched ended (ih walk)

theorem Passes.trans (passes : Passes l registry last c m) (further : Passes l registry last m d) :
    Passes l registry last c d := by
  induction passes with
  | refl => exact further
  | pass range fetched here examined _ ih => exact .pass range fetched here examined (ih further)
  | leave range fetched ended _ ih => exact .leave range fetched ended (ih further)

/-- After a recovery the way is the same. -/
theorem Passes.recovered (passes : Passes l registry last c m) (h : l.Recovers l' last) :
    Passes l' registry last c m := by
  induction passes with
  | refl => exact .refl _
  | pass range fetched here examined _ ih =>
      exact .pass range (h.block_eq _ _ fetched) here
        (examined.imp_right (Scan.signalsOf_recovered h)) ih
  | leave range fetched ended _ ih => exact .leave range (h.block_eq _ _ fetched) ended ih

theorem Passes.clear (passes : Passes l registry last c m) : Clear l registry c m := by
  induction passes with
  | refl c =>
      exact ⟨Cursor.not_before_self c, fun height _ _ => by omega,
        fun v _ hfrom hto => absurd hto hfrom⟩
  | @pass height index block tx m range fetched here examined _ ih =>
      refine ⟨fun h => ih.forward ?_, ih.fetched, fun v on hfrom hto => ?_⟩
      · simp only [Cursor.Before] at h ⊢
        omega
      · by_cases hplace : v.cursor = ⟨height, index⟩
        · obtain ⟨hheight, hindex⟩ := Cursor.mk.inj hplace
          obtain ⟨block', fetched', -, here'⟩ := on
          rw [hheight] at fetched'
          obtain rfl := Except.ok.inj (fetched.symm.trans fetched')
          rw [hindex] at here'
          obtain rfl := Option.some.inj (here.symm.trans here')
          exact examined.imp_right fun examined => Scan.exists_of_signalsOf_nil examined
        · refine ih.passed v on (fun h => ?_) hto
          simp only [Cursor.Before, Visit.cursor, Cursor.mk.injEq] at hplace hfrom h
          omega
  | @leave height index block m range fetched ended _ ih =>
      refine ⟨fun h => ih.forward ?_, fun k hk hlt => ?_, fun v on hfrom hto => ?_⟩
      · simp only [Cursor.Before] at h ⊢
        omega
      · rcases Nat.eq_or_lt_of_le hk with rfl | hnext
        · exact ⟨block, fetched⟩
        · exact ih.fetched k hnext hlt
      · refine ih.passed v on (fun h => ?_) hto
        simp only [Cursor.Before, Visit.cursor] at hfrom h
        -- behind the last transaction of the block there is no other one
        obtain ⟨block', fetched', -, here'⟩ := on
        have hheight : v.height = height := by omega
        rw [hheight] at fetched'
        obtain rfl := Except.ok.inj (fetched.symm.trans fetched')
        rw [List.getElem?_eq_none (by omega)] at here'
        cases here'

/-! ## After the recovery -/

/-- As if the failed call had not been made: another one for the same registry, on the scanner as it
is now or on one taken up from its cursor, and all later calls come to what they would have come
to. -/
def Harmless (l : Ledger) (registry : Registry) (s t : Scanner) : Prop :=
  ∀ window calls, results l (⟨registry, window⟩ :: calls) t =
    results l (⟨registry, none⟩ :: calls) s

/-- The failed call stands for one that would have found these signals: the next call is the one
after that. -/
def Loses (l : Ledger) (registry : Registry) (signals : List Signal) (s t : Scanner) : Prop :=
  ∀ window calls, results l (⟨registry, window⟩ :: calls) s =
    (.found signals, t.cursor) :: results l calls t

theorem Aligned.recovered (aligned : s.Aligned l) (h : l.Recovers l' last) : s.Aligned l' :=
  fun k block hk => h.block_eq _ _ (aligned k block hk)

/-- A scanner that has only passed transactions comes to what it would have come to before. -/
theorem Passes.harmless (passes : Passes l registry s.last s.cursor t.cursor) (h : l.Covers s.last)
    (aligned : s.Aligned l) (aligned' : t.Aligned l) (hlast : t.last = s.last) :
    Harmless l registry s t := by
  intro window calls
  obtain ⟨walk, -⟩ := next_walk registry aligned'
  obtain ⟨u, ualigned, ucursor, ulast, hu⟩ :=
    results_cons_of_walk (hlast ▸ h) aligned' ⟨registry, window⟩ calls walk
  obtain ⟨u', ualigned', ucursor', ulast', hu'⟩ :=
    results_cons_of_walk h aligned ⟨registry, none⟩ calls (passes.walk (hlast ▸ walk))
  rw [hu, hu', results_congr (s := u') (u := u) (ulast' ▸ h) ualigned' ualigned
    (ucursor.trans ucursor'.symm) (by rw [ulast, ulast', hlast])]

/-- A scanner that stands behind the first transaction with signals has lost these. -/
theorem Passes.loses {height index : Nat} {block : Block} {tx : Transaction} {signals : List Signal}
    (passes : Passes l registry s.last s.cursor ⟨height, index⟩) (h : l.Covers s.last)
    (aligned : s.Aligned l) (aligned' : t.Aligned l) (hlast : t.last = s.last)
    (hcursor : t.cursor = ⟨height, index + 1⟩) (range : height ≤ s.last)
    (fetched : l.block height = .ok block) (here : block.transactions[index]? = some tx)
    (examined : Scan.signalsOf l registry block index tx = .ok signals) (some : signals ≠ []) :
    Loses l registry signals s t := by
  intro window calls
  obtain ⟨u, ualigned, ucursor, ulast, hu⟩ :=
    results_cons_of_walk h aligned ⟨registry, window⟩ calls
      (passes.walk (.found range fetched here examined some))
  rw [hu, hcursor, results_congr (s := u) (u := t) (ulast ▸ h) ualigned aligned'
    (hcursor.trans ucursor.symm) (hlast.trans ulast.symm)]

/-- A call came to a cursor and failed on a block there or ahead. -/
structure Unfetched (l : Ledger) (registry : Registry) (s : Scanner) (e : LedgerError) (m : Cursor)
    (t : Scanner) : Prop where
  exists_block : ∃ height, m.height ≤ height ∧ height ≤ s.last ∧ l.block height = .error e
  /-- The scanner stays where it came to. -/
  cursor_eq : t.cursor = m
  harmless : ∀ l', l.Recovers l' s.last → Harmless l' registry s t

/-- A call came to a cursor and failed on the transaction there. -/
structure Unexamined (l : Ledger) (registry : Registry) (s : Scanner) (e : LedgerError) (m : Cursor)
    (t : Scanner) (block : Block) (tx : Transaction) : Prop where
  range : m.height ≤ s.last
  fetched : l.block m.height = .ok block
  here : block.transactions[m.index]? = some tx
  failed : Scan.spentScripts l tx.inputs = .error e
  /-- The scanner is left behind the transaction. -/
  cursor_eq : t.cursor = ⟨m.height, m.index + 1⟩
  examined : ∀ l', l.Recovers l' s.last →
    ∃ signals, Scan.signalsOf l' registry block m.index tx = .ok signals
  harmless : ∀ l', l.Recovers l' s.last →
    Scan.signalsOf l' registry block m.index tx = .ok [] → Harmless l' registry s t
  loses : ∀ l', l.Recovers l' s.last → ∀ signals, signals ≠ [] →
    Scan.signalsOf l' registry block m.index tx = .ok signals → Loses l' registry signals s t

/-- A failed call has passed whole transactions only, up to a block that cannot be fetched or to a
transaction that cannot be examined. After a block nothing is lost once the ledger has recovered. Of
a transaction the signals are lost if it has any, and nothing else. -/
theorem next_failed (aligned : s.Aligned l) (failed : s.next l registry = (.failed e, t)) :
    ∃ m, Clear l registry s.cursor m ∧
      (Unfetched l registry s e m t ∨ ∃ block tx, Unexamined l registry s e m t block tx) := by
  obtain ⟨walk, taligned, hlast⟩ := next_walk registry aligned
  rw [failed] at walk taligned hlast
  obtain ⟨m, passes, stops⟩ := walk.stops
  refine ⟨m, passes.clear, ?_⟩
  generalize hcursor : (Outcome.failed e, t).2.cursor = d at stops
  cases stops with
  | unfetched first range fetched =>
      refine .inl ⟨⟨_, first, range, fetched⟩, hcursor, fun l' h => ?_⟩
      exact Passes.harmless (hcursor ▸ passes.recovered h) h.covers (aligned.recovered h)
        (taligned.recovered h) hlast
  | @unexamined height index block tx range fetched here failed' =>
      have hpassed : ∀ l', l.Recovers l' s.last →
          Passes l' registry s.last s.cursor ⟨height, index⟩ := fun l' h => passes.recovered h
      refine .inr ⟨block, tx, range, fetched, here, Scan.signalsOf_eq_error_iff.1 failed', hcursor,
        fun l' h => ?_, fun l' h nothing => ?_, fun l' h signals some examined => ?_⟩
      · exact ⟨_, Scan.signalsOf_eq_ok_iff.2 ⟨_, h.covers.spentScripts_eq tx.inputs, rfl⟩⟩
      · have hbehind : Passes l' registry s.last s.cursor t.cursor := hcursor ▸ (hpassed l' h).trans
          (.pass range (h.block_eq _ _ fetched) here (.inr nothing) (.refl _))
        exact hbehind.harmless h.covers (aligned.recovered h) (taligned.recovered h) hlast
      · exact (hpassed l' h).loses h.covers (aligned.recovered h) (taligned.recovered h) hlast
          hcursor range (h.block_eq _ _ fetched) here examined some

end Scanner

namespace Scan.Sample

/-- The chain while the transaction that is spent from cannot be looked up. -/
def faulty : Ledger := chain.ledger.failing ⟨false, [], [funding.id]⟩

theorem recovers_faulty : faulty.Recovers chain.ledger 2 :=
  covers_chain.recovers_failing _

theorem spentScripts_faulty :
    spentScripts faulty spending.inputs = .error (.backend s!"tx {showTxid funding.id}") := by
  simp [spentScripts, spending, Ledger.scriptAt, not_isNull, faulty, Ledger.failing]

/-- The call fails with the cursor behind the transaction that it could not examine. -/
theorem next_faulty : ∃ t, (Scanner.start 2 2 1).next faulty [beacon] =
    (.failed (.backend s!"tx {showTxid funding.id}"), t) ∧ t.cursor = ⟨2, 1⟩ := by
  have hblock : faulty.block 2 = .ok ⟨2, 20, [spending]⟩ := rfl
  have hsignals : signalsOf faulty [beacon] ⟨2, 20, [spending]⟩ 0 spending =
    .error (.backend s!"tx {showTxid funding.id}") := signalsOf_eq_error_iff.2 spentScripts_faulty
  refine ⟨⟨⟨2, 1⟩, 2, 1, [⟨2, 20, [spending]⟩], [2]⟩, ?_, rfl⟩
  simp [Scanner.next, Scanner.start, Scanner.resume, Scanner.search, Scanner.fill,
    Scanner.windowSize, fetch, hblock, Except.map, Scanner.filled, examine, hsignals,
    List.range_succ]

end Scan.Sample

namespace Scanner

open Scan

/-- A spent output cannot be looked up. Once it can be again, the next call is the one after that
which would have found the signals. -/
theorem next_failed_sample : ∃ t,
    (start 2 2 1).Aligned Sample.faulty ∧
    (start 2 2 1).next Sample.faulty [Sample.beacon] =
      (.failed (.backend s!"tx {showTxid Sample.funding.id}"), t) ∧
    Clear Sample.faulty [Sample.beacon] ⟨2, 0⟩ ⟨2, 0⟩ ∧ t.cursor = ⟨2, 1⟩ ∧
    ∀ calls, results Sample.chain.ledger (⟨[Sample.beacon], none⟩ :: calls) (start 2 2 1) =
      (.found [Sample.signal], ⟨2, 1⟩) ::
        results Sample.chain.ledger calls t := by
  obtain ⟨t, failed, hcursor⟩ := Sample.next_faulty
  have aligned : (start 2 2 1).Aligned Sample.faulty := aligned_resume _ ⟨2, 0⟩ 2 1
  refine ⟨t, aligned, failed, ?_⟩
  obtain ⟨⟨height, index⟩, clear, unfetched | ⟨block, tx, unexamined⟩⟩ := next_failed aligned failed
  · obtain ⟨k, -, hlast, hblock⟩ := unfetched.exists_block
    obtain ⟨block, hok⟩ := Sample.covers_chain.block_ok k hlast
    cases hblock.symm.trans hok
  · obtain ⟨rfl, hindex⟩ := Cursor.mk.inj (hcursor.symm.trans unexamined.cursor_eq)
    obtain rfl : index = 0 := (Nat.succ.inj hindex).symm
    obtain rfl : (⟨2, 20, [Sample.spending]⟩ : Block) = block := Except.ok.inj unexamined.fetched
    obtain rfl : Sample.spending = tx := Option.some.inj unexamined.here
    have hsignals := Sample.covers_chain.signalsOf_eq Sample.mined_chain.faultless.numbered
      [Sample.beacon] (Sample.recovers_faulty.block_eq _ _ unexamined.fetched) 0 Sample.spending
    rw [Sample.watched_spending] at hsignals
    refine ⟨clear, hcursor, fun calls => ?_⟩
    rw [← hcursor]
    exact unexamined.loses _ Sample.recovers_faulty _ (by simp) hsignals none calls

/-- The transaction before the cursor that a failed call leaves was not examined. Its signals, which
the call would have found otherwise, are not found by the next one. -/
theorem next_failed_loses : ∃ e t,
    (start 2 2 1).next Sample.faulty [Sample.beacon] = (.failed e, t) ∧
    (∃ v : Visit, v.On Sample.faulty ∧ ¬ v.cursor.Before ⟨2, 0⟩ ∧ v.cursor.Before t.cursor ∧
      ¬ v.Passed Sample.faulty [Sample.beacon]) ∧
    Sample.faulty.Recovers Sample.chain.ledger 2 ∧
    results Sample.chain.ledger [⟨[Sample.beacon], none⟩] t = [(.finished, ⟨3, 0⟩)] ∧
    results Sample.chain.ledger [⟨[Sample.beacon], none⟩] (start 2 2 1) =
      [(.found [Sample.signal], ⟨2, 1⟩)] := by
  obtain ⟨t, failed, hcursor⟩ := Sample.next_faulty
  have aligned : (start 2 2 1).Aligned Sample.faulty := aligned_resume _ ⟨2, 0⟩ 2 1
  obtain ⟨-, taligned, tlast⟩ := next_walk [Sample.beacon] aligned
  rw [failed] at taligned tlast
  have numbered := Sample.mined_chain.faultless.numbered
  refine ⟨_, t, failed, ⟨⟨2, 20, 0, Sample.spending⟩, ⟨_, rfl, rfl, rfl⟩, by decide, ?_, ?_⟩,
    Sample.recovers_faulty, ?_, ?_⟩
  · rw [hcursor]
    decide
  · rintro (hnone | ⟨scripts, hspent, -⟩)
    · cases hnone
    · rw [Sample.spentScripts_faulty] at hspent
      cases hspent
  · dsimp only at taligned tlast
    rw [results_eq (tlast ▸ Sample.covers_chain) numbered
      (taligned.recovered Sample.recovers_faulty), hcursor, tlast]
    rfl
  · have hvisits : Sample.chain.ledger.visitsFrom (start 2 2 1).cursor (start 2 2 1).last =
      [⟨2, 20, 0, Sample.spending⟩] := rfl
    rw [results_eq (s := start 2 2 1) Sample.covers_chain numbered
      (aligned_resume _ ⟨2, 0⟩ 2 1), hvisits]
    exact Sample.outcomes_spending _ []

end Scanner

end AnchoredDid
