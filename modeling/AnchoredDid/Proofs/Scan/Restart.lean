import AnchoredDid.Proofs.Scan.Overflow
import AnchoredDid.Proofs.Scan.Serial

/-!
# A scan can be taken up anywhere

A scan is a sequence of calls for the next signals, each with the registry of the moment. Before a
call the scanner may have been dropped and taken up again from its cursor. `Scan.outcomes` says what
the calls come to by one pass over the list of transactions, in which there is neither a window nor
a buffer; `Scanner.results_eq` says that every scanner comes to the same, and `Scanner.collect_eq`
what the signals of a whole range are.

Where no question fails, a call ends as any walk from the cursor does
(`Scanner.results_cons_of_walk`), so what the calls come to depends on the scanner only through its
cursor (`Scanner.results_congr`).

`Scanner.results` counts heights without end, `Scanner.answers` in 64 bits. There the range must end
below the greatest height, and the ledger must have its blocks: a window that reaches beyond the
last block fails before a smaller one does (`Scanner.results_not_restarted`).
-/

namespace AnchoredDid

/-- A call for the next signals. If there is a window, the scanner was dropped before the call, and
taken up again from its cursor with this window. -/
structure Call where
  registry : Registry
  window : Option Nat

namespace Scan

/-- What calls come to by one pass over the transactions. Each transaction is examined once, by the
call that is waiting for signals; when there are none left a call ends behind the range. -/
def outcomes (l : Ledger) (behind : Cursor) :
    List Registry → List Visit → List (Scanner.Outcome × Cursor)
  | registries, [] => registries.map fun _ => (.finished, behind)
  | [], _ :: _ => []
  | registry :: rest, v :: visits =>
    match v.watched l registry with
    | [] => outcomes l behind (registry :: rest) visits
    | beacons => (.found (beacons.map v.signal), v.next) :: outcomes l behind rest visits

variable {l : Ledger} {behind : Cursor} {registry : Registry} {registries : List Registry}

@[simp] theorem outcomes_nil (visits : List Visit) : outcomes l behind [] visits = [] := by
  cases visits <;> rfl

/-- Transactions without signals are passed. -/
theorem outcomes_passed {passed visits : List Visit} (h : ∀ v ∈ passed, v.watched l registry = []) :
    outcomes l behind (registry :: registries) (passed ++ visits) =
      outcomes l behind (registry :: registries) visits := by
  induction passed with
  | nil => rfl
  | cons v rest ih =>
      obtain ⟨hv, hrest⟩ := List.forall_mem_cons.1 h
      rw [List.cons_append, outcomes, hv]
      exact ih hrest

theorem outcomes_found {v : Visit} {visits : List Visit} (h : v.watched l registry ≠ []) :
    outcomes l behind (registry :: registries) (v :: visits) =
      (.found ((v.watched l registry).map v.signal), v.next) ::
        outcomes l behind registries visits := by
  obtain ⟨b, beacons, hwatched⟩ := List.exists_cons_of_ne_nil h
  rw [outcomes, hwatched]

end Scan

/-! ## The transactions of a scan -/

namespace Ledger

variable {l : Ledger}

/-- An output's script is known if the ledger has the transaction, and the transaction the output.
So null outputs and unknown ones have none. -/
theorem scriptAt_eq_some_iff {o : OutPoint} {script : Bytes} :
    l.scriptAt o = .ok (some script) ↔ o.isNull = false ∧ ∃ tx output,
      l.transaction o.txid = .ok (some tx) ∧ tx.outputs[o.index]? = some output ∧
        output.script = script := by
  rw [scriptAt]
  split
  · next hnull => simp [hnull]
  · next hnull =>
    rw [Bool.not_eq_true] at hnull
    split
    · next e he => simp [hnull, he]
    · next he => simp [hnull, he]
    · next tx he => simp [hnull, he]

theorem getElem?_visitsAt {v : Visit} (numbered : l.Numbered) (on : v.On l) :
    (l.visitsAt v.height)[v.index]? = some v := by
  obtain ⟨block, fetched, htime, here⟩ := on
  have hheight : block.height = v.height := numbered _ _ fetched
  simp [visitsAt, fetched, Block.visits, here, hheight, htime]

theorem index_of_getElem?_visitsAt {v : Visit} {height i : Nat}
    (h : (l.visitsAt height)[i]? = some v) : v.index = i := by
  rw [visitsAt] at h
  split at h
  · next block _ =>
    rw [Block.visits, List.getElem?_map, List.getElem?_zipIdx] at h
    cases htx : block.transactions[i]? with
    | none => simp [htx] at h
    | some tx =>
        simp only [htx, Option.map_some, Option.some.injEq] at h
        rw [← h, Nat.zero_add]
  · cases h

theorem pairwise_visitsAt (l : Ledger) (height : Nat) :
    (l.visitsAt height).Pairwise fun u v => u.height = v.height ∧ u.index < v.index := by
  rw [visitsAt]
  split
  · rw [List.pairwise_iff_getElem]
    intro i j hi hj hij
    simpa [Block.visits] using hij
  · exact .nil

theorem height_of_mem_visitsAt {v : Visit} {height : Nat} (numbered : l.Numbered)
    (h : v ∈ l.visitsAt height) : v.height = height := by
  have hone : l.visits height height = l.visitsAt height := by
    rw [visits_cons (Nat.le_refl _), visits_of_lt (Nat.lt_succ_self _), List.append_nil]
  obtain ⟨-, hfirst, hlast⟩ := on_of_mem_visits numbered (hone.symm ▸ h)
  exact Nat.le_antisymm hlast hfirst

theorem pairwise_visits (numbered : l.Numbered) (first last : Nat) :
    (l.visits first last).Pairwise fun u v => u.cursor.Before v.cursor := by
  rw [visits, List.pairwise_flatMap]
  refine ⟨fun height _ => (l.pairwise_visitsAt height).imp fun h => .inr h, ?_⟩
  refine List.Pairwise.imp (fun hlt u hu v hv => .inl ?_) (List.pairwise_lt_range' ..)
  rw [Visit.cursor, Visit.cursor, height_of_mem_visitsAt numbered hu,
    height_of_mem_visitsAt numbered hv]
  exact hlt

/-- The transactions that a scan comes to, each once and in the order of the ledger. -/
theorem pairwise_visitsFrom (numbered : l.Numbered) (c : Cursor) (last : Nat) :
    (l.visitsFrom c last).Pairwise fun u v => u.cursor.Before v.cursor := by
  rw [visitsFrom]
  split
  · next range =>
    refine (pairwise_visits numbered c.height last).sublist ?_
    rw [visits_cons range]
    exact (List.drop_sublist _ _).append_right _
  · exact .nil

/-- They are those of the range that do not stand before the cursor. -/
theorem mem_visitsFrom_iff (numbered : l.Numbered) {c : Cursor} {last : Nat} {v : Visit} :
    v ∈ l.visitsFrom c last ↔ v.On l ∧ ¬ v.cursor.Before c ∧ v.height ≤ last := by
  constructor
  · intro h
    obtain ⟨on, range, hlast⟩ := on_of_mem_visitsFrom numbered h
    refine ⟨on, ?_, hlast⟩
    rw [visitsFrom, if_pos range] at h
    simp only [Cursor.Before, Visit.cursor]
    rcases List.mem_append.1 h with hfirst | hlater
    · have hheight := height_of_mem_visitsAt numbered (List.mem_of_mem_drop hfirst)
      obtain ⟨i, hi⟩ := List.mem_iff_getElem?.1 hfirst
      rw [List.getElem?_drop] at hi
      have hindex := index_of_getElem?_visitsAt hi
      omega
    · obtain ⟨-, hnext, -⟩ := on_of_mem_visits numbered hlater
      omega
  · rintro ⟨on, hplace, hlast⟩
    simp only [Cursor.Before, Visit.cursor] at hplace
    have hthere := getElem?_visitsAt numbered on
    rw [visitsFrom, if_pos (by omega)]
    rcases Nat.lt_or_ge c.height v.height with hlater | hhere
    · refine List.mem_append_right _
        (List.mem_flatMap.2 ⟨v.height, ?_, List.mem_of_getElem? hthere⟩)
      rw [List.mem_range'_1]
      omega
    · have hheight : v.height = c.height := by omega
      refine List.mem_append_left _ (List.mem_iff_getElem?.2 ⟨v.index - c.index, ?_⟩)
      rw [List.getElem?_drop, Nat.add_sub_cancel' (by omega), ← hheight]
      exact hthere

end Ledger

namespace Scanner

variable {l : Ledger} {last : Nat} {s t u : Scanner} {c d : Cursor} {o : Outcome}
variable {call : Call} {calls : List Call}

/-- The scanner that a call is made on. -/
def onCall (s : Scanner) (call : Call) : Scanner :=
  match call.window with
  | none => s
  | some window => resume s.cursor s.last window

/-- What each of some calls ends with, and the cursor after it. -/
def results (l : Ledger) : List Call → Scanner → List (Outcome × Cursor)
  | [], _ => []
  | call :: calls, s =>
    match (s.onCall call).next l call.registry with
    | (o, t) => (o, t.cursor) :: results l calls t

/-- The same with heights of 64 bits. No answer is a build that did not come back from one of
them. -/
noncomputable def answers (b : Build) (l : Ledger) :
    List Call → Scanner → Option (List (Outcome × Cursor))
  | [], _ => some []
  | call :: calls, s => do
    let (o, t) ← (s.onCall call).next? b l call.registry
    let later ← answers b l calls t
    return (o, t.cursor) :: later

@[simp] theorem onCall_cursor (s : Scanner) (call : Call) : (s.onCall call).cursor = s.cursor := by
  rw [onCall]
  split <;> rfl

@[simp] theorem onCall_last (s : Scanner) (call : Call) : (s.onCall call).last = s.last := by
  rw [onCall]
  split <;> rfl

theorem Aligned.onCall (aligned : s.Aligned l) (call : Call) : (s.onCall call).Aligned l := by
  rw [Scanner.onCall]
  split
  · exact aligned
  · exact aligned_resume l _ _ _

/-- Where no question of the range fails, no walk does. -/
theorem Walk.answered {registry : Registry} (walk : Walk l registry last c o d)
    (h : l.Covers last) : ∀ e, o ≠ .failed e := by
  induction walk with
  | finished | found => nofun
  | unexamined range fetched here examined =>
      rw [Scan.signalsOf_eq_error_iff, h.spentScripts_eq] at examined
      cases examined
  | unfetched first range fetched =>
      obtain ⟨block, hblock⟩ := h.block_ok _ range
      rw [hblock] at fetched
      cases fetched
  | pass _ _ _ _ _ ih | leave _ _ _ _ ih => exact ih

/-- A call ends as any walk from the cursor does. -/
theorem results_cons_of_walk (h : l.Covers s.last) (aligned : s.Aligned l) (call : Call)
    (calls : List Call) (walk : Walk l call.registry s.last s.cursor o d) :
    ∃ t : Scanner, t.Aligned l ∧ t.cursor = d ∧ t.last = s.last ∧
      results l (call :: calls) s = (o, d) :: results l calls t := by
  obtain ⟨walk', taligned, tlast⟩ := next_walk call.registry (aligned.onCall call)
  rw [onCall_cursor, onCall_last] at walk'
  obtain ⟨ho, hd⟩ := walk.unique walk' (walk.answered h) (walk'.answered h)
  exact ⟨_, taligned, hd.symm, tlast.trans (onCall_last s call), by rw [results, ho, hd]⟩

/-- What calls come to depends on the scanner only through its cursor. -/
theorem results_congr (h : l.Covers s.last) (aligned : s.Aligned l) (aligned' : u.Aligned l)
    (hcursor : u.cursor = s.cursor) (hlast : u.last = s.last) :
    results l calls u = results l calls s := by
  induction calls generalizing s u with
  | nil => rfl
  | cons call calls ih =>
      obtain ⟨walk, -⟩ := next_walk call.registry aligned
      obtain ⟨t, taligned, tcursor, tlast, ht⟩ := results_cons_of_walk h aligned call calls walk
      obtain ⟨t', taligned', tcursor', tlast', ht'⟩ := results_cons_of_walk (s := u) (hlast ▸ h)
        aligned' call calls (by rw [hcursor, hlast]; exact walk)
      rw [ht, ht', ih (s := t) (u := t') (tlast ▸ h) taligned taligned'
        (tcursor'.trans tcursor.symm) (by rw [tlast', tlast, hlast])]

/-- The calls on any scanner come to what one pass over the transactions comes to. -/
theorem results_eq (h : l.Covers s.last) (numbered : l.Numbered) (aligned : s.Aligned l) :
    results l calls s = Scan.outcomes l (s.cursor.past s.last) (calls.map Call.registry)
      (l.visitsFrom s.cursor s.last) := by
  induction calls generalizing s with
  | nil => rw [List.map_nil, Scan.outcomes_nil, results]
  | cons call calls ih =>
      obtain ⟨walk, -⟩ := next_walk call.registry aligned
      have answered := walk.answered h
      have hsearch := walk.searches h numbered
      obtain ⟨t, taligned, tcursor, tlast, ht⟩ := results_cons_of_walk h aligned call calls walk
      have hrest := ih (tlast ▸ h) taligned
      rw [tlast] at hrest
      rw [ht, hrest, tcursor, List.map_cons]
      generalize (s.next l call.registry).1 = o, (s.next l call.registry).2.cursor = d at *
      cases o with
      | failed e => exact absurd rfl (answered e)
      | finished =>
          obtain ⟨hunwatched, rfl⟩ := hsearch
          have hbehind : l.visitsFrom (s.cursor.past s.last) s.last = [] := by
            refine Ledger.visitsFrom_of_lt ?_
            rw [Cursor.past]
            split
            · exact Nat.lt_succ_self _
            · next hpast => exact Nat.lt_of_not_le hpast
          rw [Cursor.past_past (Nat.le_refl _), hbehind,
            ← List.append_nil (l.visitsFrom s.cursor s.last), Scan.outcomes_passed hunwatched]
          rfl
      | found signals =>
          obtain ⟨passed, v, on, range, hvisits, hpassed, hwatched, rfl, rfl⟩ := hsearch
          have hsplit := hvisits s.last (Nat.le_refl _)
          rw [Ledger.visitsFrom_of_on numbered on range] at hsplit
          have hcursor : s.cursor.height ≤ s.last :=
            (Ledger.on_of_mem_visitsFrom numbered
              (hsplit ▸ List.mem_append_right _ List.mem_cons_self)).2.1
          rw [hsplit, Scan.outcomes_passed hpassed, Scan.outcomes_found hwatched,
            Cursor.past_of_le hcursor, Cursor.past_of_le (c := v.next) range]

/-- Below the greatest height the calls come to the same in every build. -/
theorem answers_eq (b : Build) (aligned : s.Aligned l) (h : s.last < Word.greatest) :
    answers b l calls s = some (results l calls s) := by
  induction calls generalizing s with
  | nil => rfl
  | cons call calls ih =>
      obtain ⟨-, taligned, tlast⟩ := next_walk call.registry (aligned.onCall call)
      rw [onCall_last] at tlast
      rw [answers, next?_of_lt b l call.registry ((onCall_last s call).symm ▸ h), results]
      simp only [Option.bind_eq_bind, Option.bind_some, ih taligned (tlast ▸ h)]
      rfl

/-- All signals of the range for one registry, transaction by transaction. -/
theorem collect_eq {s : Scanner} (h : l.Covers s.last) (numbered : l.Numbered)
    (aligned : s.Aligned l) (registry : Registry) :
    s.collect l registry = .ok ((l.visitsFrom s.cursor s.last).flatMap fun v =>
      (v.watched l registry).map v.signal) := by
  obtain ⟨walk, taligned, tlast⟩ := next_walk registry aligned
  have hquiet : ∀ {passed : List Visit}, (∀ u ∈ passed, u.watched l registry = []) →
      (passed.flatMap fun v => (v.watched l registry).map v.signal) = [] := fun hpassed =>
    List.flatMap_eq_nil_iff.2 fun u hu => by rw [hpassed u hu, List.map_nil]
  rw [collect]
  split
  · next hnext =>
    rw [hnext] at walk
    rw [hquiet (walk.searches h numbered).1]
  · next e _ hnext =>
    rw [hnext] at walk
    exact absurd rfl (walk.answered h e)
  · next signals t hnext =>
    rw [hnext] at walk taligned tlast
    obtain ⟨passed, v, on, range, hvisits, hpassed, -, hsignals, hcursor⟩ :=
      walk.searches h numbered
    have hrest := collect_eq (tlast ▸ h) numbered taligned registry
    rw [tlast, hcursor] at hrest
    rw [hrest, hvisits s.last (Nat.le_refl _), Ledger.visitsFrom_of_on numbered on range,
      List.flatMap_append, hquiet hpassed, List.flatMap_cons, hsignals]
    rfl
termination_by (s.blocksLeft, s.transactionsLeft)
decreasing_by exact next_found_before ‹_›

/-- A scan can be taken up anywhere and sees each transaction once. Let no question of the range
fail, on a ledger that numbers its blocks, and let the range end below the greatest height. Wherever
a scan starts, whatever its windows are and before whichever calls the scanner is dropped and taken
up again, in every build the calls come to what one pass over the transactions comes to: those of
the range that do not stand before the start, in order. A transaction matches the beacons of the
registry whose script one of its inputs spends, and an input spends a script only if the ledger has
the transaction and the output that it names. -/
theorem results_restarted (h : l.Covers last) (numbered : l.Numbered) (fits : last < Word.greatest)
    (b : Build) (c : Cursor) (window : Nat) (calls : List Call) :
    answers b l calls (resume c last window) =
      some (Scan.outcomes l (c.past last) (calls.map Call.registry) (l.visitsFrom c last)) ∧
    (l.visitsFrom c last).Pairwise (fun u v => u.cursor.Before v.cursor) ∧
    (∀ v, v ∈ l.visitsFrom c last ↔ v.On l ∧ ¬ v.cursor.Before c ∧ v.height ≤ last) ∧
    (∀ v registry b, b ∈ Visit.watched l registry v ↔ b ∈ registry ∧ v.Spends l b.script) ∧
    ∀ o script, l.scriptAt o = .ok (some script) ↔ o.isNull = false ∧ ∃ tx output,
      l.transaction o.txid = .ok (some tx) ∧ tx.outputs[o.index]? = some output ∧
        output.script = script := by
  have aligned : (resume c last window).Aligned l := aligned_resume l c last window
  refine ⟨?_, Ledger.pairwise_visitsFrom numbered c last,
    fun _ => Ledger.mem_visitsFrom_iff numbered,
    fun _ _ _ => Ledger.mem_watched_iff, fun _ _ => Ledger.scriptAt_eq_some_iff⟩
  rw [answers_eq b aligned fits, results_eq h numbered aligned]
  rfl

end Scanner

namespace Scan.Sample

def beacon : Beacon :=
  ⟨"did:btcr2:test#beacon", .singleton, .witness .regtest 0 (List.replicate 20 1)⟩

/-- A transaction that spends nothing and pays to the beacon. -/
def funding : Transaction := ⟨[⟨.null, []⟩], [⟨1000, beacon.script⟩]⟩

/-- A transaction that spends from the beacon and pays the rest back to it. -/
def spending : Transaction := ⟨[⟨⟨funding.id, 0⟩, []⟩], [⟨900, beacon.script⟩]⟩

def chain : Chain := (Chain.start.mine 10 [funding]).mine 20 [spending]

theorem mined_chain : chain.Mined :=
  (Chain.Mined.start.mine 10 [funding]).mine 20 [spending]

theorem covers_chain : chain.ledger.Covers 2 :=
  mined_chain.faultless.covers (Nat.le_refl 2)

theorem not_isNull : OutPoint.isNull ⟨funding.id, 0⟩ = false :=
  OutPoint.isNull_of_index_ne (by decide)

/-- Whichever of the two transactions has the id that is spent from, it pays to the beacon. -/
theorem scriptAt_funding : chain.ledger.scriptAt ⟨funding.id, 0⟩ = .ok (some beacon.script) := by
  obtain ⟨tx, htx, hscript⟩ : ∃ tx, chain.transaction? funding.id = some tx ∧
      tx.outputs[0]?.map TxOutput.script = some beacon.script :=
    (Chain.Mined.start.mine 10 [funding]).exists_output 20
      (Chain.Mined.start.transaction?_mine_own 10 funding) rfl rfl
  rw [Ledger.scriptAt_of_found not_isNull (congrArg Except.ok htx), hscript]

theorem watched_funding :
    Visit.watched chain.ledger [beacon] ⟨1, 10, 0, funding⟩ = [] := by
  simp [Visit.watched, Ledger.spends, funding, Ledger.script?, Ledger.scriptAt, OutPoint.isNull]

theorem spends_spending : chain.ledger.spends spending beacon.script = true :=
  (Ledger.spends_iff (v := ⟨2, 20, 0, spending⟩)).2
    ⟨_, List.mem_singleton_self _, scriptAt_funding⟩

theorem watched_spending : Visit.watched chain.ledger [beacon] ⟨2, 20, 0, spending⟩ = [beacon] :=
  List.filter_cons_of_pos spends_spending

/-- The signal of the second transaction. -/
def signal : Signal := ⟨beacon, spending, 2, 20, 0⟩

/-- From the second transaction on it is found first. -/
theorem outcomes_spending (behind : Cursor) (registries : List Registry) :
    outcomes chain.ledger behind ([beacon] :: registries) [⟨2, 20, 0, spending⟩] =
      (.found [signal], ⟨2, 1⟩) :: outcomes chain.ledger behind registries [] := by
  rw [outcomes_found (by rw [watched_spending]; exact List.cons_ne_nil _ _), watched_spending]
  rfl

/-- A ledger without end. It has the second transaction in the first block of all, and no other. -/
def endless : Ledger where
  tip := .ok Word.greatest
  block height := .ok ⟨height, 0, if height = 0 then [spending] else []⟩
  transaction := chain.ledger.transaction

theorem covers_endless (last : Nat) : endless.Covers last where
  block_ok _ _ := ⟨_, rfl⟩
  scriptAt_answered := covers_chain.scriptAt_answered

theorem numbered_endless : endless.Numbered := by
  rintro height _ ⟨⟩
  rfl

/-- A scan of its last block. -/
def ending : Scanner := Scanner.resume ⟨Word.greatest, 0⟩ Word.greatest 1

/-- A build that checks its additions does not get behind the last block. -/
theorem next?_ending_checked : ending.next? .checked endless [beacon] = none := by
  rw [Scanner.next?, loop_eq]
  rfl

/-- One that does not goes on with the first block of all. -/
theorem next?_ending_unchecked : ending.next? .unchecked endless [beacon] =
    (⟨⟨0, 0⟩, Word.greatest, 1, [], [Word.greatest]⟩ : Scanner).next? .unchecked endless
      [beacon] := by
  rw [Scanner.next?, loop_eq]
  rfl

theorem next?_first (asked : List Nat) :
    (⟨⟨0, 0⟩, Word.greatest, 1, [], asked⟩ : Scanner).next? .unchecked endless [beacon] =
      some (.found [⟨beacon, spending, 0, 0, 0⟩],
        ⟨⟨0, 1⟩, Word.greatest, 1, [⟨0, 0, [spending]⟩], 0 :: asked⟩) := by
  have hblock : endless.block 0 = .ok ⟨0, 0, [spending]⟩ := rfl
  have hwatched : Visit.watched endless [beacon] ⟨0, 0, 0, spending⟩ = [beacon] := watched_spending
  have hsignals : signalsOf endless [beacon] ⟨0, 0, [spending]⟩ 0 spending =
      .ok [⟨beacon, spending, 0, 0, 0⟩] := by
    rw [(covers_endless 0).signalsOf_eq numbered_endless [beacon] hblock, hwatched]
    rfl
  have hexamined : examine endless [beacon] ⟨0, 0, [spending]⟩ 0 [spending] =
      .found [⟨beacon, spending, 0, 0, 0⟩] 1 := by
    rw [examine, hsignals]
    rfl
  have hfill : (⟨⟨0, 0⟩, Word.greatest, 1, [], asked⟩ : Scanner).fill endless =
      .ok ⟨⟨0, 0⟩, Word.greatest, 1, [⟨0, 0, [spending]⟩], 0 :: asked⟩ := rfl
  rw [Scanner.next?_of_fill .unchecked [beacon] (Nat.not_lt_zero _) hfill rfl]
  simp only [List.drop_zero, hexamined]

/-- In the window of two blocks the second is not there. -/
theorem next_two : (Scanner.resume ⟨2, 0⟩ 3 2).next chain.ledger [beacon] =
    (.failed (.blockNotFound 3), Scanner.resume ⟨2, 0⟩ 3 2) := by
  rfl

theorem next_one :
    ∃ t, (Scanner.resume ⟨2, 0⟩ 3 1).next chain.ledger [beacon] = (.found [signal], t) ∧
      t.cursor = ⟨2, 1⟩ := by
  have hblock : chain.ledger.block 2 = .ok ⟨2, 20, [spending]⟩ := rfl
  have hsignals :
      signalsOf chain.ledger [beacon] ⟨2, 20, [spending]⟩ 0 spending = .ok [signal] := by
    rw [covers_chain.signalsOf_eq mined_chain.faultless.numbered [beacon] hblock, watched_spending]
    rfl
  obtain ⟨t, hnext, hcursor, -⟩ := Scanner.next_of_walk (Scanner.serial_resume ⟨2, 0⟩ 3)
    (Scanner.aligned_resume _ _ _ _) (.found (by decide) hblock rfl hsignals (List.cons_ne_nil _ _))
    nofun
  exact ⟨t, hnext, hcursor⟩

end Scan.Sample

open Scan

namespace Scanner

/-- A scan that passes one transaction and finds the other, and a second call on a scanner that is
taken up again with another window. -/
theorem results_restarted_sample :
    Sample.chain.ledger.Covers 2 ∧ Sample.chain.ledger.Numbered ∧ 2 < Word.greatest ∧
    ∀ b, answers b Sample.chain.ledger [⟨[Sample.beacon], none⟩, ⟨[Sample.beacon], some 1⟩]
      (resume ⟨1, 0⟩ 2 3) =
        some [(.found [Sample.signal], ⟨2, 1⟩), (.finished, ⟨3, 0⟩)] := by
  have numbered := Sample.mined_chain.faultless.numbered
  have fits : 2 < Word.greatest := by decide
  refine ⟨Sample.covers_chain, numbered, fits, fun b => ?_⟩
  have hvisits : Sample.chain.ledger.visitsFrom ⟨1, 0⟩ 2 =
      [⟨1, 10, 0, Sample.funding⟩] ++ [⟨2, 20, 0, Sample.spending⟩] := rfl
  rw [(results_restarted Sample.covers_chain numbered fits b ⟨1, 0⟩ 3 _).1, hvisits, List.map_cons,
    outcomes_passed (List.forall_mem_singleton.2 Sample.watched_funding), Sample.outcomes_spending]
  rfl

/-- Not every scan can be taken up anywhere. If the range ends at the greatest height, a scan of the
last block does not come back from the call behind it, or finds what stands before its start. And if
the ledger ends before the range, then what a call finds depends on its window. -/
theorem results_not_restarted :
    (∀ b, ¬ ∀ (l : Ledger) (c : Cursor) (last window : Nat) (calls : List Call),
      l.Covers last → l.Numbered → last < Word.size →
        answers b l calls (resume c last window) =
          some (outcomes l (c.past last) (calls.map Call.registry) (l.visitsFrom c last))) ∧
    answers .checked Sample.endless [⟨[Sample.beacon], none⟩] Sample.ending = none ∧
    answers .unchecked Sample.endless [⟨[Sample.beacon], none⟩] Sample.ending =
      some [(.found [⟨Sample.beacon, Sample.spending, 0, 0, 0⟩], ⟨0, 1⟩)] ∧
    ∀ b, answers b Sample.chain.ledger [⟨[Sample.beacon], none⟩] (resume ⟨2, 0⟩ 3 1) =
        some [(.found [Sample.signal], ⟨2, 1⟩)] ∧
      answers b Sample.chain.ledger [⟨[Sample.beacon], none⟩] (resume ⟨2, 0⟩ 3 2) =
        some [(.failed (.blockNotFound 3), ⟨2, 0⟩)] := by
  have hchecked :
      answers .checked Sample.endless [⟨[Sample.beacon], none⟩] Sample.ending = none := by
    rw [answers, onCall, Sample.next?_ending_checked]
    rfl
  have hunchecked : answers .unchecked Sample.endless [⟨[Sample.beacon], none⟩] Sample.ending =
      some [(.found [⟨Sample.beacon, Sample.spending, 0, 0, 0⟩], ⟨0, 1⟩)] := by
    rw [answers, onCall, Sample.next?_ending_unchecked, Sample.next?_first]
    rfl
  have hpass : outcomes Sample.endless (Cursor.past ⟨Word.greatest, 0⟩ Word.greatest)
      [[Sample.beacon]] (Sample.endless.visitsFrom ⟨Word.greatest, 0⟩ Word.greatest) =
        [(.finished, ⟨Word.greatest + 1, 0⟩)] := by
    rw [Ledger.visitsFrom, if_pos (Nat.le_refl _), Ledger.visits_of_lt (Nat.lt_succ_self _)]
    rfl
  refine ⟨fun b h => ?_, hchecked, hunchecked, fun b => ⟨?_, ?_⟩⟩
  · have hcalls := (h Sample.endless ⟨Word.greatest, 0⟩ Word.greatest 1 [⟨[Sample.beacon], none⟩]
      (Sample.covers_endless _) Sample.numbered_endless (by decide)).trans (congrArg some hpass)
    cases b with
    | checked => cases hchecked.symm.trans hcalls
    | unchecked =>
        have hfirst := List.head_eq_of_cons_eq (Option.some.inj (hunchecked.symm.trans hcalls))
        cases (Prod.mk.inj hfirst).1
  · obtain ⟨t, hnext, hcursor⟩ := Sample.next_one
    rw [answers_eq b (aligned_resume _ _ _ _) (show 3 < Word.greatest by decide), results, onCall,
      hnext, ← hcursor]
    rfl
  · rw [answers_eq b (aligned_resume _ _ _ _) (show 3 < Word.greatest by decide), results, onCall,
      Sample.next_two]
    rfl

end Scanner

end AnchoredDid
