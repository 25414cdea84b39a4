import AnchoredDid.Scan
import AnchoredDid.Proofs.Ledger

/-!
# What one search of the scanner does

`Scanner.Walk` is the search without its window: from a cursor, transactions that match no beacon
are passed one by one until one matches, a question fails, or the range ends.
`Scanner.next_walk` says that every search is such a walk, whatever the window is and whatever the
buffer holds, as long as the buffer starts at the cursor (`Scanner.Aligned`), and that it leaves
the buffer so.

On a ledger that does not fail in the range a walk is a search through the list of transactions that
are left (`Scanner.Walk.searches`).
-/

namespace AnchoredDid

namespace Cursor

/-- The cursor behind a range: its end, unless the cursor is there already. -/
def past (c : Cursor) (last : Nat) : Cursor :=
  if c.height ≤ last then ⟨last + 1, 0⟩ else c

/-- The order in which a scan comes to places. -/
def Before (c d : Cursor) : Prop :=
  c.height < d.height ∨ (c.height = d.height ∧ c.index < d.index)

instance (c d : Cursor) : Decidable (c.Before d) :=
  inferInstanceAs (Decidable (_ ∨ _))

theorem not_before_self (c : Cursor) : ¬ c.Before c := by
  rw [Before]
  omega

end Cursor

namespace Visit

def cursor (v : Visit) : Cursor := ⟨v.height, v.index⟩

/-- The cursor behind the transaction. -/
def next (v : Visit) : Cursor := ⟨v.height, v.index + 1⟩

/-- The beacons of a registry that the transaction spends from, in the registry's order. -/
def watched (l : Ledger) (registry : Registry) (v : Visit) : List Beacon :=
  registry.filter fun b => l.spends v.transaction b.script

/-- One of the transaction's inputs spends an output of the ledger that is locked by the script. -/
def Spends (v : Visit) (l : Ledger) (script : Bytes) : Prop :=
  ∃ input ∈ v.transaction.inputs, l.scriptAt input.outpoint = .ok (some script)

def signal (v : Visit) (b : Beacon) : Signal :=
  ⟨b, v.transaction, v.height, v.time, v.index⟩

/-- The ledger has the transaction at this place. -/
def On (l : Ledger) (v : Visit) : Prop :=
  ∃ block, l.block v.height = .ok block ∧ block.time = v.time ∧
    block.transactions[v.index]? = some v.transaction

end Visit

namespace Ledger

variable {l : Ledger} {v : Visit}

theorem spends_iff {script : Bytes} :
    l.spends v.transaction script = true ↔ v.Spends l script := by
  have hknown : ∀ o, l.script? o = some script ↔ l.scriptAt o = .ok (some script) := by
    intro o
    rw [script?]
    cases l.scriptAt o <;> simp
  simp only [spends, Visit.Spends, List.any_eq_true, decide_eq_true_eq, hknown]

theorem mem_watched_iff {registry : Registry} {b : Beacon} :
    b ∈ v.watched l registry ↔ b ∈ registry ∧ v.Spends l b.script := by
  rw [Visit.watched, List.mem_filter, spends_iff]

end Ledger

/-- The transactions from a cursor to the end of a block. -/
def Ledger.visitsFrom (l : Ledger) (c : Cursor) (last : Nat) : List Visit :=
  if c.height ≤ last then
    (l.visitsAt c.height).drop c.index ++ l.visits (c.height + 1) last
  else []

namespace Scanner

/-- A search from one cursor to another, and what it ends with. -/
inductive Walk (l : Ledger) (registry : Registry) (last : Nat) : Cursor → Outcome → Cursor → Prop
  | finished {c : Cursor} (range : last < c.height) : Walk l registry last c .finished c
  | found {height index : Nat} {block : Block} {tx : Transaction} {signals : List Signal}
      (range : height ≤ last) (fetched : l.block height = .ok block)
      (here : block.transactions[index]? = some tx)
      (examined : Scan.signalsOf l registry block index tx = .ok signals) (some : signals ≠ []) :
      Walk l registry last ⟨height, index⟩ (.found signals) ⟨height, index + 1⟩
  | unexamined {height index : Nat} {block : Block} {tx : Transaction} {e : LedgerError}
      (range : height ≤ last) (fetched : l.block height = .ok block)
      (here : block.transactions[index]? = some tx)
      (examined : Scan.signalsOf l registry block index tx = .error e) :
      Walk l registry last ⟨height, index⟩ (.failed e) ⟨height, index + 1⟩
  | unfetched {c : Cursor} {height : Nat} {e : LedgerError}
      (first : c.height ≤ height) (range : height ≤ last) (fetched : l.block height = .error e) :
      Walk l registry last c (.failed e) c
  | pass {height index : Nat} {block : Block} {tx : Transaction} {o : Outcome} {d : Cursor}
      (range : height ≤ last) (fetched : l.block height = .ok block)
      (here : block.transactions[index]? = some tx)
      (examined : registry = [] ∨ Scan.signalsOf l registry block index tx = .ok [])
      (rest : Walk l registry last ⟨height, index + 1⟩ o d) :
      Walk l registry last ⟨height, index⟩ o d
  | leave {height index : Nat} {block : Block} {o : Outcome} {d : Cursor}
      (range : height ≤ last) (fetched : l.block height = .ok block)
      (ended : block.transactions.length ≤ index)
      (rest : Walk l registry last ⟨height + 1, 0⟩ o d) :
      Walk l registry last ⟨height, index⟩ o d

/-- A walk never goes back to an earlier block. -/
theorem Walk.height_le {l : Ledger} {registry : Registry} {last : Nat} {c d : Cursor}
    {o : Outcome} (walk : Walk l registry last c o d) : c.height ≤ d.height := by
  induction walk with
  | finished | found | unexamined | unfetched => exact Nat.le_refl _
  | pass _ _ _ _ _ ih => exact ih
  | leave _ _ _ _ ih => exact Nat.le_of_succ_le ih

/-- The buffer holds the blocks at the cursor's height and above it. -/
def Aligned (l : Ledger) (s : Scanner) : Prop :=
  ∀ k block, s.buffer[k]? = some block → l.block (s.cursor.height + k) = .ok block

theorem Aligned.head {l : Ledger} {s : Scanner} (aligned : s.Aligned l) {block : Block}
    {later : List Block} (h : s.buffer = block :: later) : l.block s.cursor.height = .ok block :=
  aligned 0 block (by rw [h]; rfl)

/-- Behind the first block of the buffer the others are aligned. -/
theorem Aligned.tail {l : Ledger} {s : Scanner} (aligned : s.Aligned l) {block : Block}
    {later : List Block} (h : s.buffer = block :: later) :
    Aligned l { s with buffer := later, cursor := ⟨s.cursor.height + 1, 0⟩ } := by
  intro k b hk
  rw [← aligned (k + 1) b (by rw [h]; simpa using hk)]
  exact congrArg l.block (by dsimp only; omega)

theorem aligned_resume (l : Ledger) (c : Cursor) (last window : Nat) :
    (resume c last window).Aligned l := by
  intro k block hk
  simp [resume] at hk

end Scanner

namespace Scan

theorem spentScripts_congr {l l' : Ledger} {inputs : List TxInput}
    (h : ∀ input ∈ inputs, l'.scriptAt input.outpoint = l.scriptAt input.outpoint) :
    spentScripts l' inputs = spentScripts l inputs := by
  induction inputs with
  | nil => rfl
  | cons input rest ih =>
      obtain ⟨hinput, hrest⟩ := List.forall_mem_cons.1 h
      rw [spentScripts, spentScripts, hinput, ih hrest]

theorem signalsOf_eq_ok_iff {l : Ledger} {registry : Registry} {block : Block} {index : Nat}
    {tx : Transaction} {signals : List Signal} :
    signalsOf l registry block index tx = .ok signals ↔
      ∃ scripts, spentScripts l tx.inputs = .ok scripts ∧ signals =
        (registry.filter fun b => scripts.contains b.script).map fun b =>
          ⟨b, tx, block.height, block.time, index⟩ := by
  rw [signalsOf]
  cases hspent : spentScripts l tx.inputs with
  | error e => simp [bind, Except.bind]
  | ok scripts => simp [bind, Except.bind, pure, Except.pure, eq_comm]

theorem signalsOf_eq_error_iff {l : Ledger} {registry : Registry} {block : Block} {index : Nat}
    {tx : Transaction} {e : LedgerError} :
    signalsOf l registry block index tx = .error e ↔ spentScripts l tx.inputs = .error e := by
  rw [signalsOf]
  cases hspent : spentScripts l tx.inputs with
  | error e' => simp [bind, Except.bind]
  | ok scripts => simp [bind, Except.bind, pure, Except.pure]

theorem fetch_ok {l : Ledger} {height count : Nat} {blocks : List Block}
    (h : fetch l height count = .ok blocks) :
    blocks.length = count ∧
      ∀ k block, blocks[k]? = some block → l.block (height + k) = .ok block := by
  induction count generalizing height blocks with
  | zero =>
      cases h
      exact ⟨rfl, fun k block hk => by simp at hk⟩
  | succ count ih =>
      rw [fetch] at h
      split at h
      · cases h
      · next first hfirst =>
        cases hrest : fetch l (height + 1) count with
        | error e => simp [hrest, Except.map] at h
        | ok rest =>
            simp only [hrest, Except.map, Except.ok.injEq] at h
            subst h
            obtain ⟨hlength, hblocks⟩ := ih hrest
            refine ⟨by simp [hlength], ?_⟩
            intro k block hk
            cases k with
            | zero =>
                simp only [List.getElem?_cons_zero, Option.some.injEq] at hk
                exact hk ▸ hfirst
            | succ k =>
                have hheight : height + (k + 1) = height + 1 + k := by omega
                rw [hheight]
                exact hblocks k block (by simpa using hk)

theorem fetch_error {l : Ledger} {height count : Nat} {e : LedgerError}
    (h : fetch l height count = .error e) :
    ∃ k, height ≤ k ∧ k < height + count ∧ l.block k = .error e := by
  induction count generalizing height with
  | zero => cases h
  | succ count ih =>
      rw [fetch] at h
      split at h
      · next hfirst =>
        exact ⟨height, Nat.le_refl _, by omega, by simpa [hfirst] using h⟩
      · cases hrest : fetch l (height + 1) count with
        | error e' =>
            simp only [hrest, Except.map, Except.error.injEq] at h
            subst h
            obtain ⟨k, hk, hlt, hblock⟩ := ih hrest
            exact ⟨k, by omega, by omega, hblock⟩
        | ok rest => simp [hrest, Except.map] at h

theorem examine_of_isEmpty {l : Ledger} {registry : Registry} {block : Block} (index : Nat)
    (txs : List Transaction) (h : registry.isEmpty) :
    examine l registry block index txs = .nothing := by
  cases txs with
  | nil => rfl
  | cons tx rest => simp only [examine, h, if_true]

/-- Looking through a block is a walk that stays in it, or one that may go on behind it. -/
theorem examine_walk {l : Ledger} {registry : Registry} {last height : Nat} {block : Block}
    (range : height ≤ last) (fetched : l.block height = .ok block) {index : Nat}
    {txs : List Transaction} (here : block.transactions.drop index = txs) :
    match examine l registry block index txs with
    | .found signals next =>
        Scanner.Walk l registry last ⟨height, index⟩ (.found signals) ⟨height, next⟩
    | .failed e next => Scanner.Walk l registry last ⟨height, index⟩ (.failed e) ⟨height, next⟩
    | .nothing => ∀ o d, Scanner.Walk l registry last ⟨height + 1, 0⟩ o d →
        Scanner.Walk l registry last ⟨height, index⟩ o d := by
  induction txs generalizing index with
  | nil =>
      intro o d rest
      exact .leave range fetched (List.drop_eq_nil_iff.1 here) rest
  | cons tx rest ih =>
      have hget : block.transactions[index]? = some tx := by
        rw [← List.head?_drop, here, List.head?_cons]
      have hdrop : block.transactions.drop (index + 1) = rest := by
        rw [← List.drop_drop, here]
        rfl
      by_cases hempty : registry.isEmpty
      · -- an empty registry skips the rest of the block, which is to pass each transaction of it
        have hnil : registry = [] := by simpa using hempty
        have hrest := ih hdrop
        simp only [examine_of_isEmpty _ _ hempty] at hrest ⊢
        intro o d walk
        exact .pass range fetched hget (.inl hnil) (hrest o d walk)
      · cases hexamined : signalsOf l registry block index tx with
        | error e =>
            simp only [examine, hempty, hexamined]
            exact .unexamined range fetched hget hexamined
        | ok signals =>
            cases signals with
            | cons signal signals =>
                simp only [examine, hempty, hexamined]
                exact .found range fetched hget hexamined (by simp)
            | nil =>
                have hrest := ih hdrop
                simp only [examine, hempty, hexamined]
                cases hlater : examine l registry block (index + 1) rest with
                | found signals next =>
                    rw [hlater] at hrest
                    exact .pass range fetched hget (.inr hexamined) hrest
                | failed e next =>
                    rw [hlater] at hrest
                    exact .pass range fetched hget (.inr hexamined) hrest
                | nothing =>
                    rw [hlater] at hrest
                    intro o d walk
                    exact .pass range fetched hget (.inr hexamined) (hrest o d walk)

end Scan

namespace Scanner

/-- Filling leaves the scanner aligned with a block at hand, or fails on a block of the range. -/
theorem fill_aligned {l : Ledger} {s : Scanner} (aligned : s.Aligned l)
    (range : s.cursor.height ≤ s.last) :
    match s.fill l with
    | .ok t => t.Aligned l ∧ t.buffer ≠ []
    | .error e => ∃ height, s.cursor.height ≤ height ∧ height ≤ s.last ∧
        l.block height = .error e := by
  cases hbuffer : s.buffer with
  | cons block later =>
      simp only [fill, hbuffer]
      exact ⟨aligned, by simp⟩
  | nil =>
      have hsize : 0 < s.windowSize ∧ s.cursor.height + s.windowSize ≤ s.last + 1 := by
        rw [windowSize]
        omega
      simp only [fill, hbuffer]
      cases hfetch : Scan.fetch l s.cursor.height s.windowSize with
      | error e =>
          obtain ⟨height, hfirst, hlt, hblock⟩ := Scan.fetch_error hfetch
          exact ⟨height, hfirst, by omega, hblock⟩
      | ok blocks =>
          obtain ⟨hlength, hblocks⟩ := Scan.fetch_ok hfetch
          refine ⟨hblocks, ?_⟩
          intro hnil
          have hzero : blocks.length = 0 := congrArg List.length hnil
          omega

theorem search_walk {l : Ledger} {registry : Registry} {left : Nat} {s : Scanner}
    (aligned : s.Aligned l) (hleft : left = s.last + 1 - s.cursor.height) :
    Walk l registry s.last s.cursor (search l registry left s).1
      (search l registry left s).2.cursor ∧
      (search l registry left s).2.Aligned l ∧ (search l registry left s).2.last = s.last := by
  induction left generalizing s with
  | zero => exact ⟨.finished (by omega), aligned, rfl⟩
  | succ left ih =>
      have range : s.cursor.height ≤ s.last := by omega
      have hfill := fill_aligned aligned range
      rw [search]
      cases hfilled : s.fill l with
      | error e =>
          rw [hfilled] at hfill
          obtain ⟨height, hfirst, hlast, hblock⟩ := hfill
          exact ⟨.unfetched hfirst hlast hblock, aligned, rfl⟩
      | ok t =>
          rw [hfilled] at hfill
          obtain ⟨taligned, hbuffer⟩ := hfill
          have hcursor := fill_cursor hfilled
          have hlast := fill_last hfilled
          dsimp only
          split
          · next hnil => exact absurd hnil hbuffer
          · next block later hcons =>
            have fetched : l.block s.cursor.height = .ok block := hcursor ▸ taligned.head hcons
            have hexamine := @Scan.examine_walk l registry t.last _ block (hlast ▸ range) fetched
              s.cursor.index _ rfl
            rw [hcursor, ← hlast]
            split <;> rename_i heq <;> rw [heq] at hexamine
            · exact ⟨hexamine, fun k b hk => hcursor ▸ taligned k b hk, rfl⟩
            · exact ⟨hexamine, fun k b hk => hcursor ▸ taligned k b hk, rfl⟩
            · have hnext := ih (s := { t with buffer := later, cursor := ⟨s.cursor.height + 1, 0⟩ })
                (hcursor ▸ taligned.tail hcons) (by dsimp only; omega)
              obtain ⟨walk, hnextAligned, hnextLast⟩ := hnext
              exact ⟨hexamine _ _ walk, hnextAligned, hnextLast⟩

/-- A search from an aligned scanner is a walk, and leaves the scanner aligned. -/
theorem next_walk {l : Ledger} (registry : Registry) {s : Scanner} (aligned : s.Aligned l) :
    Walk l registry s.last s.cursor (s.next l registry).1 (s.next l registry).2.cursor ∧
      (s.next l registry).2.Aligned l ∧ (s.next l registry).2.last = s.last :=
  search_walk aligned rfl

end Scanner

/-! ## On a ledger that does not fail in the range -/

namespace Cursor

theorem past_of_le {c : Cursor} {last : Nat} (h : c.height ≤ last) : c.past last = ⟨last + 1, 0⟩ :=
  if_pos h

theorem past_of_lt {c : Cursor} {last : Nat} (h : last < c.height) : c.past last = c :=
  if_neg (Nat.not_le.2 h)

/-- Behind a block of the range the end is the same. -/
theorem past_next {height last : Nat} (h : height ≤ last) :
    Cursor.past ⟨height + 1, 0⟩ last = ⟨last + 1, 0⟩ := by
  rw [past]
  split
  · rfl
  · next hpast =>
    have hheight : height = last := by
      dsimp only at hpast
      omega
    rw [hheight]

/-- Only where the range ends matters, not through which smaller range the scan went. -/
theorem past_past {c : Cursor} {last tip : Nat} (h : last ≤ tip) :
    (c.past last).past tip = c.past tip := by
  simp only [past]
  split
  · split
    · simp [show c.height ≤ tip by omega]
    · have hlast : last = tip := by
        dsimp only at *
        omega
      simp [show c.height ≤ tip by omega, hlast]
  · rfl

end Cursor

namespace Ledger

variable {l : Ledger}

theorem visitsFrom_of_lt {c : Cursor} {last : Nat} (h : last < c.height) :
    l.visitsFrom c last = [] :=
  if_neg (Nat.not_le.2 h)

/-- A scan of whole blocks. -/
theorem visitsFrom_start (first last : Nat) :
    l.visitsFrom ⟨first, 0⟩ last = l.visits first last := by
  rw [visitsFrom]
  split
  · next h => rw [visits_cons h, List.drop_zero]
  · next h => rw [visits_of_lt (Nat.not_le.1 h)]

theorem visitsFrom_of_getElem? {height index last : Nat} {block : Block} {tx : Transaction}
    (numbered : l.Numbered) (range : height ≤ last) (fetched : l.block height = .ok block)
    (here : block.transactions[index]? = some tx) :
    l.visitsFrom ⟨height, index⟩ last =
      ⟨height, block.time, index, tx⟩ :: l.visitsFrom ⟨height, index + 1⟩ last := by
  simp only [visitsFrom, range, if_true, visitsAt, fetched]
  rw [Block.drop_visits_of_getElem? here, numbered height block fetched]
  rfl

theorem visitsFrom_of_length_le {height index last : Nat} {block : Block}
    (range : height ≤ last) (fetched : l.block height = .ok block)
    (ended : block.transactions.length ≤ index) :
    l.visitsFrom ⟨height, index⟩ last = l.visitsFrom ⟨height + 1, 0⟩ last := by
  rw [visitsFrom_start]
  simp only [visitsFrom, range, if_true, visitsAt, fetched]
  rw [Block.drop_visits_of_length_le ended, List.nil_append]

/-- What is left behind a range is what was left before it, without the range. -/
theorem visitsFrom_past (c : Cursor) {last tip : Nat} (h : last ≤ tip) :
    l.visitsFrom c tip = l.visitsFrom c last ++ l.visitsFrom (c.past last) tip := by
  by_cases hc : c.height ≤ last
  · have htip : c.height ≤ tip := Nat.le_trans hc h
    rw [Cursor.past_of_le hc, visitsFrom_start]
    simp only [visitsFrom, hc, htip, if_true, List.append_assoc]
    rw [visits_append (Nat.succ_le_succ hc) h]
  · have hlt : last < c.height := Nat.not_le.1 hc
    rw [visitsFrom_of_lt hlt, Cursor.past_of_lt hlt, List.nil_append]

theorem visitsFrom_of_on {v : Visit} {last : Nat} (numbered : l.Numbered) (on : v.On l)
    (range : v.height ≤ last) : l.visitsFrom v.cursor last = v :: l.visitsFrom v.next last := by
  obtain ⟨block, fetched, htime, here⟩ := on
  rw [Visit.cursor, visitsFrom_of_getElem? numbered range fetched here, htime]
  rfl

theorem on_of_mem_visits {first last : Nat} {v : Visit} (numbered : l.Numbered)
    (h : v ∈ l.visits first last) : v.On l ∧ first ≤ v.height ∧ v.height ≤ last := by
  obtain ⟨height, hheight, hv⟩ := List.mem_flatMap.1 h
  have hrange := List.mem_range'_1.1 hheight
  rw [visitsAt] at hv
  split at hv
  · next block fetched =>
    obtain ⟨⟨tx, index⟩, hentry, rfl⟩ := List.mem_map.1 hv
    have hplace : block.height = height := numbered height block fetched
    refine ⟨⟨block, ?_, rfl, List.mem_zipIdx_iff_getElem?.1 hentry⟩, ?_, ?_⟩
    · rw [hplace]
      exact fetched
    all_goals
      dsimp only
      omega
  · cases hv

theorem on_of_mem_visitsFrom {c : Cursor} {last : Nat} {v : Visit} (numbered : l.Numbered)
    (h : v ∈ l.visitsFrom c last) : v.On l ∧ c.height ≤ last ∧ v.height ≤ last := by
  rw [visitsFrom] at h
  split at h
  · next range =>
    have hmem : v ∈ l.visits c.height last := by
      rw [visits_cons range]
      rcases List.mem_append.1 h with hfirst | hlater
      · exact List.mem_append_left _ (List.mem_of_mem_drop hfirst)
      · exact List.mem_append_right _ hlater
    obtain ⟨on, -, hlast⟩ := on_of_mem_visits numbered hmem
    exact ⟨on, range, hlast⟩
  · cases h

namespace Covers

variable {last : Nat}

theorem spentScripts_eq (h : l.Covers last) (inputs : List TxInput) :
    Scan.spentScripts l inputs = .ok (inputs.filterMap fun input => l.script? input.outpoint) := by
  induction inputs with
  | nil => rfl
  | cons input rest ih =>
      cases hscript : l.scriptAt input.outpoint with
      | ok found => cases found <;> simp [Scan.spentScripts, script?, hscript, ih, Except.map]
      | error e =>
          obtain ⟨txid, rfl⟩ := h.scriptAt_answered _ _ hscript
          simp [Scan.spentScripts, script?, hscript, ih]

theorem signalsOf_eq (h : l.Covers last) (numbered : l.Numbered) (registry : Registry)
    {height : Nat} {block : Block} (fetched : l.block height = .ok block) (index : Nat)
    (tx : Transaction) :
    Scan.signalsOf l registry block index tx =
      .ok ((Visit.watched l registry ⟨height, block.time, index, tx⟩).map
        (Visit.signal ⟨height, block.time, index, tx⟩)) := by
  have hspent : ∀ b : Beacon, (tx.inputs.filterMap fun input => l.script? input.outpoint).contains
      b.script = l.spends tx b.script := by
    intro b
    rw [Bool.eq_iff_iff]
    simp [spends, List.mem_filterMap]
  have hheight : block.height = height := numbered height block fetched
  simp only [Scan.signalsOf, h.spentScripts_eq, bind, Except.bind, hheight, hspent]
  rfl

/-- What is passed is not watched. -/
theorem watched_eq_nil (h : l.Covers last) (numbered : l.Numbered) {registry : Registry}
    {height : Nat}
    {block : Block} (fetched : l.block height = .ok block) {index : Nat} {tx : Transaction}
    (examined : registry = [] ∨ Scan.signalsOf l registry block index tx = .ok []) :
    Visit.watched l registry ⟨height, block.time, index, tx⟩ = [] := by
  rcases examined with rfl | examined
  · rfl
  · rw [h.signalsOf_eq numbered registry fetched] at examined
    simpa using examined

end Covers

end Ledger

namespace Scanner.Walk

variable {l : Ledger} {last : Nat} {registry : Registry} {c d : Cursor} {o : Outcome}

/-- A walk searches the transactions that are left for the first one that is watched. What it passes
does not depend on where the range ends behind it. -/
theorem searches (walk : Walk l registry last c o d) (h : l.Covers last) (numbered : l.Numbered) :
    match o with
    | .found signals => ∃ (passed : List Visit) (v : Visit), v.On l ∧ v.height ≤ last ∧
        (∀ top, last ≤ top → l.visitsFrom c top = passed ++ l.visitsFrom v.cursor top) ∧
        (∀ u ∈ passed, u.watched l registry = []) ∧ v.watched l registry ≠ [] ∧
        signals = (v.watched l registry).map v.signal ∧ d = v.next
    | .finished => (∀ u ∈ l.visitsFrom c last, u.watched l registry = []) ∧ d = c.past last
    | .failed _ => False := by
  induction walk with
  | finished range =>
      rw [Ledger.visitsFrom_of_lt range, Cursor.past_of_lt range]
      exact ⟨by simp, rfl⟩
  | @found height index block tx signals range fetched here examined some =>
      rw [h.signalsOf_eq numbered registry fetched] at examined
      cases examined
      exact ⟨[], ⟨height, block.time, index, tx⟩, ⟨block, fetched, rfl, here⟩, range,
        fun _ _ => rfl, by simp, by simpa using some, rfl, rfl⟩
  | unexamined range fetched here examined =>
      rw [h.signalsOf_eq numbered registry fetched] at examined
      cases examined
  | unfetched first range fetched =>
      obtain ⟨block, hblock⟩ := h.block_ok _ range
      rw [hblock] at fetched
      cases fetched
  | @pass height index block tx o d range fetched here examined rest ih =>
      have hpassed := h.watched_eq_nil numbered fetched examined
      have hvisits : ∀ top, last ≤ top → l.visitsFrom ⟨height, index⟩ top = _ := fun top htop =>
        Ledger.visitsFrom_of_getElem? numbered (Nat.le_trans range htop) fetched here
      cases o with
      | found signals =>
          obtain ⟨passed, v, hon, hrange, hv, hall, hsome, hsignals, hd⟩ := ih
          exact ⟨_ :: passed, v, hon, hrange,
            fun top htop => by rw [hvisits top htop, hv top htop, List.cons_append],
            List.forall_mem_cons.2 ⟨hpassed, hall⟩, hsome, hsignals, hd⟩
      | finished =>
          obtain ⟨hall, hd⟩ := ih
          refine ⟨?_, ?_⟩
          · rw [hvisits last (Nat.le_refl _)]
            exact List.forall_mem_cons.2 ⟨hpassed, hall⟩
          · rw [hd, Cursor.past_of_le range, Cursor.past_of_le range]
      | failed e => exact ih
  | @leave height index block o d range fetched ended rest ih =>
      have hvisits : ∀ top, last ≤ top →
          l.visitsFrom ⟨height, index⟩ top = l.visitsFrom ⟨height + 1, 0⟩ top := fun top htop =>
        Ledger.visitsFrom_of_length_le (Nat.le_trans range htop) fetched ended
      cases o with
      | found signals =>
          obtain ⟨passed, v, hon, hrange, hv, hrest⟩ := ih
          exact ⟨passed, v, hon, hrange, fun top htop => by rw [hvisits top htop, hv top htop],
            hrest⟩
      | finished =>
          obtain ⟨hall, hd⟩ := ih
          refine ⟨by rwa [hvisits last (Nat.le_refl _)], ?_⟩
          rw [hd, Cursor.past_of_le (c := ⟨height, index⟩) range, Cursor.past_next range]
      | failed e => exact ih

end Scanner.Walk

end AnchoredDid
