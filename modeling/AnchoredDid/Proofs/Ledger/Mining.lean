import AnchoredDid.Proofs.Scan.Restart
import Mathlib.Algebra.GroupWithZero.Nat

/-!
# The index of a chain agrees with its blocks

A chain is mined by requests for one block or for some empty ones, which come to mining one block
after the other (`Chain.exists_performAll`). The index has an entry for each transaction of the
blocks, the newest first (`Chain.Mined.index_eq`), so an id leads to the last transaction mined with
it (`Chain.Mined.transaction?_eq`). On a ledger with these answers, asking whether a transaction
spends from a script is the same as examining it for the beacons of that script
(`Ledger.spendsFrom_eq`, `Ledger.Covers.exists_signalsOf`).
-/

namespace AnchoredDid

/-- A request to a chain: for a block, or for some empty ones at equal distances in time. -/
inductive Mining where
  | block (time : Nat) (transactions : List Transaction)
  | empty (count spacing : Nat)

namespace Mining

/-- How many blocks are mined. -/
def count : Mining → Nat
  | block _ _ => 1
  | empty count _ => count

/-- The transactions that are mined, in order. -/
def transactions : Mining → List Transaction
  | block _ transactions => transactions
  | empty _ _ => []

end Mining

namespace Chain

def perform (c : Chain) : Mining → Chain
  | .block time transactions => c.mine time transactions
  | .empty count spacing => c.mineEmpty count spacing

/-- The chain after some requests, one after the other. -/
def performAll (c : Chain) (requests : List Mining) : Chain :=
  requests.foldl perform c

theorem mineAll_append (c : Chain) (blocks later : List (Nat × List Transaction)) :
    c.mineAll (blocks ++ later) = (c.mineAll blocks).mineAll later :=
  List.foldl_append

theorem performAll_append (c : Chain) (requests more : List Mining) :
    c.performAll (requests ++ more) = (c.performAll requests).performAll more :=
  List.foldl_append

/-- Empty blocks are mined one by one, each at its own time. -/
theorem exists_mineEmpty (c : Chain) (count spacing : Nat) :
    ∃ blocks : List (Nat × List Transaction), c.mineEmpty count spacing = c.mineAll blocks ∧
      blocks.length = count ∧ blocks.flatMap Prod.snd = [] := by
  induction count generalizing c with
  | zero => exact ⟨[], rfl, rfl, rfl⟩
  | succ count ih =>
      obtain ⟨blocks, hmined, hlength, hnone⟩ := ih (c.mine ((c.lastTime + spacing) % Word.size) [])
      refine ⟨((c.lastTime + spacing) % Word.size, []) :: blocks, ?_, ?_, ?_⟩
      · rw [mineEmpty, hmined, mineAll_cons]
      · rw [List.length_cons, hlength]
      · rw [List.flatMap_cons, hnone, List.append_nil]

theorem exists_perform (c : Chain) (request : Mining) :
    ∃ blocks : List (Nat × List Transaction), c.perform request = c.mineAll blocks ∧
      blocks.length = request.count ∧ blocks.flatMap Prod.snd = request.transactions := by
  cases request with
  | block time transactions =>
      refine ⟨[(time, transactions)], rfl, rfl, ?_⟩
      rw [List.flatMap_cons, List.flatMap_nil, List.append_nil]
      rfl
  | empty count spacing => exact c.exists_mineEmpty count spacing

/-- Requests come to mining blocks one after the other: as many as are asked for, with the
transactions that are given. -/
theorem exists_performAll (c : Chain) (requests : List Mining) :
    ∃ blocks : List (Nat × List Transaction), c.performAll requests = c.mineAll blocks ∧
      blocks.length = (requests.map Mining.count).sum ∧
      blocks.flatMap Prod.snd = requests.flatMap Mining.transactions := by
  induction requests generalizing c with
  | nil => exact ⟨[], rfl, rfl, rfl⟩
  | cons request requests ih =>
      obtain ⟨first, hfirst, hcount, htransactions⟩ := c.exists_perform request
      obtain ⟨rest, hrest, hcounts, hothers⟩ := ih (c.perform request)
      refine ⟨first ++ rest, ?_, ?_, ?_⟩
      · rw [mineAll_append, ← hfirst, ← hrest]
        rfl
      · rw [List.length_append, hcount, hcounts, List.map_cons, List.sum_cons]
      · rw [List.flatMap_append, htransactions, hothers, List.flatMap_cons]

/-! ## The index -/

/-- A block's entries stand in front of the others, the last one first. -/
theorem indexed_eq (height : Nat) (transactions : List Transaction)
    (index : List (Digest × Nat × Nat)) :
    indexed height transactions index =
      (transactions.zipIdx.map fun entry => (entry.1.id, height, entry.2)).reverse ++ index :=
  List.foldl_flip_cons_eq_append

end Chain

/-- What the index has for a transaction at its place. -/
def Visit.entry (v : Visit) : Digest × Nat × Nat :=
  (v.transaction.id, v.height, v.index)

theorem Block.map_transaction_visits (b : Block) :
    b.visits.map Visit.transaction = b.transactions := by
  rw [visits, List.map_map]
  exact List.zipIdx_map_fst 0 b.transactions

namespace Chain.Mined

variable {c : Chain}

theorem size_eq (h : c.Mined) : c.blocks.size = c.tip + 1 := by
  have hpos := h.size_pos
  rw [tip]
  omega

/-- The transactions of the chain, each at its place, have the entries of the index. -/
theorem index_eq (h : c.Mined) : c.index = ((c.ledger.visits 0 c.tip).map Visit.entry).reverse := by
  induction h with
  | start => rfl
  | @mine c time transactions h ih =>
      have hindex :
          (c.mine time transactions).index = indexed (c.tip + 1) transactions c.index := by
        rw [← h.size_eq]
        rfl
      rw [hindex, indexed_eq, ih, h.tip_mine, h.visits_mine (Nat.zero_le _), List.map_append,
        List.reverse_append, Block.visits, List.map_map]
      rfl

/-- The blocks hold the transactions that were mined, in their order. -/
theorem map_transaction_visits (h : c.Mined) (blocks : List (Nat × List Transaction)) :
    ((c.mineAll blocks).ledger.visits 0 (c.mineAll blocks).tip).map Visit.transaction =
      (c.ledger.visits 0 c.tip).map Visit.transaction ++ blocks.flatMap Prod.snd := by
  induction blocks generalizing c with
  | nil => exact (List.append_nil _).symm
  | cons b blocks ih =>
      rw [mineAll_cons, ih (h.mine b.1 b.2), h.tip_mine, h.visits_mine (Nat.zero_le _),
        List.map_append, Block.map_transaction_visits, List.append_assoc, List.flatMap_cons]

theorem getElem?_blocks {height : Nat} {block : Block}
    (fetched : c.ledger.block height = .ok block) : c.blocks[height]? = some block := by
  simp only [ledger] at fetched
  split at fetched
  · next found hfound => rw [hfound, Except.ok.inj fetched]
  · cases fetched

/-- Under an id the chain has the last of the transactions with it. -/
theorem transaction?_eq (h : c.Mined) (txid : Digest) :
    c.transaction? txid =
      ((c.ledger.visits 0 c.tip).map Visit.transaction).reverse.find? fun tx => tx.id = txid := by
  have hsame : ((fun entry : Digest × Nat × Nat => decide (entry.1 = txid)) ∘ Visit.entry) =
      (fun tx : Transaction => decide (tx.id = txid)) ∘ Visit.transaction := rfl
  rw [transaction?, h.index_eq, ← List.map_reverse, ← List.map_reverse, List.find?_map,
    List.find?_map, hsame]
  cases hfound : (c.ledger.visits 0 c.tip).reverse.find?
      ((fun tx : Transaction => decide (tx.id = txid)) ∘ Visit.transaction) with
  | none => rfl
  | some v =>
      have hmem : v ∈ c.ledger.visits 0 c.tip :=
        List.mem_reverse.1 (List.mem_of_find?_eq_some hfound)
      obtain ⟨⟨block, fetched, -, here⟩, -⟩ := Ledger.on_of_mem_visits h.faultless.numbered hmem
      simp [Visit.entry, getElem?_blocks fetched, here]

end Chain.Mined

/-! ## What is spent -/

namespace Ledger

variable {l : Ledger} {tx : Transaction}

/-- The ledger has each transaction that is spent from. Null outputs belong to none. -/
def Known (l : Ledger) (tx : Transaction) : Prop :=
  ∀ input ∈ tx.inputs, input.outpoint.isNull = true ∨
    ∃ found, l.transaction input.outpoint.txid = .ok (some found)

theorem scriptAt_of_known {o : OutPoint}
    (h : o.isNull = true ∨ ∃ found, l.transaction o.txid = .ok (some found)) :
    l.scriptAt o = .ok (l.script? o) := by
  have hfound : ∃ script, l.scriptAt o = .ok script := by
    cases hnull : o.isNull with
    | true => exact ⟨none, by simp [scriptAt, hnull]⟩
    | false =>
        rw [hnull] at h
        obtain ⟨found, hfound⟩ := h.resolve_left Bool.false_ne_true
        exact ⟨_, scriptAt_of_found hnull hfound⟩
  obtain ⟨script, hscript⟩ := hfound
  rw [script?, hscript]

theorem anySpends_eq {inputs : List TxInput} (script : Bytes)
    (h : ∀ input ∈ inputs, l.scriptAt input.outpoint = .ok (l.script? input.outpoint)) :
    l.anySpends script inputs =
      .ok (inputs.any fun input => l.script? input.outpoint = some script) := by
  induction inputs with
  | nil => rfl
  | cons input inputs ih =>
      obtain ⟨hinput, hrest⟩ := List.forall_mem_cons.1 h
      simp only [anySpends, hinput, ih hrest, List.any_cons]
      split
      · next hfound => simp [hfound]
      · next hfound => simp [hfound]

/-- The question whether a transaction spends from a script has an answer if the ledger has what
the transaction spends from. -/
theorem spendsFrom_eq (known : l.Known tx) (script : Bytes) :
    l.spendsFrom tx script = .ok (l.spends tx script) :=
  anySpends_eq script fun input hinput => scriptAt_of_known (known input hinput)

/-- Of the beacons of a script the examination of a transaction reports either all or none. -/
theorem Covers.exists_signalsOf {last : Nat} (h : l.Covers last) {registry : Registry} {b : Beacon}
    (hb : b ∈ registry) (block : Block) (index : Nat) (tx : Transaction) :
    ∃ signals, Scan.signalsOf l registry block index tx = .ok signals ∧
      (signals.any fun s => s.beacon.script = b.script) = l.spends tx b.script := by
  refine ⟨_, Scan.signalsOf_eq_ok_iff.2 ⟨_, h.spentScripts_eq tx.inputs, rfl⟩, ?_⟩
  rw [Bool.eq_iff_iff, spends]
  simp only [List.any_map, List.any_filter, List.any_eq_true, Function.comp_apply,
    Bool.and_eq_true, decide_eq_true_eq, List.contains_iff_mem, List.mem_filterMap]
  constructor
  · rintro ⟨other, -, ⟨input, hinput, hscript⟩, hsame⟩
    exact ⟨input, hinput, hsame ▸ hscript⟩
  · rintro ⟨input, hinput, hscript⟩
    exact ⟨b, hb, ⟨input, hinput, hscript⟩, rfl⟩

/-- A scan reports a beacon for a transaction of its range if and only if the transaction spends
from it. -/
theorem Covers.signal_mem_collect_iff {first last : Nat} (h : l.Covers last)
    (numbered : l.Numbered) {v : Visit} (on : v.On l) (hfirst : first ≤ v.height)
    (hlast : v.height ≤ last) {registry : Registry} {b : Beacon} (hb : b ∈ registry)
    (window : Nat) :
    ∃ signals, (Scanner.start first last window).collect l registry = .ok signals ∧
      (v.signal b ∈ signals ↔ l.spends v.transaction b.script = true) := by
  refine ⟨_, Scanner.collect_eq h numbered (Scanner.aligned_resume l ⟨first, 0⟩ last window)
    registry, ?_⟩
  simp only [List.mem_flatMap, List.mem_map]
  constructor
  · rintro ⟨u, -, other, hwatched, hsignal⟩
    cases u
    cases v
    cases hsignal
    exact (List.mem_filter.1 hwatched).2
  · intro hspends
    have hrange : ¬ v.cursor.Before ⟨first, 0⟩ := by
      simp only [Cursor.Before, Visit.cursor]
      omega
    exact ⟨v, (mem_visitsFrom_iff numbered).2 ⟨on, hrange, hlast⟩, b,
      List.mem_filter.2 ⟨hb, hspends⟩, rfl⟩

/-- What a ledger answers after these requests to the chain behind it. -/
structure Records (l : Ledger) (requests : List Mining) : Prop where
  /-- The blocks that were mined are counted; there was one more before. -/
  tip_eq : l.tip = .ok (requests.map Mining.count).sum
  block_iff : ∀ height, (∃ block, l.block height = .ok block) ↔
    height ≤ (requests.map Mining.count).sum
  height_eq : ∀ height block, l.block height = .ok block → block.height = height
  /-- Under an id stands the last transaction that was mined with it. -/
  transaction_eq : ∀ txid, l.transaction txid =
    .ok ((requests.flatMap Mining.transactions).reverse.find? fun tx => tx.id = txid)
  transaction_iff : ∀ txid, (∃ tx, l.transaction txid = .ok (some tx)) ↔
    ∃ height block, l.block height = .ok block ∧ ∃ tx ∈ block.transactions, tx.id = txid
  id_eq : ∀ txid tx, l.transaction txid = .ok (some tx) → tx.id = txid
  /-- An examination reports a beacon of the script, if the registry has one. -/
  spendsFrom_eq : ∀ tx, l.Known tx → ∀ (registry : Registry), ∀ b ∈ registry, ∀ block index,
    ∃ signals, Scan.signalsOf l registry block index tx = .ok signals ∧
      l.spendsFrom tx b.script = .ok (signals.any fun s => s.beacon.script = b.script)
  /-- So does a scan, if the transaction is in its range. -/
  spendsFrom_iff : ∀ v : Visit, v.On l → l.Known v.transaction → ∀ first last window,
    first ≤ v.height → v.height ≤ last → last ≤ (requests.map Mining.count).sum →
    ∀ (registry : Registry), ∀ b ∈ registry,
      ∃ signals, (Scanner.start first last window).collect l registry = .ok signals ∧
        (l.spendsFrom v.transaction b.script = .ok true ↔ v.signal b ∈ signals)

end Ledger

namespace Chain

theorem mined_performAll {c : Chain} (h : c.Mined) (requests : List Mining) :
    (c.performAll requests).Mined := by
  obtain ⟨blocks, hblocks, -⟩ := c.exists_performAll requests
  rw [hblocks]
  exact h.mineAll blocks

theorem Mined.le_tip {c : Chain} (h : c.Mined) {height : Nat} {block : Block}
    (fetched : c.ledger.block height = .ok block) : height ≤ c.tip := by
  have hsize := (Array.getElem?_eq_some_iff.1 (getElem?_blocks fetched)).1
  rw [h.size_eq] at hsize
  exact Nat.le_of_lt_succ hsize

/-- What is fetched once is fetched ever after. -/
theorem Mined.block_performAll {c : Chain} (h : c.Mined) (more : List Mining) {height : Nat}
    {block : Block} (fetched : c.ledger.block height = .ok block) :
    (c.performAll more).ledger.block height = .ok block := by
  obtain ⟨blocks, hblocks, -⟩ := c.exists_performAll more
  rw [hblocks, h.block_mineAll_of_le blocks (h.le_tip fetched), fetched]

/-- The transactions at their places are those of the blocks. -/
theorem Mined.mem_transactions_iff {c : Chain} (h : c.Mined) {tx : Transaction} :
    tx ∈ (c.ledger.visits 0 c.tip).map Visit.transaction ↔
      ∃ height block, c.ledger.block height = .ok block ∧ tx ∈ block.transactions := by
  constructor
  · intro htx
    obtain ⟨v, hv, rfl⟩ := List.mem_map.1 htx
    obtain ⟨⟨block, fetched, -, here⟩, -⟩ := Ledger.on_of_mem_visits h.faultless.numbered hv
    exact ⟨v.height, block, fetched, List.mem_of_getElem? here⟩
  · rintro ⟨height, block, fetched, htx⟩
    obtain ⟨i, here⟩ := List.mem_iff_getElem?.1 htx
    have hmem : ⟨height, block.time, i, tx⟩ ∈ c.ledger.visitsFrom ⟨0, 0⟩ c.tip :=
      (Ledger.mem_visitsFrom_iff h.faultless.numbered).2
        ⟨⟨block, fetched, rfl, here⟩, by simp [Cursor.Before, Visit.cursor], h.le_tip fetched⟩
    rw [Ledger.visitsFrom_start] at hmem
    exact List.mem_map.2 ⟨_, hmem, rfl⟩

/-- An id leads to a transaction if and only if a block holds one with it. -/
theorem Mined.exists_transaction?_iff {c : Chain} (h : c.Mined) {txid : Digest} :
    (∃ tx, c.transaction? txid = some tx) ↔
      ∃ height block, c.ledger.block height = .ok block ∧
      ∃ tx ∈ block.transactions, tx.id = txid := by
  simp only [h.transaction?_eq, ← Option.isSome_iff_exists, List.find?_isSome, List.mem_reverse,
    decide_eq_true_eq, h.mem_transactions_iff]
  constructor
  · rintro ⟨tx, ⟨height, block, fetched, htx⟩, hid⟩
    exact ⟨height, block, fetched, tx, htx, hid⟩
  · rintro ⟨height, block, fetched, tx, htx, hid⟩
    exact ⟨tx, ⟨height, block, fetched, htx⟩, hid⟩

theorem tip_performAll (requests : List Mining) :
    (start.performAll requests).tip = (requests.map Mining.count).sum := by
  obtain ⟨blocks, hblocks, hlength, -⟩ := start.exists_performAll requests
  rw [hblocks, Mined.start.tip_mineAll, hlength]
  exact Nat.zero_add _

theorem map_transaction_performAll (requests : List Mining) :
    ((start.performAll requests).ledger.visits 0 (start.performAll requests).tip).map
      Visit.transaction = requests.flatMap Mining.transactions := by
  obtain ⟨blocks, hblocks, -, htransactions⟩ := start.exists_performAll requests
  rw [hblocks, Mined.start.map_transaction_visits, htransactions]
  rfl

theorem transaction_performAll (requests : List Mining) (txid : Digest) :
    (start.performAll requests).ledger.transaction txid =
      .ok ((requests.flatMap Mining.transactions).reverse.find? fun tx => tx.id = txid) := by
  rw [← map_transaction_performAll]
  exact congrArg Except.ok ((mined_performAll Mined.start requests).transaction?_eq txid)

/-- The index of a chain and its blocks agree, whatever was asked of it: the tip counts the blocks,
each block has the height that it is asked for by and stays as it is, an id leads to the last
transaction that was mined with it, and a transaction whose previous outputs are known spends from a
script if and only if a beacon of the script is reported for it. -/
theorem performAll_agrees (requests : List Mining) :
    (start.performAll requests).ledger.Records requests ∧
      ∀ (more : List Mining) (height : Nat) (block : Block),
        (start.performAll requests).ledger.block height = .ok block →
          (start.performAll (requests ++ more)).ledger.block height = .ok block := by
  have mined := mined_performAll Mined.start requests
  have faultless := mined.faultless
  have htip := tip_performAll requests
  refine ⟨{
    tip_eq := congrArg Except.ok htip
    block_iff := ?blocks
    height_eq := faultless.numbered
    transaction_eq := transaction_performAll requests
    transaction_iff := ?held
    id_eq := ?ids
    spendsFrom_eq := ?examined
    spendsFrom_iff := ?scanned }, ?later⟩
  case blocks =>
    intro height
    rw [← htip]
    exact ⟨fun ⟨_, fetched⟩ => mined.le_tip fetched, faultless.block_ok height⟩
  case held =>
    intro txid
    rw [← mined.exists_transaction?_iff]
    simp only [ledger, Except.ok.injEq]
  case ids =>
    intro txid tx htx
    rw [transaction_performAll, Except.ok.injEq] at htx
    simpa using List.find?_some htx
  case examined =>
    intro tx known registry b hb block index
    obtain ⟨signals, hsignals, hreported⟩ :=
      (faultless.covers (Nat.le_refl _)).exists_signalsOf hb block index tx
    exact ⟨signals, hsignals, by rw [Ledger.spendsFrom_eq known, hreported]⟩
  case scanned =>
    intro v on known first last window hfirst hlast hbound registry b hb
    rw [← htip] at hbound
    obtain ⟨signals, hsignals, hreported⟩ :=
      (faultless.covers hbound).signal_mem_collect_iff faultless.numbered on hfirst hlast hb window
    exact ⟨signals, hsignals, by rw [Ledger.spendsFrom_eq known, Except.ok.injEq, hreported]⟩
  case later =>
    intro more height block fetched
    rw [performAll_append]
    exact mined.block_performAll more fetched

namespace Sample

open Scan.Sample (beacon funding spending)

/-- The funding transaction is mined twice, the second time behind the one that spends it. -/
def requests : List Mining := [.block 10 [funding], .empty 1 5, .block 20 [spending, funding]]

def ledger : Ledger := (start.performAll requests).ledger

def visit : Visit := ⟨3, 20, 0, spending⟩

theorem on_visit : visit.On ledger := ⟨_, rfl, rfl, rfl⟩

theorem transaction_funding : ledger.transaction funding.id = .ok (some funding) := by
  have hlast : (requests.flatMap Mining.transactions).reverse = [funding, spending, funding] := rfl
  rw [ledger, transaction_performAll, hlast]
  exact congrArg Except.ok (List.find?_cons_of_pos (by simp))

theorem known_spending : ledger.Known spending :=
  List.forall_mem_singleton.2 (.inr ⟨funding, transaction_funding⟩)

theorem spendsFrom_spending : ledger.spendsFrom spending beacon.script = .ok true := by
  have hscript : ledger.scriptAt ⟨funding.id, 0⟩ = .ok (some beacon.script) :=
    Ledger.scriptAt_of_found Scan.Sample.not_isNull transaction_funding
  rw [Ledger.spendsFrom_eq known_spending]
  exact congrArg Except.ok
    (Ledger.spends_iff (v := visit).2 ⟨_, List.mem_singleton_self _, hscript⟩)

end Sample

/-- A transaction whose funding was mined twice is reported by a scan of the whole chain, whose last
block stays as it is behind two more. -/
theorem performAll_agrees_sample :
    Sample.visit.On Sample.ledger ∧ Sample.ledger.Known Scan.Sample.spending ∧
      Sample.ledger.tip = .ok 3 ∧
      Sample.ledger.spendsFrom Scan.Sample.spending Scan.Sample.beacon.script = .ok true ∧
      ∃ signals, (Scanner.start 0 3 8).collect Sample.ledger [Scan.Sample.beacon] = .ok signals ∧
        Sample.visit.signal Scan.Sample.beacon ∈ signals ∧
      ∃ block, Sample.ledger.block 3 = .ok block ∧
        (start.performAll (Sample.requests ++ [.empty 2 5])).ledger.block 3 = .ok block := by
  obtain ⟨records, stays⟩ := performAll_agrees Sample.requests
  obtain ⟨signals, hsignals, hreported⟩ := records.spendsFrom_iff Sample.visit Sample.on_visit
    Sample.known_spending 0 3 8 (by decide) (by decide) (by decide) [Scan.Sample.beacon]
    Scan.Sample.beacon List.mem_cons_self
  obtain ⟨block, fetched⟩ := (records.block_iff 3).2 (Nat.le_refl _)
  exact ⟨Sample.on_visit, Sample.known_spending, records.tip_eq, Sample.spendsFrom_spending,
    signals, hsignals, hreported.1 Sample.spendsFrom_spending, block, fetched,
    stays _ 3 block fetched⟩

end Chain

end AnchoredDid
