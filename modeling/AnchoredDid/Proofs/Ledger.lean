import AnchoredDid.Ledger

/-!
# Ledgers that never fail

`Ledger.Faultless` describes a ledger that answers every question a scan up to its tip can ask. It
is a fact about the answers only, not about how they are stored; `Chain.Mined.faultless` shows that
every chain grown by mining is such a ledger. On one, `Ledger.script?` and `Ledger.visits` say
without a failure case which scripts are known and which transactions there are, in the order of
the ledger.
-/

namespace AnchoredDid

/-- The null outpoint has the last index that there is. -/
theorem OutPoint.isNull_of_index_ne {txid : Digest} {i : Nat} (h : i ≠ 0xffffffff) :
    OutPoint.isNull ⟨txid, i⟩ = false :=
  decide_eq_false fun hnull => h (congrArg OutPoint.index hnull)

/-- A transaction at its place on the ledger. -/
structure Visit where
  height : Nat
  time : Nat
  index : Nat
  transaction : Transaction
  deriving DecidableEq

/-- The transactions of a block in order. -/
def Block.visits (b : Block) : List Visit :=
  b.transactions.zipIdx.map fun entry => ⟨b.height, b.time, entry.2, entry.1⟩

theorem Block.drop_visits_of_getElem? {b : Block} {i : Nat} {tx : Transaction}
    (h : b.transactions[i]? = some tx) :
    b.visits.drop i = ⟨b.height, b.time, i, tx⟩ :: b.visits.drop (i + 1) := by
  obtain ⟨hi, rfl⟩ := List.getElem?_eq_some_iff.1 h
  have hlength : i < b.visits.length := by simpa [visits] using hi
  rw [List.drop_eq_getElem_cons hlength]
  simp [visits]

theorem Block.drop_visits_of_length_le {b : Block} {i : Nat} (h : b.transactions.length ≤ i) :
    b.visits.drop i = [] :=
  List.drop_eq_nil_of_le (by simpa [visits] using h)

namespace Ledger

/-- Every block has the height it is asked for by. -/
def Numbered (l : Ledger) : Prop :=
  ∀ height block, l.block height = .ok block → block.height = height

/-- Every question about the chain up to its tip has an answer. -/
structure Faultless (l : Ledger) (tip : Nat) : Prop where
  tip_eq : l.tip = .ok tip
  block_ok : ∀ height, height ≤ tip → ∃ block, l.block height = .ok block
  transaction_ok : ∀ txid, ∃ found, l.transaction txid = .ok found
  numbered : l.Numbered

/-- The script of an output, where the ledger knows it. -/
def script? (l : Ledger) (o : OutPoint) : Option Bytes :=
  match l.scriptAt o with
  | .ok found => found
  | .error _ => none

theorem scriptAt_of_found {l : Ledger} {o : OutPoint} {tx : Transaction} (hnull : o.isNull = false)
    (h : l.transaction o.txid = .ok (some tx)) :
    l.scriptAt o = .ok (tx.outputs[o.index]?.map TxOutput.script) := by
  simp [scriptAt, hnull, h]

/-- Whether one of a transaction's inputs spends an output locked by a script. -/
def spends (l : Ledger) (tx : Transaction) (script : Bytes) : Bool :=
  tx.inputs.any fun input => l.script? input.outpoint = some script

/-- The transactions at a height. -/
def visitsAt (l : Ledger) (height : Nat) : List Visit :=
  match l.block height with
  | .ok block => block.visits
  | .error _ => []

/-- The transactions from one height to another, both included. -/
def visits (l : Ledger) (first last : Nat) : List Visit :=
  (List.range' first (last + 1 - first)).flatMap l.visitsAt

theorem visits_of_lt {l : Ledger} {first last : Nat} (h : last < first) :
    l.visits first last = [] := by
  have hcount : last + 1 - first = 0 := by omega
  simp [visits, hcount]

theorem visits_cons {l : Ledger} {first last : Nat} (h : first ≤ last) :
    l.visits first last = l.visitsAt first ++ l.visits (first + 1) last := by
  have hcount : last + 1 - first = (last + 1 - (first + 1)) + 1 := by omega
  simp only [visits, hcount, List.range'_succ, List.flatMap_cons]

theorem visits_append {l : Ledger} {first middle last : Nat} (hfirst : first ≤ middle + 1)
    (hlast : middle ≤ last) :
    l.visits first last = l.visits first middle ++ l.visits (middle + 1) last := by
  have hcount : last + 1 - first = (middle + 1 - first) + (last + 1 - (middle + 1)) := by omega
  have hstart : middle + 1 = first + (middle + 1 - first) := by omega
  rw [visits, hcount, ← List.range'_append_1, List.flatMap_append, ← hstart]
  rfl

theorem visits_congr {l l' : Ledger} {first last : Nat}
    (h : ∀ height, first ≤ height → height ≤ last → l'.block height = l.block height) :
    l'.visits first last = l.visits first last := by
  have hblocks : ∀ height ∈ List.range' first (last + 1 - first),
      l'.visitsAt height = l.visitsAt height := by
    intro height hheight
    have hrange := List.mem_range'_1.1 hheight
    simp only [visitsAt, h height hrange.1 (by omega)]
  rw [visits, visits, List.flatMap_def, List.flatMap_def, List.map_congr_left hblocks]

namespace Faultless

variable {l : Ledger} {tip : Nat}

/-- An output that nobody knows is the only thing that can go wrong with one. -/
theorem scriptAt_error (h : l.Faultless tip) {o : OutPoint} {e : LedgerError}
    (he : l.scriptAt o = .error e) : ∃ txid, e = .transactionNotFound txid := by
  obtain ⟨found, hfound⟩ := h.transaction_ok o.txid
  rw [scriptAt] at he
  split at he
  · cases he
  · cases found with
    | none =>
        rw [hfound] at he
        exact ⟨o.txid, (Except.error.inj he).symm⟩
    | some tx =>
        rw [hfound] at he
        cases he

end Faultless

/-- The question was answered. That nobody knows a transaction is an answer, too. -/
def Answered {α : Type} (result : Except LedgerError α) : Prop :=
  ∀ e, result = .error e → ∃ txid, e = .transactionNotFound txid

/-- Nothing that a scan up to a height asks for goes wrong. -/
structure Covers (l : Ledger) (last : Nat) : Prop where
  block_ok : ∀ height, height ≤ last → ∃ block, l.block height = .ok block
  scriptAt_answered : ∀ o, Answered (l.scriptAt o)

theorem Faultless.covers {l : Ledger} {tip last : Nat} (h : l.Faultless tip) (hlast : last ≤ tip) :
    l.Covers last where
  block_ok height hheight := h.block_ok height (Nat.le_trans hheight hlast)
  scriptAt_answered _ _ he := h.scriptAt_error he

end Ledger

namespace Chain

/-- The chains that are grown from the empty one block by block. -/
inductive Mined : Chain → Prop
  | start : Mined start
  | mine {c : Chain} (time : Nat) (transactions : List Transaction) :
      Mined c → Mined (c.mine time transactions)

/-- The chain with further blocks, each given by its time and its transactions. -/
def mineAll (c : Chain) (blocks : List (Nat × List Transaction)) : Chain :=
  blocks.foldl (fun c b => c.mine b.1 b.2) c

theorem mineAll_cons (c : Chain) (b : Nat × List Transaction)
    (blocks : List (Nat × List Transaction)) :
    c.mineAll (b :: blocks) = (c.mine b.1 b.2).mineAll blocks := rfl

theorem size_mine (c : Chain) (time : Nat) (transactions : List Transaction) :
    (c.mine time transactions).blocks.size = c.blocks.size + 1 := by
  simp [Chain.mine]

theorem getElem?_mine (c : Chain) (time : Nat) (transactions : List Transaction) (height : Nat) :
    (c.mine time transactions).blocks[height]? =
      if height = c.blocks.size then some ⟨c.blocks.size, time, transactions⟩
      else c.blocks[height]? := by
  simp only [Chain.mine, Array.getElem?_push]

/-- The index of a longer chain has the new entries and the old ones. -/
theorem mem_indexed {height : Nat} {transactions : List Transaction}
    {index : List (Digest × Nat × Nat)} {entry : Digest × Nat × Nat}
    (h : entry ∈ indexed height transactions index) : entry.2.1 = height ∨ entry ∈ index := by
  rw [indexed] at h
  generalize transactions.zipIdx = entries at h
  induction entries generalizing index with
  | nil => exact .inr h
  | cons e rest ih =>
      rcases ih h with hheight | hmem
      · exact .inl hheight
      · rcases List.mem_cons.1 hmem with rfl | hmem
        · exact .inl rfl
        · exact .inr hmem

theorem find?_indexed {height : Nat} {transactions : List Transaction}
    {index : List (Digest × Nat × Nat)} {txid : Digest}
    (h : ∀ tx ∈ transactions, tx.id ≠ txid) :
    (indexed height transactions index).find? (fun entry => entry.1 = txid) =
      index.find? fun entry => entry.1 = txid := by
  have hentries : ∀ e ∈ transactions.zipIdx, e.1.id ≠ txid := fun e he =>
    h e.1 (List.fst_mem_of_mem_zipIdx he)
  rw [indexed]
  generalize transactions.zipIdx = entries at hentries
  induction entries generalizing index with
  | nil => rfl
  | cons e rest ih =>
      obtain ⟨he, hrest⟩ := List.forall_mem_cons.1 hentries
      rw [List.foldl_cons, ih hrest, List.find?_cons_of_neg (by simpa using he)]

namespace Mined

variable {c : Chain}

theorem size_pos (h : c.Mined) : 0 < c.blocks.size := by
  cases h with
  | start => decide
  | mine time transactions _ => rw [size_mine]; omega

theorem tip_lt_size (h : c.Mined) : c.tip < c.blocks.size := by
  have hpos := h.size_pos
  rw [tip]
  omega

theorem tip_mine (h : c.Mined) (time : Nat) (transactions : List Transaction) :
    (c.mine time transactions).tip = c.tip + 1 := by
  have hpos := h.size_pos
  simp only [tip]
  rw [size_mine]
  omega

/-- Blocks are numbered by their place, which mining never changes. -/
theorem height_eq (h : c.Mined) {height : Nat} {block : Block}
    (hb : c.blocks[height]? = some block) : block.height = height := by
  induction h with
  | start =>
      cases height with
      | zero =>
          cases hb
          rfl
      | succ height => simp [Chain.start] at hb
  | mine time transactions _ ih =>
      rw [getElem?_mine] at hb
      split at hb
      · next hheight =>
        cases hb
        exact hheight.symm
      · exact ih hb

theorem faultless (h : c.Mined) : c.ledger.Faultless c.tip where
  tip_eq := rfl
  block_ok height hheight := by
    have hlt : height < c.blocks.size := Nat.lt_of_le_of_lt hheight h.tip_lt_size
    exact ⟨c.blocks[height], by simp [ledger, hlt]⟩
  transaction_ok txid := ⟨c.transaction? txid, rfl⟩
  numbered height block hb := by
    cases hfound : c.blocks[height]? with
    | none => simp [ledger, hfound] at hb
    | some found =>
        simp only [ledger, hfound, Except.ok.injEq] at hb
        exact hb ▸ h.height_eq hfound

/-- The index leads into the chain. -/
theorem index_lt (h : c.Mined) {entry : Digest × Nat × Nat} (hentry : entry ∈ c.index) :
    entry.2.1 < c.blocks.size := by
  induction h with
  | start => cases hentry
  | mine time transactions _ ih =>
      rw [size_mine]
      rcases mem_indexed hentry with hheight | hold
      · omega
      · exact Nat.lt_succ_of_lt (ih hold)

/-! ### One more block -/

variable {time : Nat} {transactions : List Transaction}

theorem block_mine_of_le (h : c.Mined) {height : Nat} (hheight : height ≤ c.tip) :
    (c.mine time transactions).ledger.block height = c.ledger.block height := by
  have hlt := h.tip_lt_size
  simp only [ledger, getElem?_mine, show height ≠ c.blocks.size by omega, if_false]

theorem block_mine_tip (h : c.Mined) :
    (c.mine time transactions).ledger.block (c.tip + 1) = .ok ⟨c.tip + 1, time, transactions⟩ := by
  have hsize : c.tip + 1 = c.blocks.size := by
    have hpos := h.size_pos
    rw [tip]
    omega
  simp only [ledger, getElem?_mine, hsize, if_true]

/-- A new block adds its transactions behind all others. -/
theorem visits_mine (h : c.Mined) {first : Nat} (hfirst : first ≤ c.tip + 1) :
    (c.mine time transactions).ledger.visits first (c.tip + 1) =
      c.ledger.visits first c.tip ++ Block.visits ⟨c.tip + 1, time, transactions⟩ := by
  rw [Ledger.visits_append hfirst (Nat.le_succ c.tip),
    Ledger.visits_congr fun height _ hheight => h.block_mine_of_le hheight,
    Ledger.visits_cons (Nat.le_refl _), Ledger.visits_of_lt (Nat.lt_succ_self _), List.append_nil,
    Ledger.visitsAt, h.block_mine_tip]

/-- A transaction that is not in the new block is found where it was. -/
theorem transaction?_mine (h : c.Mined) {txid : Digest}
    (hother : ∀ tx ∈ transactions, tx.id ≠ txid) :
    (c.mine time transactions).transaction? txid = c.transaction? txid := by
  have hfind : (c.mine time transactions).index.find? (fun entry => entry.1 = txid) =
      c.index.find? fun entry => entry.1 = txid := find?_indexed hother
  simp only [transaction?, hfind]
  cases hentry : c.index.find? fun entry => entry.1 = txid with
  | none => rfl
  | some entry =>
      have hlt := h.index_lt (List.mem_of_find?_eq_some hentry)
      simp only [Option.bind_eq_bind, Option.bind_some, getElem?_mine, Nat.ne_of_lt hlt, if_false]

/-- Of a block with one transaction, that one is found under its id, whatever had the id before. -/
theorem transaction?_mine_singleton (h : c.Mined) (tx : Transaction) (txid : Digest) :
    (c.mine time [tx]).transaction? txid =
      if tx.id = txid then some tx else c.transaction? txid := by
  split
  · next hid =>
    have hindex : (c.mine time [tx]).index = (tx.id, c.blocks.size, 0) :: c.index := rfl
    rw [transaction?, hindex, List.find?_cons_of_pos (by simpa using hid)]
    simp [getElem?_mine]
  · next hid => exact h.transaction?_mine fun other hother => List.mem_singleton.1 hother ▸ hid

theorem transaction?_mine_own (h : c.Mined) (time : Nat) (tx : Transaction) :
    (c.mine time [tx]).transaction? tx.id = some tx := by
  rw [h.transaction?_mine_singleton, if_pos rfl]

/-- Whichever of two transactions is found under an id, it pays to a script that both pay to. -/
theorem exists_output (h : c.Mined) (time : Nat) {old t : Transaction} {txid : Digest} {i : Nat}
    {script : Bytes} (held : c.transaction? txid = some old)
    (pays : old.outputs[i]?.map TxOutput.script = some script)
    (pays' : t.outputs[i]?.map TxOutput.script = some script) :
    ∃ found, (c.mine time [t]).transaction? txid = some found ∧
      found.outputs[i]?.map TxOutput.script = some script := by
  rw [h.transaction?_mine_singleton]
  split
  · exact ⟨t, rfl, pays'⟩
  · exact ⟨old, held, pays⟩

theorem scriptAt_mine (h : c.Mined) {o : OutPoint}
    (hother : o.isNull = false → ∀ tx ∈ transactions, tx.id ≠ o.txid) :
    (c.mine time transactions).ledger.scriptAt o = c.ledger.scriptAt o := by
  simp only [Ledger.scriptAt]
  split
  · rfl
  · next hnull =>
    have hfound : (c.mine time transactions).transaction? o.txid = c.transaction? o.txid :=
      h.transaction?_mine (hother (Bool.eq_false_iff.2 hnull))
    simp only [ledger, hfound]

/-! ### Any number of further blocks -/

theorem mineAll (h : c.Mined) (blocks : List (Nat × List Transaction)) :
    (c.mineAll blocks).Mined := by
  induction blocks generalizing c with
  | nil => exact h
  | cons b blocks ih => exact ih (h.mine b.1 b.2)

theorem tip_mineAll (h : c.Mined) (blocks : List (Nat × List Transaction)) :
    (c.mineAll blocks).tip = c.tip + blocks.length := by
  induction blocks generalizing c with
  | nil => rfl
  | cons b blocks ih =>
      rw [Chain.mineAll_cons, ih (h.mine b.1 b.2), h.tip_mine, List.length_cons]
      omega

theorem block_mineAll_of_le (h : c.Mined) (blocks : List (Nat × List Transaction)) {height : Nat}
    (hheight : height ≤ c.tip) :
    (c.mineAll blocks).ledger.block height = c.ledger.block height := by
  induction blocks generalizing c with
  | nil => rfl
  | cons b blocks ih =>
      rw [Chain.mineAll_cons, ih (h.mine b.1 b.2) (by rw [h.tip_mine]; omega),
        h.block_mine_of_le hheight]

theorem scriptAt_mineAll (h : c.Mined) {blocks : List (Nat × List Transaction)} {o : OutPoint}
    (hother : ∀ b ∈ blocks, ∀ tx ∈ b.2, o.isNull = false → tx.id ≠ o.txid) :
    (c.mineAll blocks).ledger.scriptAt o = c.ledger.scriptAt o := by
  induction blocks generalizing c with
  | nil => rfl
  | cons b blocks ih =>
      obtain ⟨hb, hblocks⟩ := List.forall_mem_cons.1 hother
      rw [Chain.mineAll_cons, ih (h.mine b.1 b.2) hblocks,
        h.scriptAt_mine fun hnull tx htx => hb tx htx hnull]

end Mined

end Chain

end AnchoredDid
