import AnchoredDid.Ledger
import AnchoredDid.Signal

/-!
# Scanning for signals

A scanner walks the transactions of a range of blocks in order and stops at each one that spends
from a beacon of the registry it is given. Its cursor always stands between two transactions, so a
scan can be taken up again from there. Blocks are fetched a window at a time; how wide the window is
decides only when a block is asked for.

Heights are counted without end here. In 64 bits there is no block to go on to behind the greatest
height.
-/

namespace AnchoredDid

/-- The transaction to examine next, by its block's height and its position there. -/
structure Cursor where
  height : Nat
  index : Nat
  deriving DecidableEq, Repr

namespace Cursor

def toJson (c : Cursor) : Json :=
  Json.ofMembers [("height", Json.ofNat c.height), ("txIndex", Json.ofNat c.index)]

def ofJson? (value : Json) : Option Cursor := do
  match ← value.fields? ["height", "txIndex"] 2 with
  | [some height, some index] => some ⟨← height.nat?, ← index.nat?⟩
  | _ => none

end Cursor

namespace Scan

/-- The scripts that inputs spend. An input whose output nobody knows spends nothing. -/
def spentScripts (ledger : Ledger) : List TxInput → Except LedgerError (List Bytes)
  | [] => .ok []
  | input :: rest =>
    match ledger.scriptAt input.outpoint with
    | .ok (some script) => (spentScripts ledger rest).map (script :: ·)
    | .ok none | .error (.transactionNotFound _) => spentScripts ledger rest
    | .error e => .error e

/-- The signals of a transaction, one for each beacon it spends from, in the order of the
registry. -/
def signalsOf (ledger : Ledger) (registry : Registry) (block : Block) (index : Nat)
    (tx : Transaction) : Except LedgerError (List Signal) := do
  let spent ← spentScripts ledger tx.inputs
  return (registry.filter fun b => spent.contains b.script).map fun b =>
    ⟨b, tx, block.height, block.time, index⟩

/-- Where the examination of a block's transactions ended: after a transaction with signals, after
one that could not be examined, or behind the last. -/
inductive Examined where
  | found (signals : List Signal) (next : Nat)
  | failed (cause : LedgerError) (next : Nat)
  | nothing

/-- Examines transactions from the one at `index` on. An empty registry needs no look at them. -/
def examine (ledger : Ledger) (registry : Registry) (block : Block) :
    (index : Nat) → List Transaction → Examined
  | _, [] => .nothing
  | index, tx :: rest =>
    if registry.isEmpty then .nothing
    else
      match signalsOf ledger registry block index tx with
      | .error e => .failed e (index + 1)
      | .ok [] => examine ledger registry block (index + 1) rest
      | .ok signals => .found signals (index + 1)

/-- The blocks at `count` heights, or the failure at the lowest height that fails. -/
def fetch (ledger : Ledger) (height : Nat) : (count : Nat) → Except LedgerError (List Block)
  | 0 => .ok []
  | count + 1 =>
    match ledger.block height with
    | .error e => .error e
    | .ok block => (fetch ledger (height + 1) count).map (block :: ·)

end Scan

structure Scanner where
  cursor : Cursor
  /-- The last height of the range. -/
  last : Nat
  /-- How many blocks are fetched at once, at least one. -/
  window : Nat
  /-- Blocks that have been fetched, the first of them at the cursor's height. -/
  buffer : List Block
  /-- The heights that have been asked for, latest first. -/
  asked : List Nat

namespace Scanner

/-- A scan from a cursor to the end of a block. -/
def resume (cursor : Cursor) (last window : Nat) : Scanner :=
  ⟨cursor, last, max window 1, [], []⟩

/-- A scan of whole blocks. -/
def start (first last window : Nat) : Scanner :=
  resume ⟨first, 0⟩ last window

/-- How many blocks the window at the cursor holds; the end of the range cuts it short. -/
def windowSize (s : Scanner) : Nat :=
  min s.last (s.cursor.height + (s.window - 1)) + 1 - s.cursor.height

/-- The scanner with freshly fetched blocks. -/
def filled (s : Scanner) (blocks : List Block) : Scanner where
  cursor := s.cursor
  last := s.last
  window := s.window
  buffer := blocks
  asked := ((List.range blocks.length).map fun k => s.cursor.height + k).reverse ++ s.asked

/-- Fetches the next window when there is no block left. -/
def fill (ledger : Ledger) (s : Scanner) : Except LedgerError Scanner :=
  match s.buffer with
  | _ :: _ => .ok s
  | [] => (Scan.fetch ledger s.cursor.height s.windowSize).map s.filled

/-- What a search for the next signals ends with. -/
inductive Outcome where
  | found (signals : List Signal)
  | failed (cause : LedgerError)
  | finished

/-- Searches the next `left` blocks. -/
def search (ledger : Ledger) (registry : Registry) : (left : Nat) → Scanner → Outcome × Scanner
  | 0, s => (.finished, s)
  | left + 1, s =>
    match s.fill ledger with
    | .error e => (.failed e, s)
    | .ok s =>
      match s.buffer with
      | [] => (.finished, s)
      | block :: later =>
        match Scan.examine ledger registry block s.cursor.index
            (block.transactions.drop s.cursor.index) with
        | .found signals next => (.found signals, { s with cursor := ⟨s.cursor.height, next⟩ })
        | .failed e next => (.failed e, { s with cursor := ⟨s.cursor.height, next⟩ })
        | .nothing =>
          search ledger registry left
            { s with buffer := later, cursor := ⟨s.cursor.height + 1, 0⟩ }

/-- The signals of the next transaction that spends from a beacon of the registry. -/
def next (ledger : Ledger) (registry : Registry) (s : Scanner) : Outcome × Scanner :=
  search ledger registry (s.last + 1 - s.cursor.height) s

/-- The blocks before the end of the range, and the fetch that an empty buffer still needs. -/
def blocksLeft (s : Scanner) : Nat :=
  2 * (s.last + 1 - s.cursor.height) + if s.buffer.isEmpty then 1 else 0

/-- The transactions left in the first block of the buffer. -/
def transactionsLeft (s : Scanner) : Nat :=
  match s.buffer with
  | [] => 0
  | block :: _ => block.transactions.length - s.cursor.index

/-- Less is left to scan: fewer blocks, or as many and fewer transactions in the first. -/
def Before (s t : Scanner) : Prop :=
  Prod.Lex (· < ·) (· < ·) (s.blocksLeft, s.transactionsLeft) (t.blocksLeft, t.transactionsLeft)

end Scanner

namespace Scan

theorem examine_found_bounds {ledger : Ledger} {registry : Registry} {block : Block}
    {txs : List Transaction} {index : Nat} {signals : List Signal} {next : Nat}
    (h : examine ledger registry block index txs = .found signals next) :
    index < next ∧ next ≤ index + txs.length := by
  induction txs generalizing index with
  | nil => simp [examine] at h
  | cons tx rest ih =>
    unfold examine at h
    split at h
    · simp at h
    · split at h
      · simp at h
      · have := ih h
        simp only [List.length_cons]
        omega
      · simp only [Examined.found.injEq] at h
        simp only [List.length_cons]
        omega

end Scan

namespace Scanner

theorem fill_eq {ledger : Ledger} {s t : Scanner} (h : s.fill ledger = .ok t) :
    t = s ∨ ∃ blocks, t = s.filled blocks := by
  unfold fill at h
  split at h
  · exact .inl (Except.ok.inj h).symm
  · cases hf : Scan.fetch ledger s.cursor.height s.windowSize with
    | error e => simp [hf, Except.map] at h
    | ok blocks => exact .inr ⟨blocks, by simpa [hf, Except.map, eq_comm] using h⟩

theorem fill_cursor {ledger : Ledger} {s t : Scanner} (h : s.fill ledger = .ok t) :
    t.cursor = s.cursor := by
  rcases fill_eq h with rfl | ⟨_, rfl⟩ <;> rfl

theorem fill_last {ledger : Ledger} {s t : Scanner} (h : s.fill ledger = .ok t) :
    t.last = s.last := by
  rcases fill_eq h with rfl | ⟨_, rfl⟩ <;> rfl

theorem fill_buffer {ledger : Ledger} {s t : Scanner} (h : s.fill ledger = .ok t)
    (hs : s.buffer ≠ []) : t = s := by
  unfold fill at h
  split at h
  · simp_all
  · next hb => exact absurd hb hs

/-- Each find leaves less to scan. -/
theorem search_found_before {ledger : Ledger} {registry : Registry} {left : Nat} {s t : Scanner}
    {signals : List Signal} (hleft : left + s.cursor.height ≤ s.last + 1)
    (h : search ledger registry left s = (.found signals, t)) : t.Before s := by
  induction left generalizing s with
  | zero => simp [search] at h
  | succ left ih =>
    unfold search at h
    split at h
    · simp at h
    · next u hu =>
      have hc := fill_cursor hu
      have hl := fill_last hu
      split at h
      · simp at h
      · next block later hb =>
        split at h
        · next next he =>
          have hbounds := Scan.examine_found_bounds he
          simp only [Prod.mk.injEq, Outcome.found.injEq] at h
          obtain ⟨_, rfl⟩ := h
          simp only [List.length_drop] at hbounds
          by_cases hs : s.buffer = []
          · apply Prod.Lex.left
            simp only [blocksLeft, hb, hs, hc, hl, List.isEmpty_cons, List.isEmpty_nil]
            simp
          · obtain rfl := fill_buffer hu hs
            have h1 : blocksLeft { u with cursor := ⟨u.cursor.height, next⟩ } = u.blocksLeft := rfl
            unfold Before
            rw [h1]
            apply Prod.Lex.right
            simp only [transactionsLeft, hb]
            omega
        · simp at h
        · have hstep := ih (s := { u with buffer := later, cursor := ⟨u.cursor.height + 1, 0⟩ })
            (by simp only [hc, hl]; omega) h
          have hlt : blocksLeft { u with buffer := later, cursor := ⟨u.cursor.height + 1, 0⟩ }
              < s.blocksLeft := by
            simp only [blocksLeft, hc, hl]
            split <;> split <;> omega
          unfold Before at hstep ⊢
          rcases Prod.lex_def.1 hstep with h1 | ⟨h1, _⟩
          · exact Prod.Lex.left _ _ (Nat.lt_trans h1 hlt)
          · apply Prod.Lex.left
            simp only at h1
            omega

theorem next_found_before {ledger : Ledger} {registry : Registry} {s t : Scanner}
    {signals : List Signal} (h : s.next ledger registry = (.found signals, t)) : t.Before s := by
  by_cases hs : s.cursor.height ≤ s.last + 1
  · exact search_found_before (by omega) h
  · have hz : s.last + 1 - s.cursor.height = 0 := by omega
    simp [next, hz, search] at h

/-- The signals of all transactions that are left, for a registry that stays the same. -/
def collect (ledger : Ledger) (registry : Registry) (s : Scanner) :
    Except LedgerError (List Signal) :=
  match _found : s.next ledger registry with
  | (.finished, _) => .ok []
  | (.failed e, _) => .error e
  | (.found signals, t) => (collect ledger registry t).map (signals ++ ·)
termination_by (s.blocksLeft, s.transactionsLeft)
decreasing_by exact next_found_before _found

end Scanner

end AnchoredDid
