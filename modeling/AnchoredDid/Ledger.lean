import AnchoredDid.Transaction
import AnchoredDid.Word

/-!
# Ledgers

A ledger answers three questions, and may fail to answer: how high the chain is, what the block at a
height is, and which transaction has an id. `Chain` is a ledger that grows block by block and never
fails on what it holds; `Faults` makes chosen questions fail.
-/

namespace AnchoredDid

structure Block where
  height : Nat
  /-- In seconds since 1970. -/
  time : Nat
  transactions : List Transaction
  deriving DecidableEq

def Block.toJson (b : Block) : Json :=
  Json.ofMembers [("height", Json.ofNat b.height), ("time", Json.ofNat b.time),
    ("txs", .array (b.transactions.map Transaction.toJson))]

/-- The time and the transactions of a block that is not mined yet; either may be left out. -/
def Block.contentOfJson? (value : Json) : Option (Nat × List Transaction) := do
  let time ← Json.orElse 0 Json.nat? (value.member? "time")
  let transactions ← Json.orElse [] (Json.listOf? Transaction.ofJson?) (value.member? "txs")
  return (time, transactions)

inductive LedgerError where
  | blockNotFound (height : Nat)
  | transactionNotFound (txid : Digest)
  | backend (cause : String)
  deriving DecidableEq

def LedgerError.message : LedgerError → String
  | .blockNotFound height => s!"block not found at height {height}"
  | .transactionNotFound txid => s!"transaction not found: {showTxid txid}"
  | .backend cause => s!"ledger backend error: {cause}"

structure Ledger where
  tip : Except LedgerError Nat
  block : Nat → Except LedgerError Block
  transaction : Digest → Except LedgerError (Option Transaction)

namespace Ledger

/-- The script of an output; none for the null outpoint and for an index out of range. -/
def scriptAt (l : Ledger) (o : OutPoint) : Except LedgerError (Option Bytes) :=
  if o.isNull then .ok none
  else
    match l.transaction o.txid with
    | .error e => .error e
    | .ok none => .error (.transactionNotFound o.txid)
    | .ok (some tx) => .ok ((tx.outputs[o.index]?).map TxOutput.script)

/-- Whether an input spends an output with this script. The inputs are asked about in order, until
one does. -/
def anySpends (l : Ledger) (script : Bytes) : List TxInput → Except LedgerError Bool
  | [] => .ok false
  | input :: rest =>
    match l.scriptAt input.outpoint with
    | .error e => .error e
    | .ok found => if found = some script then .ok true else anySpends l script rest

def spendsFrom (l : Ledger) (tx : Transaction) (script : Bytes) : Except LedgerError Bool :=
  l.anySpends script tx.inputs

end Ledger

/-- The blocks by height, and where each transaction stands: newest first, so that of equal ids the
one mined last is found. -/
structure Chain where
  blocks : Array Block
  index : List (Digest × Nat × Nat)

namespace Chain

/-- A chain with nothing but an empty first block. -/
def start : Chain := ⟨#[⟨0, 0, []⟩], []⟩

/-- The height of the last block. -/
def tip (c : Chain) : Nat := c.blocks.size - 1

/-- The entries of a block's transactions, put in front of `index`. -/
def indexed (height : Nat) (transactions : List Transaction) (index : List (Digest × Nat × Nat)) :
    List (Digest × Nat × Nat) :=
  transactions.zipIdx.foldl (fun index entry => (entry.1.id, height, entry.2) :: index) index

/-- The chain with one more block. -/
def mine (c : Chain) (time : Nat) (transactions : List Transaction) : Chain where
  blocks := c.blocks.push ⟨c.blocks.size, time, transactions⟩
  index := indexed c.blocks.size transactions c.index

/-- The chain that an array of blocks is mined to, from the first one on. -/
def ofJson? (value : Json) : Option Chain := do
  let blocks ← value.listOf? Block.contentOfJson?
  return blocks.foldl (fun c b => c.mine b.1 b.2) start

/-- The time of the last block. -/
def lastTime (c : Chain) : Nat :=
  (c.blocks.back?.map Block.time).getD 0

/-- The chain with `count` more empty blocks, `spacing` seconds apart. Their times are those of a
build that does not check its additions. -/
def mineEmpty (c : Chain) : (count : Nat) → (spacing : Nat) → Chain
  | 0, _ => c
  | count + 1, spacing => (c.mine ((c.lastTime + spacing) % Word.size) []).mineEmpty count spacing

/-- The transaction mined last under an id. -/
def transaction? (c : Chain) (txid : Digest) : Option Transaction := do
  let (_, height, position) ← c.index.find? fun entry => entry.1 = txid
  let block ← c.blocks[height]?
  block.transactions[position]?

def ledger (c : Chain) : Ledger where
  tip := .ok c.tip
  block height :=
    match c.blocks[height]? with
    | some block => .ok block
    | none => .error (.blockNotFound height)
  transaction txid := .ok (c.transaction? txid)

end Chain

/-- Questions that fail before the ledger is asked. -/
structure Faults where
  tip : Bool
  blocks : List Nat
  transactions : List Digest

namespace Faults

def none : Faults := ⟨false, [], []⟩

/-- Each kind of question may be left out. -/
def ofJson? (value : Json) : Option Faults := do
  let tip ← Json.orElse false Json.bool? (value.member? "tip")
  let blocks ← Json.orElse [] (Json.listOf? Json.nat?) (value.member? "blocks")
  let transactions ← Json.orElse [] (Json.listOf? txidOfJson?) (value.member? "txids")
  return ⟨tip, blocks, transactions⟩

end Faults

/-- A ledger on which these questions fail. -/
def Ledger.failing (l : Ledger) (f : Faults) : Ledger where
  tip := if f.tip then .error (.backend "tip") else l.tip
  block height :=
    if f.blocks.contains height then .error (.backend s!"block {height}") else l.block height
  transaction txid :=
    if f.transactions.contains txid then .error (.backend s!"tx {showTxid txid}")
    else l.transaction txid

end AnchoredDid
