import AnchoredDid.Resolution
import AnchoredDid.Update.Draft

/-!
# Scenarios

A scenario is one identity with its key, its chain and its sidecar. It can sign updates, fund the
beacons of its documents and spend from them, one block for each transaction, and so make histories
to resolve.
-/

namespace AnchoredDid

structure Scenario where
  pair : Keypair
  network : Network
  did : String
  genesis : Document
  chain : Chain
  sidecar : Sidecar
  /-- The time of the last block mined here. -/
  clock : Nat
  /-- How many outputs were funded. -/
  funded : Nat

namespace Scenario

/-- The time before the first block. -/
def startTime : Nat := 1700000000

/-- The seconds between two blocks. -/
def spacing : Nat := 600

/-- What a funded output is worth. -/
def fundedValue : Nat := 50000

/-- The identity of a key. -/
def ofKey (pair : Keypair) (network : Network) (chain : Chain) : Except Failure Scenario := do
  let (did, genesis) ← Genesis.createKey pair.publicKey network 1
  return ⟨pair, network, did, genesis, chain, Sidecar.empty, startTime, 0⟩

/-- The identity of a key's intermediate document, which the sidecar then holds. -/
def ofIntermediate (pair : Keypair) (network : Network) (chain : Chain) :
    Except Failure Scenario := do
  let value := Genesis.intermediate pair.publicKey network
  let (did, genesis) ← Genesis.createExternal value network 1
  return ⟨pair, network, did, genesis, chain, { Sidecar.empty with genesisDocument := some value },
    startTime, 0⟩

/-- One more block, `spacing` seconds after the last one mined here. -/
def mine (s : Scenario) (transactions : List Transaction) : Scenario :=
  { s with clock := s.clock + spacing, chain := s.chain.mine (s.clock + spacing) transactions }

def mineEmpty (s : Scenario) : (count : Nat) → Scenario
  | 0 => s
  | count + 1 => (s.mine []).mineEmpty count

/-- A transaction without a source that pays to a script; `tag` keeps its id unique. -/
def fundingTransaction (script : Bytes) (tag : Nat) : Transaction where
  inputs := [⟨OutPoint.null, Bytes.ofNatLittle 4 tag⟩]
  outputs := [⟨fundedValue, script⟩]

/-- A transaction that spends outputs and announces a digest. -/
def signalTransaction (outpoints : List OutPoint) (bytes : Digest) : Transaction where
  inputs := outpoints.map fun o => ⟨o, []⟩
  outputs := [⟨0, Script.announcing bytes⟩]

/-- One more block with an output locked by a script. -/
def fund (s : Scenario) (script : Bytes) : Scenario × OutPoint :=
  let tx := fundingTransaction script (s.funded + 1)
  ({ s with funded := s.funded + 1 }.mine [tx], ⟨tx.id, 0⟩)

/-- One more block with a transaction that spends outputs and announces a digest. -/
def publish (s : Scenario) (outpoints : List OutPoint) (bytes : Digest) : Scenario × Digest :=
  let tx := signalTransaction outpoints bytes
  (s.mine [tx], tx.id)

/-- A beacon of a document. -/
def beacon? (s : Scenario) (document : Document) (reference : String) : Option Beacon :=
  Registry.find? (Registry.ofDocument document s.network) (document.absolute reference)

/-- Funds a beacon and spends from it at once. -/
def announce (s : Scenario) (beacon : Beacon) (bytes : Digest) : Scenario :=
  let (s, outpoint) := s.fund beacon.script
  (s.publish [outpoint] bytes).1

/-- Signs an update and keeps it in the sidecar. -/
def sign (s : Scenario) (draft : Draft) (pair : Keypair) :
    Except Failure (Scenario × Update × Document) := do
  let update ← draft.sign pair
  let target ← draft.target
  return ({ s with sidecar := s.sidecar.addUpdate update }, update, target)

/-- A draft for this identity. -/
def draft (s : Scenario) (source : Document) (version : Nat) (patch : Patch) : Draft :=
  { Draft.start s.did source version with patch := patch }

/-- The history so far, resolved. -/
def resolver (s : Scenario) (config : ResolverConfig) : Resolver :=
  ⟨s.chain.ledger, config⟩

end Scenario

end AnchoredDid
