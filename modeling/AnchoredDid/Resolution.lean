import AnchoredDid.Scan
import AnchoredDid.Update.Validation

/-!
# Resolution

Resolving an identifier replays its history: from the genesis document on, each signal of the
current document's beacons, in the order of the ledger, may lead to the next version. A resolution
stops at the end of the range, at a bound on version or time, when the document is deactivated, or
when it is cancelled. It leaves a checkpoint from which it can go on as if it had never stopped.

Heights, versions and rejections are counted without end.
-/

namespace AnchoredDid

/-- What a resolver is set up with. -/
structure ResolverConfig where
  /-- How many blocks are fetched ahead. -/
  window : Nat := 8
  /-- The first height when the sidecar names none. -/
  genesisHeight : Nat := 0
  deriving DecidableEq, Repr

/-- How far a resolution has come when it looks whether it was cancelled. -/
structure Progress where
  /-- How often it has looked before. -/
  polls : Nat
  /-- The heights whose blocks it has asked for, latest first. -/
  asked : List Nat

/-- Whether cancellation has been requested by then. -/
abbrev Cancellation := Progress → Bool

structure ResolutionOptions where
  /-- Stop once this version is reached. -/
  version : Option Nat := none
  /-- Stop before the first signal of a later block. -/
  time : Option Nat := none
  /-- The last height, if the chain is higher. -/
  height : Option Nat := none
  cancelled : Cancellation := fun _ => false

def ResolutionOptions.reached (o : ResolutionOptions) (version : Nat) : Bool :=
  o.version.any (· ≤ version)

inductive ResolutionState where
  | establishingGenesis
  | traversing
  /-- The end of the range or a bound was reached. -/
  | targetReached
  /-- The document is deactivated. -/
  | terminated
  deriving DecidableEq, Repr

def ResolutionState.name : ResolutionState → String
  | establishingGenesis => "establishingGenesis"
  | traversing => "traversing"
  | targetReached => "targetReached"
  | terminated => "terminated"

def ResolutionState.ofName? (name : String) : Option ResolutionState :=
  [establishingGenesis, traversing, targetReached, terminated].find? fun s => s.name = name

/-- What a resolution tells about the document it ends with. -/
structure ResolutionMetadata where
  version : Nat
  blockHeight : Nat
  blockTime : Option Nat
  deactivated : Bool
  state : ResolutionState
  updateCount : Nat
  rejectedCount : Nat
  /-- A version was asked for that comes after the deactivation. -/
  beyondDeactivation : Bool
  deriving DecidableEq, Repr

/-- Where a resolution stands between two transactions. -/
structure Checkpoint where
  did : String
  document : Document
  version : Nat
  cursor : Cursor
  /-- The hashes of the updates applied, in order. -/
  applied : List Digest
  /-- The block of the last update applied. -/
  blockHeight : Nat
  blockTime : Option Nat
  rejectedCount : Nat

structure Resolution where
  metadata : ResolutionMetadata
  checkpoint : Checkpoint

def Resolution.document (r : Resolution) : Document := r.checkpoint.document

inductive ResolveError where
  | malformedIdentifier (cause : IdentifierError)
  | unsupportedVersion (version : Nat)
  | genesis (cause : GenesisError)
  | ledger (cause : LedgerError)
  | core (cause : Failure)
  /-- Version zero was asked for. -/
  | versionZero
  | cancelled (checkpoint : Checkpoint)

def ResolveError.message : ResolveError → String
  | .malformedIdentifier cause => s!"malformed identifier: {cause.message}"
  | .unsupportedVersion version => s!"unsupported identifier version {version}"
  | .genesis cause => s!"genesis error: {cause.message}"
  | .ledger cause => s!"ledger error: {cause.message}"
  | .core cause => s!"core error: {cause.message}"
  | .versionZero => "invalid resolution options: versionId starts at 1"
  | .cancelled checkpoint => s!"resolution cancelled at height {checkpoint.cursor.height}"

/-- A failure to establish the genesis document. -/
def ResolveError.ofFailure : Failure → ResolveError
  | .identifier cause => .malformedIdentifier cause
  | .genesis cause => .genesis cause
  | cause => .core cause

namespace ResolutionMetadata

def toJson (m : ResolutionMetadata) : Json :=
  Json.ofMembers ([("versionId", Json.ofNat m.version), ("blockHeight", Json.ofNat m.blockHeight)]
    ++ Json.optional "blockTime" (m.blockTime.map Json.ofNat)
    ++ [("deactivated", .bool m.deactivated), ("state", .string m.state.name),
      ("updateCount", Json.ofNat m.updateCount), ("rejectedCount", Json.ofNat m.rejectedCount),
      ("targetBeyondDeactivation", .bool m.beyondDeactivation)])

def ofJson? (value : Json) : Option ResolutionMetadata := do
  let names := ["versionId", "blockHeight", "blockTime", "deactivated", "state", "updateCount",
    "rejectedCount", "targetBeyondDeactivation"]
  match ← value.fields? names 8 with
  | [some version, some height, time, some deactivated, some state, some updates, some rejected,
      some beyond] =>
    some {
      version := ← version.nat?
      blockHeight := ← height.nat?
      blockTime := ← Json.optionally Json.nat? time
      deactivated := ← deactivated.bool?
      state := ← state.constant?.bind ResolutionState.ofName?
      updateCount := ← updates.nat?
      rejectedCount := ← rejected.nat?
      beyondDeactivation := ← beyond.bool? }
  | _ => none

end ResolutionMetadata

namespace Checkpoint

/-- Before anything was applied. -/
def genesis (did : String) (document : Document) (height : Nat) : Checkpoint :=
  ⟨did, document, 1, ⟨height, 0⟩, [], height, none, 0⟩

def toJson (c : Checkpoint) : Json :=
  Json.ofMembers [("did", c.did), ("document", c.document.value),
    ("versionId", Json.ofNat c.version), ("cursor", c.cursor.toJson),
    ("applied", .array (c.applied.map Json.ofDigest)),
    ("blockHeight", Json.ofNat c.blockHeight),
    ("blockTime", (c.blockTime.map Json.ofNat).getD .null),
    ("rejectedCount", Json.ofNat c.rejectedCount)]

def ofJson? (value : Json) : Option Checkpoint := do
  let names := ["did", "document", "versionId", "cursor", "applied", "blockHeight", "blockTime",
    "rejectedCount"]
  match ← value.fields? names 8 with
  | [some did, some document, some version, some cursor, some applied, some height, time,
      some rejected] =>
    some {
      did := ← did.string?
      document := ← (Document.ofJson document).toOption
      version := ← version.nat?
      cursor := ← Cursor.ofJson? cursor
      applied := ← applied.listOf? Json.digest?
      blockHeight := ← height.nat?
      blockTime := ← Json.optionally Json.nat? time
      rejectedCount := ← rejected.nat? }
  | _ => none

/-- The checkpoint after a signal, and whether the document changed. An update that was applied
before is passed over; one that is rejected is counted. -/
def attempt (c : Checkpoint) (index : SidecarIndex) (signal : Signal) : Checkpoint × Bool :=
  match signal.decode index c.did with
  | none => (c, false)
  | some update =>
    if c.applied.contains update.hash then (c, false)
    else
      match update.advance c.document c.version c.did with
      | .error _ => ({ c with rejectedCount := c.rejectedCount + 1 }, false)
      | .ok applied =>
        ({ c with
            document := applied.document
            version := applied.version
            applied := c.applied ++ [applied.updateHash]
            blockHeight := signal.height
            blockTime := some signal.time }, true)

/-- The checkpoint after the signals of one transaction. Those after a change that ends the
resolution are not looked at. -/
def attemptAll (options : ResolutionOptions) (index : SidecarIndex) :
    Checkpoint → List Signal → Checkpoint
  | c, [] => c
  | c, signal :: rest =>
    match c.attempt index signal with
    | (c, true) =>
      if options.reached c.version || c.document.isDeactivated then c
      else attemptAll options index c rest
    | (c, false) => attemptAll options index c rest

end Checkpoint

namespace Resolution

/-- The result of a resolution that ends at a checkpoint. -/
def ending (options : ResolutionOptions) (state : ResolutionState) (c : Checkpoint) :
    Resolution where
  checkpoint := c
  metadata :=
    { version := c.version
      blockHeight := c.blockHeight
      blockTime := c.blockTime
      deactivated := c.document.isDeactivated
      state := state
      updateCount := c.applied.length
      rejectedCount := c.rejectedCount
      beyondDeactivation := state = .terminated && options.version.any (c.version < ·) }

/-- What a traversal takes its answers from. -/
structure Source where
  ledger : Ledger
  network : Network
  index : SidecarIndex

/-- The cursor before the first of some signals, if it is one of a block after the time bound. -/
def late? (options : ResolutionOptions) (signals : List Signal) : Option Cursor :=
  match options.time, signals with
  | some limit, signal :: _ =>
    if limit < signal.time then some ⟨signal.height, signal.index⟩ else none
  | _, _ => none

/-- Goes on from a checkpoint, one transaction with signals after another. -/
def traverse (source : Source) (options : ResolutionOptions) (polls : Nat) (c : Checkpoint)
    (scanner : Scanner) : Except ResolveError Resolution :=
  if options.reached c.version then .ok (ending options .targetReached c)
  else if c.document.isDeactivated then .ok (ending options .terminated c)
  else if options.cancelled ⟨polls, scanner.asked⟩ then .error (.cancelled c)
  else
    match _found : scanner.next source.ledger (Registry.ofDocument c.document source.network) with
    | (.failed e, _) => .error (.ledger e)
    | (.finished, scanner) =>
      .ok (ending options .targetReached { c with cursor := scanner.cursor })
    | (.found signals, scanner) =>
      match late? options signals with
      | some cursor => .ok (ending options .targetReached { c with cursor := cursor })
      | none =>
        let c := c.attemptAll options source.index signals
        traverse source options (polls + 1) { c with cursor := scanner.cursor } scanner
termination_by (scanner.blocksLeft, scanner.transactionsLeft)
decreasing_by exact Scanner.next_found_before _found

end Resolution

/-- A ledger with a configuration. -/
structure Resolver where
  ledger : Ledger
  config : ResolverConfig

namespace Resolver

/-- The only identifier version that is resolved. -/
def supportedVersion : Nat := 1

/-- The identifier that a text stands for, of a version that is resolved. -/
def identify (did : String) : Except ResolveError Identifier :=
  match Identifier.decode did with
  | .error e => .error (.malformedIdentifier e)
  | .ok i => if i.version = supportedVersion then .ok i else .error (.unsupportedVersion i.version)

def checkOptions (options : ResolutionOptions) : Except ResolveError Unit :=
  if options.version = some 0 then .error .versionZero else .ok ()

/-- Goes on from a checkpoint to the end of the chain or of the range. -/
def continueFrom (r : Resolver) (c : Checkpoint) (network : Network) (sidecar : Sidecar)
    (options : ResolutionOptions) : Except ResolveError Resolution :=
  match r.ledger.tip with
  | .error e => .error (.ledger e)
  | .ok tip =>
    let last := (options.height.map (min · tip)).getD tip
    Resolution.traverse ⟨r.ledger, network, sidecar.index⟩ options 0 c
      (Scanner.resume c.cursor last r.config.window)

/-- Resolves an identifier from its genesis document on. -/
def resolve (r : Resolver) (did : String) (sidecar : Sidecar) (options : ResolutionOptions) :
    Except ResolveError Resolution := do
  checkOptions options
  let i ← identify did
  match Genesis.document i sidecar.genesisDocument with
  | .error e => .error (.ofFailure e)
  | .ok document =>
    let height := sidecar.genesisHeight.getD r.config.genesisHeight
    r.continueFrom (.genesis did document height) i.network sidecar options

/-- Resolves on from a checkpoint. -/
def resume (r : Resolver) (c : Checkpoint) (sidecar : Sidecar) (options : ResolutionOptions) :
    Except ResolveError Resolution := do
  checkOptions options
  let i ← identify c.did
  r.continueFrom c i.network sidecar options

end Resolver

end AnchoredDid
