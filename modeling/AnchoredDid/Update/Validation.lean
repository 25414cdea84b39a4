import AnchoredDid.Update
import AnchoredDid.Word

/-!
# Validation of updates

A candidate update either leads from the current document to the next one, or is rejected for the
first of its faults. Rejection is no failure of the history: the next candidate is tried on the same
document.
-/

namespace AnchoredDid

/-- Why a proof is not one that could authorise the update. -/
inductive ProofFault where
  | unexpected (type suite purpose : String)
  | otherCapability (capability did : String)
  | unsupportedAction (action : String)
  | methodNotInDocument (method : String)
  /-- The key or the signature cannot be read. -/
  | unreadable (cause : Failure)
  deriving DecidableEq

def ProofFault.message : ProofFault → String
  | .unexpected type suite purpose => s!"unexpected proof {type}/{suite}/{purpose}"
  | .otherCapability capability did =>
    s!"capability {capability} is not the root capability of {did}"
  | .unsupportedAction action => s!"unsupported capability action {action}"
  | .methodNotInDocument method => s!"{method} is not in the document"
  | .unreadable cause => cause.message

/-- Why the patched value is not the next document. -/
inductive TargetFault where
  | invalid (cause : DocumentError)
  | idChanged (id : String)
  deriving DecidableEq

def TargetFault.message : TargetFault → String
  | .invalid cause => cause.message
  | .idChanged id => s!"patch changes id to {id}"

inductive Rejection where
  | alreadyDeactivated
  | staleVersion (expected got : Nat)
  | sourceHashMismatch (expected got : Digest)
  | invalidProof (fault : ProofFault)
  | unauthorizedSigner (method : String)
  | invalidSignature
  | malformedPatch (cause : PatchError)
  | malformedDocument (fault : TargetFault)
  | targetHashMismatch (expected got : Digest)
  deriving DecidableEq

def Rejection.message : Rejection → String
  | .alreadyDeactivated => "document is already deactivated"
  | .staleVersion expected got => s!"stale version: expected sourceVersionId {expected}, got {got}"
  | .sourceHashMismatch expected got =>
    s!"source hash mismatch: expected {expected.toHex}, got {got.toHex}"
  | .invalidProof fault => s!"invalid proof: {fault.message}"
  | .unauthorizedSigner method =>
    s!"verification method {method} is not authorized for capabilityInvocation"
  | .invalidSignature => "signature verification failed"
  | .malformedPatch cause => s!"malformed patch: {cause.message}"
  | .malformedDocument fault => s!"patched document is invalid: {fault.message}"
  | .targetHashMismatch expected got =>
    s!"target hash mismatch: expected {expected.toHex}, got {got.toHex}"

/-- A version of a document, and the update that led to it. -/
structure Applied where
  document : Document
  version : Nat
  updateHash : Digest

/-- The version as 64 bits hold it. -/
def Applied.truncated (a : Applied) : Applied :=
  { a with version := a.version % Word.size }

namespace Update

/-- The candidate is meant for this document at this version. -/
def checkSource (u : Update) (current : Document) (version : Nat) : Except Rejection Unit :=
  if current.isDeactivated then .error .alreadyDeactivated
  else if u.unsigned.sourceVersion ≠ version then
    .error (.staleVersion version u.unsigned.sourceVersion)
  else if u.unsigned.sourceHash ≠ current.hash then
    .error (.sourceHashMismatch current.hash u.unsigned.sourceHash)
  else .ok ()

/-- The proof is a capability invocation; a capability it names is the document's own. -/
def checkProof (u : Update) (did : String) : Except Rejection Unit := do
  let p := u.proof
  if p.type ≠ Proof.dataIntegrity ∨ p.suite ≠ Proof.bip340Suite ∨ p.purpose ≠ Proof.invocation then
    .error (.invalidProof (.unexpected p.type p.suite p.purpose))
  match p.capability with
  | some capability =>
    if capability ≠ rootCapability did then
      .error (.invalidProof (.otherCapability capability did))
  | none => pure ()
  match p.action with
  | some action =>
    if action ≠ Proof.write then .error (.invalidProof (.unsupportedAction action))
  | none => pure ()

/-- The key of the method that the proof names, which must be allowed to sign. -/
def signerKey (u : Update) (current : Document) : Except Rejection PublicKey :=
  let id := current.absolute u.proof.method
  if !current.canInvoke id then .error (.unauthorizedSigner id)
  else
    match current.method? id with
    | none => .error (.invalidProof (.methodNotInDocument id))
    | some method =>
      match method.key with
      | .ok key => .ok key
      | .error e => .error (.invalidProof (.unreadable e))

def checkSignature (u : Update) (key : PublicKey) : Except Rejection Unit :=
  match u.proof.verify u.unsigned.toJson key with
  | .ok () => .ok ()
  | .error (.key .invalidSignature) => .error .invalidSignature
  | .error e => .error (.invalidProof (.unreadable e))

/-- The document that the patch leads to. It keeps the id of the current one. -/
def patched (u : Update) (current : Document) : Except Rejection Document :=
  match u.unsigned.patch.apply current.value with
  | .error e => .error (.malformedPatch e)
  | .ok value =>
    match Document.ofJson value with
    | .error e => .error (.malformedDocument (.invalid e))
    | .ok next =>
      if next.id = current.id then .ok next else .error (.malformedDocument (.idChanged next.id))

/-- The next version, or the first fault of the candidate: its source, its proof, its signer, its
signature, its patch, and last the hash of the document it leads to. Versions are counted without
end, as in a history, which has one for each update. -/
def advance (u : Update) (current : Document) (version : Nat) (did : String) :
    Except Rejection Applied := do
  u.checkSource current version
  u.checkProof did
  let key ← u.signerKey current
  u.checkSignature key
  let next ← u.patched current
  if u.unsigned.targetHash ≠ next.hash then
    .error (.targetHashMismatch u.unsigned.targetHash next.hash)
  else
    return ⟨next, version + 1, u.hash⟩

/-- Validation at any version of 64 bits. No answer is a build that stopped at the next version. -/
def validate (b : Build) (u : Update) (current : Document) (version : Nat) (did : String) :
    Option (Except Rejection Applied) :=
  match u.advance current version did with
  | .error e => some (.error e)
  | .ok applied => (b.succ? version).map fun next => .ok { applied with version := next }

/-- Validation in a build that does not check its additions, which always answers. -/
def applyTo (u : Update) (current : Document) (version : Nat) (did : String) :
    Except Rejection Applied :=
  (u.advance current version did).map Applied.truncated

end Update

end AnchoredDid
