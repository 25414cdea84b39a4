import AnchoredDid.Patch.Diff
import AnchoredDid.Update

/-!
# Drafts of updates

A draft collects what an update is made from. Making it checks what validation will check, so an
update that is signed here is accepted at the same document and version.
-/

namespace AnchoredDid

structure Draft where
  did : String
  source : Document
  /-- The version of the source. -/
  version : Nat
  patch : Patch
  /-- The method that signs; by default the first that may. -/
  method : Option String

namespace Draft

def start (did : String) (source : Document) (version : Nat) : Draft :=
  ⟨did, source, version, [], none⟩

/-- The draft that leads to a document, whatever patch it had. -/
def towards (d : Draft) (target : Document) : Draft :=
  { d with patch := Patch.diff d.source.value target.value }

def andThen (d : Draft) (operation : Operation) : Draft :=
  { d with patch := d.patch ++ [operation] }

/-- The document that the patch leads to. It keeps the id of the source. -/
def target (d : Draft) : Except Failure Document :=
  if d.source.isDeactivated then .error (.deactivated d.did)
  else
    match d.patch.apply d.source.value with
    | .error e => .error (.patch e)
    | .ok value =>
      match Document.ofJson value with
      | .error e => .error (.document e)
      | .ok target =>
        if target.id = d.source.id then .ok target
        else .error (.document (.idChanged d.source.id target.id))

/-- The update without a proof, and the document it leads to. -/
def build (d : Draft) : Except Failure (UnsignedUpdate × Document) := do
  let target ← d.target
  return (⟨UnsignedUpdate.contexts, d.patch, d.source.hash, target.hash, d.version, []⟩, target)

/-- The absolute id of the method that signs. -/
def signer (d : Draft) : Except Failure String :=
  match d.method with
  | some id => .ok (d.source.absolute id)
  | none =>
    match d.source.relationship Proof.invocation with
    | id :: _ => .ok id
    | [] => .error (.methodNotFound Proof.invocation)

/-- The method must exist, be allowed to sign, and have the pair's key. -/
def checkSigner (d : Draft) (id : String) (pair : Keypair) : Except Failure Unit :=
  match d.source.method? id with
  | none => .error (.methodNotFound id)
  | some method =>
    if !d.source.canInvoke id then .error (.unauthorized id)
    else
      match method.key with
      | .error e => .error e
      | .ok key => if key = pair.publicKey then .ok () else .error (.keyMismatch id)

def sign (d : Draft) (pair : Keypair) : Except Failure Update := do
  let (unsigned, _) ← d.build
  let id ← d.signer
  d.checkSigner id pair
  let proof := (Proof.unsigned id).invoking (rootCapability d.did)
  return ⟨unsigned, proof.signedBy pair unsigned.toJson⟩

end Draft

end AnchoredDid
