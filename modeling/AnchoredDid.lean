import AnchoredDid.Identifier.Vectors
import AnchoredDid.Json.Reader
import AnchoredDid.Publication
import AnchoredDid.Scenario
import AnchoredDid.Proofs.Authentication
import AnchoredDid.Proofs.Bounds
import AnchoredDid.Proofs.Cancellation
import AnchoredDid.Proofs.Checkpoint
import AnchoredDid.Proofs.Extension
import AnchoredDid.Proofs.Genesis.Placeholder
import AnchoredDid.Proofs.Interruption
import AnchoredDid.Proofs.Identifier.Mistyped
import AnchoredDid.Proofs.Json.Interoperable
import AnchoredDid.Proofs.Json.Reading
import AnchoredDid.Proofs.Key
import AnchoredDid.Proofs.Ledger.Mining
import AnchoredDid.Proofs.Patch.Move
import AnchoredDid.Proofs.Publication
import AnchoredDid.Proofs.ReadAhead
import AnchoredDid.Proofs.Scan.Failure
import AnchoredDid.Proofs.Sidecar.Lookup
import AnchoredDid.Proofs.Signal.Additions
import AnchoredDid.Proofs.SparseTree
import AnchoredDid.Proofs.SparseTree.Binding
import AnchoredDid.Proofs.SparseTree.Root
import AnchoredDid.Proofs.Update.Signer
import AnchoredDid.Proofs.Update.AsSupplied
import AnchoredDid.Proofs.Update.Binding
import AnchoredDid.Proofs.Update.Drafting
