import AnchoredDid.Registry
import AnchoredDid.Script
import AnchoredDid.Sidecar

/-!
# Signals

A transaction that spends from a beacon is a signal. The bytes it announces lead to an update by way
of the beacon's kind: they are the update's hash, or the hash of an announcement that holds it, or
the root of a tree that a proof shows to hold it.
-/

namespace AnchoredDid

structure Signal where
  beacon : Beacon
  transaction : Transaction
  height : Nat
  time : Nat
  /-- The position of the transaction in its block. -/
  index : Nat
  deriving DecidableEq

namespace Signal

def announced? (s : Signal) : Option Digest :=
  Script.announced? s.transaction

def toJson (s : Signal) : Json :=
  Json.ofMembers [("beacon", s.beacon.id), ("type", s.beacon.kind.name),
    ("address", s.beacon.address.text), ("txid", showTxid s.transaction.id),
    ("height", Json.ofNat s.height), ("time", Json.ofNat s.time), ("txIndex", Json.ofNat s.index),
    ("bytes", (s.announced?.map Json.ofDigest).getD .null)]

/-- The hash of the update that announced bytes mean for an identifier. -/
def updateHash? (index : SidecarIndex) (did : String) (bytes : Digest) : BeaconKind → Option Digest
  | .singleton => some bytes
  | .announcement => (index.announcements.get? bytes).bind (Members.find? did)
  | .tree =>
    (index.proofs.get? bytes).bind fun proof =>
      match proof.verify did with
      | .ok update => update
      | .error _ => none

/-- The update that a transaction announces for an identifier through a beacon of this kind. -/
def decodeFor (index : SidecarIndex) (did : String) (kind : BeaconKind) (tx : Transaction) :
    Option Update := do
  let bytes ← Script.announced? tx
  let hash ← updateHash? index did bytes kind
  index.updates.get? hash

/-- The update that the signal announces for an identifier. -/
def decode (s : Signal) (index : SidecarIndex) (did : String) : Option Update :=
  decodeFor index did s.beacon.kind s.transaction

end Signal

end AnchoredDid
