import AnchoredDid.Signal
import AnchoredDid.Proofs.Sidecar

/-!
# What a published update is read as

A script that announces a digest is read as that digest, and an update in the sidecar is found under
its own hash. So one more update in the sidecar changes what a transaction announces only where the
transaction points at it (`Signal.decodeFor_addUpdate`).
-/

namespace AnchoredDid

/-! ## The script -/

namespace Script

theorem instructions_announcing (d : Digest) :
    instructions (announcing d) = [.operation opReturn, .push d.bytes] := by
  have hpush : push? 32 d.bytes = some (d.bytes, []) := by
    simp [push?, takePush?, List.take_of_length_le, List.drop_of_length_le]
  have hread : read (d.bytes.length + 1) (32 :: d.bytes) = [.push d.bytes] := by
    rw [read, if_pos (by decide), hpush]
    simp [read]
  rw [instructions, announcing, List.length_cons, List.length_cons, read, if_neg (by decide), hread]

/-- The published script is read as the hash that it carries. -/
theorem announced?_of_announcing {tx : Transaction} {d : Digest}
    (h : (tx.outputs.reverse.find? fun output => isReturn output.script).map TxOutput.script =
      some (announcing d)) : announced? tx = some d := by
  obtain ⟨output, hfound, hscript⟩ := Option.map_eq_some_iff.1 h
  simp [announced?, hfound, hscript, instructions_announcing, pushedDigest?]

end Script

/-! ## The signal -/

namespace Signal

variable {s : Sidecar} {u : Update} {did : String} {kind : BeaconKind} {tx : Transaction}

theorem updateHash?_addUpdate (bytes : Digest) :
    updateHash? (s.addUpdate u).index did bytes kind = updateHash? s.index did bytes kind := by
  cases kind <;> rfl

/-- With one more update in the sidecar a transaction announces what it announced before, except
where it points at this update. -/
theorem decodeFor_addUpdate (h : u.Tidy) :
    decodeFor (s.addUpdate u).index did kind tx =
      (Script.announced? tx).bind fun bytes => (updateHash? s.index did bytes kind).bind fun hash =>
        if u.hash = hash then some u else s.index.updates.get? hash := by
  simp only [decodeFor, Option.bind_eq_bind, updateHash?_addUpdate, Sidecar.updates_addUpdate h,
    DigestMap.get?_put]

/-- A transaction that does not point at the update does not see it. -/
theorem decodeFor_addUpdate_of_ne (h : u.Tidy)
    (hother : ∀ bytes, Script.announced? tx = some bytes →
      updateHash? s.index did bytes kind ≠ some u.hash) :
    decodeFor (s.addUpdate u).index did kind tx = decodeFor s.index did kind tx := by
  rw [decodeFor_addUpdate h, decodeFor]
  cases hbytes : Script.announced? tx with
  | none => rfl
  | some bytes =>
      cases hfound : updateHash? s.index did bytes kind with
      | none => simp [hfound]
      | some hash =>
          have hne : u.hash ≠ hash := fun heq => hother bytes hbytes (heq ▸ hfound)
          simp [hfound, hne]

/-- A singleton beacon that announces the update's hash announces the update. -/
theorem decodeFor_singleton (h : u.Tidy) (hbytes : Script.announced? tx = some u.hash) :
    decodeFor (s.addUpdate u).index did .singleton tx = some u := by
  simp [decodeFor_addUpdate h, hbytes, updateHash?]

/-- An aggregate beacon announces nothing by a hash that it does not know. -/
theorem decodeFor_aggregate (h : u.Tidy) (hkind : kind ≠ .singleton)
    (hbytes : Script.announced? tx = some u.hash)
    (hannouncement : s.index.announcements.get? u.hash = none)
    (hproof : s.index.proofs.get? u.hash = none) :
    decodeFor (s.addUpdate u).index did kind tx = none := by
  cases kind with
  | singleton => exact absurd rfl hkind
  | announcement => simp [decodeFor_addUpdate h, hbytes, updateHash?, hannouncement]
  | tree => simp [decodeFor_addUpdate h, hbytes, updateHash?, hproof]

end Signal

end AnchoredDid
