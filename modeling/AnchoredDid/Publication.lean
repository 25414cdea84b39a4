import AnchoredDid.Registry
import AnchoredDid.Script
import AnchoredDid.Update.Draft

/-!
# Publication

To publish an update through a beacon of its own, the source document must have that beacon, for the
resolver watches the beacons of the document that the update changes. What is published is the hash
of the signed update.
-/

namespace AnchoredDid

/-- A signed update and the beacon to spend from. -/
structure PreparedUpdate where
  update : Update
  beacon : Beacon

def PreparedUpdate.hash (p : PreparedUpdate) : Digest := p.update.hash

/-- The script of the output that the spending transaction adds. -/
def PreparedUpdate.script (p : PreparedUpdate) : Bytes := Script.announcing p.hash

inductive PrepareError where
  | core (cause : Failure)
  | unknownBeacon (id : String)
  /-- Signals of an aggregate are made by the aggregator. -/
  | notSingleton (id : String)

def PrepareError.message : PrepareError → String
  | .core cause => s!"core error: {cause.message}"
  | .unknownBeacon id => s!"no usable beacon {id} in the source document"
  | .notSingleton id =>
    s!"beacon {id} is an aggregate beacon; its signal is built by the aggregator"

namespace Draft

/-- The singleton beacon of the source document with this id, on the identifier's network. -/
def beacon (d : Draft) (reference : String) : Except PrepareError Beacon :=
  match Identifier.decode d.did with
  | .error e => .error (.core (.identifier e))
  | .ok i =>
    let id := d.source.absolute reference
    match Registry.find? (Registry.ofDocument d.source i.network) id with
    | none => .error (.unknownBeacon id)
    | some beacon => if beacon.kind = .singleton then .ok beacon else .error (.notSingleton id)

/-- Finds the beacon first, then signs. -/
def prepare (d : Draft) (pair : Keypair) (reference : String) :
    Except PrepareError PreparedUpdate := do
  let beacon ← d.beacon reference
  match d.sign pair with
  | .error e => .error (.core e)
  | .ok update => return ⟨update, beacon⟩

end Draft

end AnchoredDid
