import Std.Data.TreeMap
import AnchoredDid.Json.Record

/-!
# Sparse Merkle trees

A tree of 256 levels has a leaf for every digest; an identifier's leaf is at its own hash, whose
bits lead from the root, zero to the left. An empty leaf and a node above nothing are the zero
digest. The tree is never built: the leaves below a node are a run of all leaves in the order of
their keys, which is divided where the bit of its level changes. A proof lists the siblings along
one path from the leaf to the root, without those that are zero; a bitmap says where these belong.
-/

namespace AnchoredDid

/-- Why a proof does not verify. -/
inductive TreeProofError where
  | bitmapNotHex (cause : HexError)
  | bitmapSize
  | tooFewSiblings
  | tooManySiblings
  | otherRoot (computed expected : Digest)
  deriving DecidableEq

def TreeProofError.message : TreeProofError → String
  | .bitmapNotHex cause => s!"invalid SMT proof: collapsed: {cause.message}"
  | .bitmapSize => "invalid SMT proof: collapsed must be 32 bytes"
  | .tooFewSiblings => "invalid SMT proof: too few hashes"
  | .tooManySiblings => "invalid SMT proof: too many hashes"
  | .otherRoot computed expected =>
    s!"invalid SMT proof: computed root {computed.toHex} does not match {expected.toHex}"

namespace SparseTree

/-- The number of levels below the root. -/
def depth : Nat := 256

/-- The leaf of an identifier. -/
def key (did : String) : Digest :=
  sha256 (Bytes.ofText did)

/-- The hash of a leaf; without an update it is empty, whatever the nonce. -/
def leaf (nonce update : Option Digest) : Digest :=
  match nonce, update with
  | some n, some u => sha256 (n.bytes ++ u.bytes)
  | none, some u => sha256 u.bytes
  | _, none => Digest.zero

/-- The hash of a node from those of its children. -/
def parent (left right : Digest) : Digest :=
  if left.isZero && right.isZero then Digest.zero else sha256 (left.bytes ++ right.bytes)

/-- The node above another one that lies on this side. -/
def above (right : Bool) (node sibling : Digest) : Digest :=
  if right then parent sibling node else parent node sibling

/-- Keys and hashes of leaves, in the order of the keys. -/
abbrev Leaves := List (Digest × Digest)

/-- The leaves below the children of a node at this level: those in front of the first key that has
the bit set, and those from it on. -/
def split (level : Nat) (leaves : Leaves) : Leaves × Leaves :=
  leaves.span fun leaf => !leaf.1.bit level

/-- The hash of a node with `levels` levels below it, from the leaves there. -/
def node : (levels : Nat) → Leaves → Digest
  | _, [] => Digest.zero
  | 0, (_, value) :: _ => value
  | levels + 1, leaves =>
    let (left, right) := split (depth - (levels + 1)) leaves
    parent (node levels left) (node levels right)

/-- The siblings along the rest of a key's path, from the top down. -/
def siblings : (path : List Bool) → Leaves → List Digest
  | [], _ => []
  | step :: path, leaves =>
    let (left, right) := split (depth - (path.length + 1)) leaves
    if step then node path.length left :: siblings path right
    else node path.length right :: siblings path left

end SparseTree

/-- What is committed for one identifier. -/
structure TreeEntry where
  nonce : Option Digest
  update : Digest
  deriving DecidableEq

def TreeEntry.leaf (e : TreeEntry) : Digest :=
  SparseTree.leaf e.nonce (some e.update)

/-- What is committed, by key. -/
structure SparseTree where
  entries : Std.TreeMap Digest TreeEntry

/-- The siblings of one leaf, with what the leaf holds. -/
structure TreeProof where
  /-- The root that the proof is for. -/
  root : Digest
  nonce : Option Digest
  /-- Absent when the proof is one of absence. -/
  update : Option Digest
  /-- In hexadecimal, one bit for each level from the root down, set where the sibling is zero. -/
  collapsed : String
  /-- The other siblings, from the leaf to the root. -/
  hashes : List Digest
  deriving DecidableEq

namespace SparseTree

def empty : SparseTree := ⟨∅⟩

/-- Commits an update for an identifier, in place of what was committed before. -/
def insert (t : SparseTree) (did : String) (update : Digest) (nonce : Option Digest) : SparseTree :=
  ⟨t.entries.insert (key did) ⟨nonce, update⟩⟩

def size (t : SparseTree) : Nat := t.entries.size

/-- What is committed under a key. -/
def find? (t : SparseTree) (k : Digest) : Option TreeEntry := t.entries[k]?

/-- The key and the hash of each leaf. -/
def leaves (t : SparseTree) : Leaves :=
  t.entries.toList.map fun e => (e.1, e.2.leaf)

def root (t : SparseTree) : Digest :=
  node depth t.leaves

/-- The proof of what is committed for an identifier, or that nothing is. -/
def proof (t : SparseTree) (did : String) : TreeProof :=
  let k := key did
  let siblings := siblings k.bits t.leaves
  let entry := t.find? k
  { root := t.root
    nonce := entry.bind TreeEntry.nonce
    update := entry.map TreeEntry.update
    collapsed := Hex.encode (Bytes.ofBits (siblings.map Digest.isZero))
    hashes := (siblings.filter fun s => !s.isZero).reverse }

@[simp] theorem root_proof (t : SparseTree) (did : String) : (t.proof did).root = t.root := rfl

end SparseTree

namespace TreeProof

/-- The bits of the bitmap. -/
def bitmap (p : TreeProof) : Except TreeProofError (List Bool) :=
  match Hex.decode p.collapsed with
  | .error e => .error (.bitmapNotHex e)
  | .ok bytes => if bytes.length = 32 then .ok (Bytes.bits bytes) else .error .bitmapSize

/-- Climbs from a node: each step has the side of the node and whether its sibling is zero. -/
def climb : (steps : List (Bool × Bool)) → Digest → List Digest → Except TreeProofError Digest
  | [], node, [] => .ok node
  | [], _, _ :: _ => .error .tooManySiblings
  | (right, true) :: steps, node, hashes =>
    climb steps (SparseTree.above right node Digest.zero) hashes
  | (_, false) :: _, _, [] => .error .tooFewSiblings
  | (right, false) :: steps, node, sibling :: hashes =>
    climb steps (SparseTree.above right node sibling) hashes

/-- The update that the root commits to for an identifier, or none if it commits to its absence. -/
def verify (p : TreeProof) (did : String) : Except TreeProofError (Option Digest) := do
  let bitmap ← p.bitmap
  let steps := ((SparseTree.key did).bits.zip bitmap).reverse
  let computed ← climb steps (SparseTree.leaf p.nonce p.update) p.hashes
  if computed = p.root then return p.update else .error (.otherRoot computed p.root)

def toJson (p : TreeProof) : Json :=
  Json.ofMembers ([("id", Json.ofDigest p.root)]
    ++ Json.optional "nonce" (p.nonce.map Json.ofDigest)
    ++ Json.optional "updateId" (p.update.map Json.ofDigest)
    ++ [("collapsed", .string p.collapsed), ("hashes", .array (p.hashes.map Json.ofDigest))])

def ofJson? (value : Json) : Option TreeProof := do
  match ← value.fields? ["id", "nonce", "updateId", "collapsed", "hashes"] 5 with
  | [some root, nonce, update, some collapsed, some hashes] =>
    some ⟨← root.digest?, ← Json.optionally Json.digest? nonce,
      ← Json.optionally Json.digest? update, ← collapsed.string?, ← hashes.listOf? Json.digest?⟩
  | _ => none

end TreeProof

end AnchoredDid
