import AnchoredDid.Proofs.Bytes.Bits
import AnchoredDid.Proofs.Bytes.Hex
import AnchoredDid.Proofs.Outcome
import AnchoredDid.SparseTree
import Mathlib.Data.List.Induction
import Mathlib.Data.List.Nodup
import Mathlib.Data.List.TakeDrop

/-!
# Proofs of a sparse Merkle tree verify

A verification climbs along the path that the tree was descended on. The siblings that a bitmap
leaves out are put back on the way (`TreeProof.climb_collapsed`), and each level of the climb undoes
one division of the leaves, so it ends at the root if it started at the leaf in which the descent
ends (`SparseTree.rise_siblings`). That this is the leaf of the identifier, or the empty one, is
where the order of the leaves matters: along a path the leaves of a run share the bits of the path,
hence the division by the first set bit is one by the bit itself (`SparseTree.Run.mem_split`).
-/

namespace AnchoredDid

namespace Digest

/-- From any level on, the bits of a digest are the bit of that level and those behind it. -/
theorem drop_bits (d : Digest) {level : Nat} (h : level < 256) :
    d.bits.drop level = d.bit level :: d.bits.drop (level + 1) := by
  have hbit : d.bits[level]? = some (d.bit level) :=
    Bytes.getElem?_bits d.bytes (by rw [length_bytes]; omega)
  obtain ⟨hlevel, hget⟩ := List.getElem?_eq_some_iff.mp hbit
  rw [List.drop_eq_getElem_cons hlevel, hget]

theorem bits_injective {d e : Digest} (h : d.bits = e.bits) : d = e := by
  refine ext ?_
  rw [← Bytes.ofBits_bits d.bytes, ← Bytes.ofBits_bits e.bytes]
  exact congrArg Bytes.ofBits h

theorem eq_of_bit_eq {d e : Digest} (h : ∀ i < 256, d.bit i = e.bit i) : d = e := by
  refine bits_injective (List.ext_getElem? fun i => ?_)
  rcases Nat.lt_or_ge i 256 with hi | hi
  · rw [bits, bits, Bytes.getElem?_bits _ (by rw [length_bytes]; omega),
      Bytes.getElem?_bits _ (by rw [length_bytes]; omega)]
    exact congrArg some (h i hi)
  · rw [List.getElem?_eq_none (by rwa [length_bits]), List.getElem?_eq_none (by rwa [length_bits])]

theorem compare_eq_lt_of_bit {d e : Digest} {i : Nat} (hsame : ∀ j < i, d.bit j = e.bit j)
    (hd : d.bit i = false) (he : e.bit i = true) : compare d e = .lt :=
  Bytes.compare_eq_lt_of_bit (by rw [length_bytes, length_bytes]) hsame hd he

end Digest

namespace SparseTree

section Levels

@[simp] theorem parent_zero : parent Digest.zero Digest.zero = Digest.zero := rfl

@[simp] theorem node_nil (levels : Nat) : node levels [] = Digest.zero := by
  cases levels <;> rfl

@[simp] theorem split_nil (level : Nat) : split level [] = ([], []) := rfl

/-- Above the leaves a node is the parent of its children, also where nothing is below it. -/
theorem node_succ (levels : Nat) (leaves : Leaves) :
    node (levels + 1) leaves =
      parent (node levels (split (depth - (levels + 1)) leaves).1)
        (node levels (split (depth - (levels + 1)) leaves).2) := by
  cases leaves with
  | nil => simp
  | cons leaf leaves => rfl

/-- The leaves at the end of a path. -/
def below : (path : List Bool) → Leaves → Leaves
  | [], leaves => leaves
  | step :: path, leaves =>
    let (left, right) := split (depth - (path.length + 1)) leaves
    below path (if step then right else left)

/-- The hash at the top of a path, from the siblings along it and what is at its end. -/
def rise : (path : List Bool) → (siblings : List Digest) → Digest → Digest
  | step :: path, sibling :: siblings, node => above step (rise path siblings node) sibling
  | _, _, node => node

@[simp] theorem length_siblings (path : List Bool) (leaves : Leaves) :
    (siblings path leaves).length = path.length := by
  induction path generalizing leaves with
  | nil => rfl
  | cons step path ih => cases step <;> simp [siblings, ih]

/-- With the siblings along a path, its end gives the node at its top. -/
theorem rise_siblings (path : List Bool) (leaves : Leaves) :
    rise path (siblings path leaves) (node 0 (below path leaves)) = node path.length leaves := by
  induction path generalizing leaves with
  | nil => rfl
  | cons step path ih =>
      rw [List.length_cons, node_succ]
      cases step with
      | false => exact congrArg (parent · _) (ih _)
      | true => exact congrArg (parent _) (ih _)

end Levels

/-- Leaves below the node at a level of a key's path: they are in order and share the bits above. -/
structure Run (key : Digest) (level : Nat) (leaves : Leaves) : Prop where
  ordered : leaves.Pairwise fun a b => compare a.1 b.1 = .lt
  shared : ∀ leaf ∈ leaves, ∀ i < level, leaf.1.bit i = key.bit i

namespace Run

variable {key : Digest} {level : Nat} {leaves : Leaves}

theorem sublist {fewer : Leaves} (h : Run key level leaves) (hsub : fewer.Sublist leaves) :
    Run key level fewer where
  ordered := h.ordered.sublist hsub
  shared leaf hleaf := h.shared leaf (hsub.subset hleaf)

/-- Behind a leaf that has the bit of the level set, all have. -/
theorem bit_eq_true {leaf : Digest × Digest} (h : Run key level (leaf :: leaves))
    (hbit : leaf.1.bit level = true) : ∀ later ∈ leaves, later.1.bit level = true := by
  intro later hlater
  by_contra hunset
  have hbehind : compare leaf.1 later.1 = .lt := (List.pairwise_cons.mp h.ordered).1 later hlater
  have hfront : compare later.1 leaf.1 = .lt :=
    Digest.compare_eq_lt_of_bit
      (fun j hj => (h.shared later (List.mem_cons_of_mem _ hlater) j hj).trans
        (h.shared leaf List.mem_cons_self j hj).symm)
      (Bool.not_eq_true _ ▸ hunset) hbit
  rw [Std.OrientedOrd.eq_swap, hbehind] at hfront
  cases hfront

/-- A run is divided by the bit of its level. -/
theorem split_eq (h : Run key level leaves) :
    split level leaves =
      (leaves.filter fun leaf => !leaf.1.bit level,
        leaves.filter fun leaf => leaf.1.bit level) := by
  rw [split, List.span_eq_takeWhile_dropWhile]
  induction leaves with
  | nil => rfl
  | cons leaf leaves ih =>
      have hrest := ih (h.sublist (List.sublist_cons_self leaf leaves))
      cases hbit : leaf.1.bit level with
      | false => simpa [hbit] using hrest
      | true =>
          have hset := h.bit_eq_true hbit
          have hnone : (leaves.filter fun leaf => !leaf.1.bit level) = [] := by
            simpa using hset
          have hall : (leaves.filter fun leaf => leaf.1.bit level) = leaves := by
            simpa using hset
          simp [hbit, hnone, hall]

/-- The half of a run on the key's side holds the leaves that share one more bit. -/
theorem half (h : Run key level leaves) :
    (if key.bit level then (split level leaves).2 else (split level leaves).1) =
      leaves.filter fun leaf => leaf.1.bit level = key.bit level := by
  rw [h.split_eq]
  cases key.bit level <;> simp

theorem filter_half (h : Run key level leaves) :
    Run key (level + 1) (leaves.filter fun leaf => leaf.1.bit level = key.bit level) where
  ordered := h.ordered.sublist List.filter_sublist
  shared leaf hleaf i hi := by
    obtain ⟨hmem, hbit⟩ := List.mem_filter.mp hleaf
    rcases Nat.lt_succ_iff_lt_or_eq.mp hi with hi | rfl
    · exact h.shared leaf hmem i hi
    · simpa using hbit

end Run

/-- The leaves at the end of a key's path are those of the key. -/
theorem mem_below {key : Digest} {level : Nat} (hlevel : level ≤ depth) {leaves : Leaves}
    (h : Run key level leaves) (leaf : Digest × Digest) :
    leaf ∈ below (key.bits.drop level) leaves ↔ leaf ∈ leaves ∧ leaf.1 = key := by
  induction hlevel using Nat.decreasingInduction generalizing leaves with
  | self =>
      rw [List.drop_of_length_le (by simp [depth]), below]
      exact ⟨fun hmem => ⟨hmem, Digest.eq_of_bit_eq (h.shared leaf hmem)⟩, And.left⟩
  | of_succ level hlevel ih =>
      have hlength : depth - ((key.bits.drop (level + 1)).length + 1) = level := by
        rw [List.length_drop, Digest.length_bits]
        simp only [depth] at *
        omega
      rw [Digest.drop_bits key hlevel, below, hlength]
      have hbelow := ih h.filter_half
      rw [← h.half] at hbelow
      refine hbelow.trans ?_
      rw [h.half, List.mem_filter, and_assoc]
      refine and_congr_right fun _ => and_iff_right_of_imp ?_
      rintro rfl
      simp

/-- What is hashed into the leaf of a key. -/
def leafAt (t : SparseTree) (k : Digest) : Digest :=
  leaf ((t.find? k).bind TreeEntry.nonce) ((t.find? k).map TreeEntry.update)

theorem run_leaves (t : SparseTree) (key : Digest) : Run key 0 t.leaves where
  ordered := List.pairwise_map.mpr t.entries.ordered_keys_toList
  shared _ _ _ hi := absurd hi (Nat.not_lt_zero _)

theorem mem_leaves {t : SparseTree} {k value : Digest} :
    (k, value) ∈ t.leaves ↔ ∃ entry, t.find? k = some entry ∧ entry.leaf = value := by
  simp only [leaves, List.mem_map, Prod.mk.injEq]
  constructor
  · rintro ⟨⟨k', entry⟩, hmem, rfl, hleaf⟩
    exact ⟨entry, Std.TreeMap.mem_toList_iff_getElem?_eq_some.mp hmem, hleaf⟩
  · rintro ⟨entry, hentry, hleaf⟩
    exact ⟨(k, entry), Std.TreeMap.mem_toList_iff_getElem?_eq_some.mpr hentry, rfl, hleaf⟩

/-- At the end of a key's path is the leaf that its entry makes, and an empty one without entry. -/
theorem node_below (t : SparseTree) (k : Digest) : node 0 (below k.bits t.leaves) = t.leafAt k := by
  have hmem := fun value => mem_below (Nat.zero_le depth) (t.run_leaves k) (k, value)
  have hkey := fun leaf hleaf => ((mem_below (Nat.zero_le depth) (t.run_leaves k) leaf).mp hleaf).2
  rw [List.drop_zero] at hmem hkey
  cases hbelow : below k.bits t.leaves with
  | nil =>
      cases hfind : t.find? k with
      | none => simp [leafAt, hfind, leaf]
      | some entry =>
          have hleaf := (hmem entry.leaf).mpr ⟨mem_leaves.mpr ⟨entry, hfind, rfl⟩, rfl⟩
          simp [hbelow] at hleaf
  | cons first others =>
      obtain ⟨k', value⟩ := first
      obtain rfl : k' = k := hkey (k', value) (by simp [hbelow])
      obtain ⟨entry, hfind, rfl⟩ := mem_leaves.mp ((hmem value).mp (by simp [hbelow])).1
      simp [leafAt, hfind, node, TreeEntry.leaf]

end SparseTree

namespace TreeProof

/-- A climb of more steps goes on from where the first of them end. -/
theorem climb_append {steps : List (Bool × Bool)} {node top : Digest} {hashes : List Digest}
    (h : climb steps node hashes = .ok top) (more : List (Bool × Bool)) (others : List Digest) :
    climb (steps ++ more) node (hashes ++ others) = climb more top others := by
  fun_induction climb steps node hashes with
  | case1 node => cases h; rfl
  | case2 => cases h
  | case3 right steps node hashes ih => exact ih h
  | case4 => cases h
  | case5 right steps node sibling hashes ih => exact ih h

/-- A climb puts the siblings back that are left out for being zero. -/
theorem climb_collapsed {path : List Bool} {siblings : List Digest}
    (hlength : siblings.length = path.length) (node : Digest) :
    climb (path.zip (siblings.map Digest.isZero)).reverse node
        (siblings.filter fun s => !s.isZero).reverse =
      .ok (SparseTree.rise path siblings node) := by
  induction path generalizing siblings with
  | nil =>
      obtain rfl := List.eq_nil_of_length_eq_zero hlength
      rfl
  | cons step path ih =>
      obtain ⟨sibling, siblings, rfl⟩ := List.exists_cons_of_length_eq_add_one hlength
      have hbelow := ih (Nat.succ.inj hlength)
      rw [List.map_cons, List.zip_cons_cons, List.reverse_cons]
      cases hzero : sibling.isZero with
      | true =>
          have hsibling : sibling = Digest.zero := of_decide_eq_true hzero
          rw [List.filter_cons_of_neg (by simp [hzero])]
          simpa [hsibling, climb, SparseTree.rise] using climb_append hbelow [(step, true)] []
      | false =>
          rw [List.filter_cons_of_pos (by simp [hzero]), List.reverse_cons]
          simpa [climb, SparseTree.rise] using climb_append hbelow [(step, false)] [sibling]

end TreeProof

namespace SparseTree

/-- The bitmap of a proof says which siblings are zero. -/
theorem bitmap_proof (t : SparseTree) (did : String) :
    (t.proof did).bitmap = .ok ((siblings (key did).bits t.leaves).map Digest.isZero) := by
  generalize hflags : (siblings (key did).bits t.leaves).map Digest.isZero = flags
  have hlength : flags.length = 256 := by
    rw [← hflags, List.length_map, length_siblings, Digest.length_bits]
  obtain ⟨hbits, hsize⟩ := Bytes.bits_ofBits_of_length (n := 32) hlength
  have hcollapsed : (t.proof did).collapsed = Hex.encode (Bytes.ofBits flags) := by
    rw [← hflags]; rfl
  simp only [TreeProof.bitmap, hcollapsed, Hex.decode_encode, hsize, if_true, hbits]

/-- A tree's proof for an identifier verifies and tells what the tree holds for it. -/
theorem verify_proof (t : SparseTree) (did : String) :
    (t.proof did).verify did = .ok ((t.find? (key did)).map TreeEntry.update) := by
  have hclimb := TreeProof.climb_collapsed (length_siblings (key did).bits t.leaves)
    (t.leafAt (key did))
  -- the climb starts at the leaf in which the descent ends, so it comes back to the root
  rw [← t.node_below, rise_siblings, Digest.length_bits, t.node_below] at hclimb
  exact bind_eq_ok_iff.2 ⟨_, t.bitmap_proof did, bind_eq_ok_iff.2 ⟨t.root, hclimb, if_pos rfl⟩⟩

/-- What is to be committed for one identifier. -/
structure Commitment where
  did : String
  update : Digest
  nonce : Option Digest

/-- The tree after these commitments, one after the other. -/
def ofCommitments (commitments : List Commitment) : SparseTree :=
  commitments.foldl (fun t c => t.insert c.did c.update c.nonce) empty

theorem find?_insert (t : SparseTree) (did : String) (update : Digest) (nonce : Option Digest)
    (k : Digest) :
    (t.insert did update nonce).find? k =
      if key did = k then some ⟨nonce, update⟩ else t.find? k := by
  simp [insert, find?, Std.TreeMap.getElem?_insert, Std.LawfulEqCmp.compare_eq_iff_eq]

/-- A tree holds what was committed last for a key. -/
theorem find?_ofCommitments (commitments : List Commitment) (k : Digest) :
    (ofCommitments commitments).find? k =
      (commitments.reverse.find? fun c => key c.did = k).map fun c => ⟨c.nonce, c.update⟩ := by
  induction commitments using List.reverseRecOn with
  | nil => simp [ofCommitments, empty, find?]
  | append_singleton commitments c ih =>
      rw [ofCommitments, List.foldl_append, ← ofCommitments, List.reverse_append]
      simp only [List.foldl_cons, List.foldl_nil, find?_insert, List.reverse_singleton,
        List.singleton_append, List.find?_cons]
      by_cases h : key c.did = k
      · simp [h]
      · simpa [h] using ih

section Distinct

variable {β : Type} [DecidableEq β] {commitments : List Commitment} {f : Commitment → β}

/-- Where commitments differ in something, each is found by it. -/
theorem find?_commitment {c : Commitment} (hnodup : (commitments.map f).Nodup)
    (hc : c ∈ commitments) : (commitments.reverse.find? fun d => f d = f c) = some c := by
  have hsome : (commitments.reverse.find? fun d => f d = f c).isSome := by
    rw [List.find?_isSome]
    exact ⟨c, List.mem_reverse.2 hc, by simp⟩
  obtain ⟨d, hd⟩ := Option.isSome_iff_exists.1 hsome
  have hmem : d ∈ commitments := List.mem_reverse.1 (List.mem_of_find?_eq_some hd)
  have heq : f d = f c := by simpa using List.find?_some hd
  rw [hd, List.inj_on_of_nodup_map hnodup hmem hc heq]

theorem find?_commitment_eq_none {b : β} (h : b ∉ commitments.map f) :
    (commitments.reverse.find? fun d => f d = b) = none := by
  rw [List.find?_eq_none]
  intro d hd heq
  exact h (List.mem_map.2 ⟨d, List.mem_reverse.1 hd, by simpa using heq⟩)

end Distinct

/-- After any commitments, with any replaced by later ones, the proof for an identifier is for the
root and verifies: to what was committed last for an identifier of this key, or to absence. -/
theorem verify_proof_ofCommitments (commitments : List Commitment) (did : String) :
    ((ofCommitments commitments).proof did).root = (ofCommitments commitments).root ∧
      ((ofCommitments commitments).proof did).verify did =
        .ok ((commitments.reverse.find? fun c => key c.did = key did).map Commitment.update) := by
  refine ⟨rfl, ?_⟩
  rw [verify_proof, find?_ofCommitments, Option.map_map]
  rfl

end SparseTree

end AnchoredDid
