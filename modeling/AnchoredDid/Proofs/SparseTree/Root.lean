import AnchoredDid.Proofs.SparseTree

/-!
# The root is that of the whole tree

The whole tree has a leaf for every key and a hash for every node, computed from those of its
children (`SparseTree.whole`). Only a few of its leaves are not empty, and the root is computed from
these alone: the leaves below a node are the run of those whose keys begin with its path
(`SparseTree.along`), which the bit of its level divides into the runs below its children
(`SparseTree.split_along`). So the two computations agree at every node (`SparseTree.node_along`),
and the one over runs never comes to several leaves at the last level, where there is no bit left to
divide them by (`SparseTree.Reached.exists_path`).
-/

namespace AnchoredDid

namespace Digest

/-- Any 256 bits are those of a digest. -/
theorem exists_bits {path : List Bool} (h : path.length = 256) : ∃ d : Digest, d.bits = path := by
  obtain ⟨hbits, hsize⟩ := Bytes.bits_ofBits_of_length (n := 32) h
  exact ⟨⟨Bytes.ofBits path, hsize⟩, hbits⟩

/-- A path that the bits of a digest begin with goes on with the bit of its level. -/
theorem concat_prefix_bits {d : Digest} {path : List Bool} (b : Bool) (h : path.length < 256) :
    path ++ [b] <+: d.bits ↔ path <+: d.bits ∧ d.bit path.length = b := by
  have hnext : path <+: d.bits → (path ++ [b] <+: d.bits ↔ d.bit path.length = b) := by
    intro hpath
    rw [← List.prefix_iff_eq_append.1 hpath, drop_bits d h, List.prefix_append_right_inj,
      List.cons_prefix_cons]
    simp [eq_comm]
  constructor
  · intro hconcat
    have hpath := (List.prefix_append path [b]).trans hconcat
    exact ⟨hpath, (hnext hpath).1 hconcat⟩
  · rintro ⟨hpath, hbit⟩
    exact (hnext hpath).2 hbit

theorem bit_eq_of_prefix {d e : Digest} {path : List Bool} (hd : path <+: d.bits)
    (he : path <+: e.bits) : ∀ i < path.length, d.bit i = e.bit i := by
  intro i hi
  have hlevel : i < 256 := by
    have hlength := hd.length_le
    rw [length_bits] at hlength
    exact Nat.lt_of_lt_of_le hi hlength
  have hbit : ∀ f : Digest, path <+: f.bits → some (f.bit i) = some path[i] := by
    intro f hf
    rw [← List.prefix_iff_getElem?.1 hf i hi]
    exact (Bytes.getElem?_bits f.bytes (by rw [length_bytes]; exact hlevel)).symm
  exact Option.some.inj ((hbit d hd).trans (hbit e he).symm)

end Digest

namespace SparseTree

/-- The hash of a node of the whole tree, at the end of a path and with `levels` levels below it. A
leaf has the hash that `value` gives for its path. -/
def whole (value : List Bool → Digest) : (levels : Nat) → (path : List Bool) → Digest
  | 0, path => value path
  | levels + 1, path =>
    let left := whole value levels (path ++ [false])
    let right := whole value levels (path ++ [true])
    if left = Digest.zero ∧ right = Digest.zero then Digest.zero
    else sha256 (left.bytes ++ right.bytes)

/-- The hash of the leaf at the end of a path: that of the last commitment for the key with these
bits, and zero if there is none. -/
def lastLeaf (commitments : List Commitment) (path : List Bool) : Digest :=
  match commitments.reverse.find? fun c => (key c.did).bits = path with
  | some c => leaf c.nonce (some c.update)
  | none => Digest.zero

/-- The leaves whose keys begin with a path. -/
def along (path : List Bool) (leaves : Leaves) : Leaves :=
  leaves.filter fun leaf => path.isPrefixOf leaf.1.bits

section Runs

variable {leaves : Leaves} {path : List Bool}

@[simp] theorem along_nil (leaves : Leaves) : along [] leaves = leaves :=
  List.filter_eq_self.2 fun _ _ => rfl

theorem mem_along {leaf : Digest × Digest} :
    leaf ∈ along path leaves ↔ leaf ∈ leaves ∧ path <+: leaf.1.bits := by
  rw [along, List.mem_filter, List.isPrefixOf_iff_prefix]

theorem along_concat (b : Bool) (h : path.length < depth) :
    along (path ++ [b]) leaves =
      (along path leaves).filter fun leaf => leaf.1.bit path.length = b := by
  rw [along, along, List.filter_filter]
  refine List.filter_congr fun leaf _ => ?_
  rw [Bool.eq_iff_iff, List.isPrefixOf_iff_prefix, Digest.concat_prefix_bits b h, Bool.and_eq_true,
    decide_eq_true_eq, List.isPrefixOf_iff_prefix, and_comm]

/-- Leaves are in the order of their keys. -/
abbrev Ordered (leaves : Leaves) : Prop :=
  leaves.Pairwise fun a b => compare a.1 b.1 = .lt

theorem ordered_along (ordered : Ordered leaves) (path : List Bool) : Ordered (along path leaves) :=
  ordered.sublist List.filter_sublist

/-- The leaves along a path are the run below a node of each of their keys. -/
theorem run_along (ordered : Ordered leaves) {leaf : Digest × Digest}
    (h : leaf ∈ along path leaves) : Run leaf.1 path.length (along path leaves) where
  ordered := ordered_along ordered path
  shared _ hother := Digest.bit_eq_of_prefix (mem_along.1 hother).2 (mem_along.1 h).2

/-- The bit of a level divides the leaves along a path into those along the paths to its
children. -/
theorem split_along (ordered : Ordered leaves) (h : path.length < depth) :
    split path.length (along path leaves) =
      (along (path ++ [false]) leaves, along (path ++ [true]) leaves) := by
  rw [along_concat false h, along_concat true h]
  cases halong : along path leaves with
  | nil => rfl
  | cons first rest =>
      have hfirst : first ∈ along path leaves := by simp [halong]
      have hrun := run_along ordered hfirst
      rw [halong] at hrun
      simpa using hrun.split_eq

/-- To descend along a path is to keep the leaves along it. -/
theorem below_along (ordered : Ordered leaves) {rest : List Bool}
    (h : path.length + rest.length = depth) :
    below rest (along path leaves) = along (path ++ rest) leaves := by
  induction rest generalizing path with
  | nil => rw [below, List.append_nil]
  | cons step rest ih =>
      rw [List.length_cons] at h
      have hlevel : depth - (rest.length + 1) = path.length := by omega
      have hlength : (path ++ [step]).length + rest.length = depth := by
        rw [List.length_append, List.length_singleton]
        omega
      have hstep := ih hlength
      rw [List.append_assoc, List.singleton_append] at hstep
      rw [below, hlevel, split_along ordered (by omega)]
      cases step with
      | false => exact hstep
      | true => exact hstep

theorem length_along_le (ordered : Ordered leaves) (h : path.length = depth) :
    (along path leaves).length ≤ 1 := by
  match halong : along path leaves with
  | [] => exact Nat.zero_le _
  | [_] => exact Nat.le_refl _
  | a :: b :: rest =>
      have hkey : ∀ leaf ∈ along path leaves, path = leaf.1.bits := by
        intro leaf hleaf
        exact (mem_along.1 hleaf).2.eq_of_length (by rw [h, Digest.length_bits, depth])
      have hab : a.1 = b.1 := Digest.bits_injective
        ((hkey a (by simp [halong])).symm.trans (hkey b (by simp [halong])))
      have hlt : compare a.1 b.1 = .lt := by
        have hordered := ordered_along ordered path
        rw [halong] at hordered
        exact (List.pairwise_cons.1 hordered).1 b List.mem_cons_self
      rw [hab, Std.ReflOrd.compare_self] at hlt
      cases hlt

end Runs

/-! ## The two computations -/

theorem parent_eq (left right : Digest) :
    parent left right = if left = Digest.zero ∧ right = Digest.zero then Digest.zero
      else sha256 (left.bytes ++ right.bytes) := by
  simp only [parent, Digest.isZero, Bool.and_eq_true, decide_eq_true_eq]

/-- A node that is computed from the leaves along its path is that of the whole tree, if it is so at
the last level. -/
theorem node_along {leaves : Leaves} {value : List Bool → Digest} (ordered : Ordered leaves)
    (hvalue : ∀ path, path.length = depth → node 0 (along path leaves) = value path)
    {levels : Nat} {path : List Bool} (h : path.length + levels = depth) :
    node levels (along path leaves) = whole value levels path := by
  induction levels generalizing path with
  | zero => exact hvalue path h
  | succ levels ih =>
      have hlevel : depth - (levels + 1) = path.length := by omega
      have hchild :
          ∀ b, node levels (along (path ++ [b]) leaves) = whole value levels (path ++ [b]) :=
        fun b => ih (by rw [List.length_append, List.length_singleton]; omega)
      rw [node_succ, hlevel, split_along ordered (by omega), hchild, hchild, parent_eq]
      rfl

/-- The last commitments are what a tree holds. -/
theorem lastLeaf_bits (commitments : List Commitment) (k : Digest) :
    lastLeaf commitments k.bits = (ofCommitments commitments).leafAt k := by
  have hkey : (fun c : Commitment => decide ((key c.did).bits = k.bits)) =
      fun c => decide (key c.did = k) := by
    funext c
    exact decide_eq_decide.2 ⟨Digest.bits_injective, congrArg Digest.bits⟩
  rw [leafAt, find?_ofCommitments, lastLeaf, hkey]
  cases commitments.reverse.find? fun c => decide (key c.did = k) with
  | none => rfl
  | some c => rfl

theorem ordered_leaves (t : SparseTree) : Ordered t.leaves :=
  (t.run_leaves Digest.zero).ordered

theorem node_zero_along (commitments : List Commitment) {path : List Bool}
    (h : path.length = depth) :
    node 0 (along path (ofCommitments commitments).leaves) = lastLeaf commitments path := by
  obtain ⟨k, rfl⟩ := Digest.exists_bits h
  rw [lastLeaf_bits, ← node_below]
  have hlength : ([] : List Bool).length + k.bits.length = depth := (Nat.zero_add _).trans h
  have hbelow := below_along (ordered_leaves (ofCommitments commitments)) hlength
  rw [along_nil, List.nil_append] at hbelow
  rw [hbelow]

/-- What is held by key decides the leaves, and they are in order. -/
theorem root_eq_of_find?_eq {t u : SparseTree} (h : ∀ k, t.find? k = u.find? k) :
    t.root = u.root := by
  have hsame : t.entries.Equiv u.entries := .of_forall_constGet?_eq h
  rw [root, root, leaves, leaves, hsame.toList_eq]

/-- Commitments for different keys come to the same in any order. -/
theorem find?_ofCommitments_of_perm {commitments others : List Commitment}
    (perm : commitments.Perm others) (distinct : (commitments.map fun c => key c.did).Nodup)
    (k : Digest) : (ofCommitments others).find? k = (ofCommitments commitments).find? k := by
  have hkeys := perm.map fun c => key c.did
  rw [find?_ofCommitments, find?_ofCommitments]
  by_cases hk : k ∈ commitments.map fun c => key c.did
  · obtain ⟨c, hc, rfl⟩ := List.mem_map.1 hk
    rw [find?_commitment (f := fun c => key c.did) (hkeys.nodup distinct) (perm.subset hc),
      find?_commitment (f := fun c => key c.did) distinct hc]
  · have hk' : k ∉ others.map fun c => key c.did := fun h => hk (hkeys.symm.subset h)
    rw [find?_commitment_eq_none hk, find?_commitment_eq_none hk']

/-! ## The nodes that are computed -/

/-- The hash of a node is computed from those of its children: leaves are below it, and it is not
the last level with one of them. -/
def Divided (level : Nat) (run : Leaves) : Prop :=
  run ≠ [] ∧ ¬ (level = depth ∧ run.length = 1)

/-- The nodes that the hash of the root is computed from, each by its level and the run of leaves
below it. -/
inductive Reached (leaves : Leaves) : (level : Nat) → (run : Leaves) → Prop
  | root : Reached leaves 0 leaves
  | left {level : Nat} {run : Leaves} (above : Reached leaves level run)
      (divided : Divided level run) : Reached leaves (level + 1) (split level run).1
  | right {level : Nat} {run : Leaves} (above : Reached leaves level run)
      (divided : Divided level run) : Reached leaves (level + 1) (split level run).2

/-- A run that is divided has a bit to divide it by. -/
theorem level_lt_of_divided {leaves : Leaves} (ordered : Ordered leaves) {path : List Bool}
    (h : path.length ≤ depth) (divided : Divided path.length (along path leaves)) :
    path.length < depth := by
  refine Nat.lt_of_le_of_ne h fun hlast => divided.2 ⟨hlast, ?_⟩
  have hpositive := List.length_pos_iff.2 divided.1
  have hone := length_along_le ordered hlast
  omega

/-- The leaves below a node that is reached are those along its path. -/
theorem Reached.exists_path {leaves run : Leaves} (ordered : Ordered leaves) {level : Nat}
    (h : Reached leaves level run) :
    ∃ path : List Bool, path.length = level ∧ level ≤ depth ∧ run = along path leaves := by
  induction h with
  | root => exact ⟨[], rfl, Nat.zero_le _, (along_nil leaves).symm⟩
  | left _ divided ih =>
      obtain ⟨path, rfl, hle, rfl⟩ := ih
      have hlt := level_lt_of_divided ordered hle divided
      exact ⟨path ++ [false], List.length_append, hlt, by rw [split_along ordered hlt]⟩
  | right _ divided ih =>
      obtain ⟨path, rfl, hle, rfl⟩ := ih
      have hlt := level_lt_of_divided ordered hle divided
      exact ⟨path ++ [true], List.length_append, hlt, by rw [split_along ordered hlt]⟩

/-- What the computation relies on at a node: at most one leaf is left at the last level, so that
runs are divided by bits that keys have, and a run is divided at the only place where the bit of its
level changes. -/
structure Sound (level : Nat) (run : Leaves) : Prop where
  level_le : level ≤ depth
  length_le : level = depth → run.length ≤ 1
  level_lt : Divided level run → level < depth
  split_eq : Divided level run → split level run =
    (run.filter fun leaf => !leaf.1.bit level, run.filter fun leaf => leaf.1.bit level)
  node_eq : Divided level run → node (depth - level) run =
    parent (node (depth - (level + 1)) (split level run).1)
      (node (depth - (level + 1)) (split level run).2)

theorem sound_of_reached {leaves run : Leaves} (ordered : Ordered leaves) {level : Nat}
    (h : Reached leaves level run) : Sound level run := by
  obtain ⟨path, rfl, hle, rfl⟩ := h.exists_path ordered
  refine ⟨hle, length_along_le ordered, level_lt_of_divided ordered hle, ?_, ?_⟩
  · rintro ⟨hsome, -⟩
    obtain ⟨leaf, hleaf⟩ := List.exists_mem_of_ne_nil _ hsome
    exact (run_along ordered hleaf).split_eq
  · intro divided
    have hlt := level_lt_of_divided ordered hle divided
    have hlevels : depth - path.length = depth - (path.length + 1) + 1 := by omega
    have hlevel : depth - (depth - (path.length + 1) + 1) = path.length := by omega
    rw [hlevels, node_succ, hlevel]

/-- The root after any commitments is that of the whole tree, in which a leaf has the hash of the
last commitment for its key. So it depends only on what is held by key in the end, and for different
keys not on the order. Its computation divides runs of leaves by bits that keys have, and never
comes to several leaves at the last level. -/
theorem root_eq_whole (commitments : List Commitment) :
    (ofCommitments commitments).root = whole (lastLeaf commitments) depth [] ∧
    (∀ others : List Commitment,
      (∀ k, (ofCommitments others).find? k = (ofCommitments commitments).find? k) →
        (ofCommitments others).root = (ofCommitments commitments).root) ∧
    (∀ others : List Commitment, commitments.Perm others →
      (commitments.map fun c => key c.did).Nodup →
        (ofCommitments others).root = (ofCommitments commitments).root) ∧
    ∀ (level : Nat) (run : Leaves),
      Reached (ofCommitments commitments).leaves level run → Sound level run := by
  have ordered := ordered_leaves (ofCommitments commitments)
  refine ⟨?_, fun _ h => root_eq_of_find?_eq h, ?_, fun _ _ h => sound_of_reached ordered h⟩
  · have hlevels : ([] : List Bool).length + depth = depth := Nat.zero_add depth
    have hroot := node_along ordered (fun _ => node_zero_along commitments) hlevels
    rwa [along_nil] at hroot
  · intro others perm distinct
    exact root_eq_of_find?_eq (find?_ofCommitments_of_perm perm distinct)

namespace Swapped

def first : Commitment := ⟨"did:btcr2:first", Digest.zero, none⟩

def second : Commitment := ⟨"did:btcr2:second", Digest.zero, none⟩

/-- A commitment that the first one replaces. -/
def replaced : Commitment := ⟨first.did, Digest.zero, some Digest.zero⟩

theorem distinct : ([first, second].map fun c => key c.did).Nodup := by
  decide +kernel

theorem find?_replaced (k : Digest) :
    (ofCommitments [replaced, first, second]).find? k =
    (ofCommitments [first, second]).find? k := by
  rw [find?_ofCommitments, find?_ofCommitments, List.reverse_cons, List.find?_append]
  by_cases hk : key first.did = k
  · have hfound : ([first, second].reverse.find? fun c => key c.did = k).isSome := by
      rw [List.find?_isSome]
      exact ⟨first, by simp, by simpa using hk⟩
    rw [Option.or_of_isSome hfound]
  · have hother : ¬ key replaced.did = k := hk
    have hnone : ([replaced].find? fun c => key c.did = k) = none := by simpa using hother
    rw [hnone, Option.or_none]

theorem divided : Divided 0 (ofCommitments [first, second]).leaves := by
  have hfound : (ofCommitments [first, second]).find? (key second.did) =
      some ⟨second.nonce, second.update⟩ := by
    rw [find?_ofCommitments]
    simp
  refine ⟨List.ne_nil_of_mem (mem_leaves.2 ⟨_, hfound, rfl⟩), ?_⟩
  rintro ⟨hlevel, -⟩
  cases hlevel

end Swapped

open Swapped in
/-- Two commitments in either order, and with a third one that is replaced. -/
theorem root_eq_whole_swapped :
    (∀ k, (ofCommitments [replaced, first, second]).find? k =
      (ofCommitments [first, second]).find? k) ∧
    [first, second].Perm [second, first] ∧
    ([first, second].map fun c => key c.did).Nodup ∧
    (ofCommitments [replaced, first, second]).root = (ofCommitments [first, second]).root ∧
    (ofCommitments [second, first]).root = (ofCommitments [first, second]).root ∧
    Reached (ofCommitments [first, second]).leaves 0 (ofCommitments [first, second]).leaves ∧
    Sound 0 (ofCommitments [first, second]).leaves ∧
    Divided 0 (ofCommitments [first, second]).leaves := by
  have hperm : [first, second].Perm [second, first] := .swap _ _ _
  obtain ⟨-, hmap, horder, hreached⟩ := root_eq_whole [first, second]
  exact ⟨find?_replaced, hperm, distinct, hmap _ find?_replaced, horder _ hperm distinct, .root,
    hreached 0 _ .root, divided⟩

end SparseTree

end AnchoredDid
