import AnchoredDid.Proofs.Hash.Sha256
import AnchoredDid.Proofs.Outcome
import AnchoredDid.SparseTree
import Mathlib.Data.List.Nodup

/-!
# A root commits to one answer for an identifier

Two proofs for one root may come from anywhere: they may leave out a zero sibling or spell it, and
have a nonce for a leaf that is empty. As long as their verifications meet no collision and no input
with the zero hash (`CollisionFree`), a node tells what was hashed into it, or that nothing was. The
two climbs take the same sides of the same nodes, so they started at the same leaf
(`TreeProof.start_eq_of_top_eq`), and a leaf tells its update (`TreeProof.verify_eq_of_root_eq`).

A path whose siblings are zero can be spelled in many ways (`TreeProof.verify_lone`). That no two of
its 256 nodes have the same hash is computed from their words (`SparseTree.first_trunk`).
-/

namespace AnchoredDid

namespace SparseTree

/-- The bytes that are hashed into a leaf; into an empty one none are. -/
def leafInput (nonce update : Option Digest) : Option Bytes :=
  update.map fun u => nonce.elim [] Digest.bytes ++ u.bytes

/-- The bytes that are hashed into a node from those of its children. -/
def parentInput (left right : Digest) : Option Bytes :=
  if left.isZero && right.isZero then none else some (left.bytes ++ right.bytes)

/-- The bytes that are hashed into the node above another one on this side. -/
def aboveInput (right : Bool) (node sibling : Digest) : Option Bytes :=
  if right then parentInput sibling node else parentInput node sibling

/-- The hash of what goes into a node. -/
def hashOf (input : Option Bytes) : Digest :=
  input.elim Digest.zero sha256

theorem leaf_eq_hashOf (nonce update : Option Digest) :
    leaf nonce update = hashOf (leafInput nonce update) := by
  cases nonce <;> cases update <;> rfl

theorem parent_eq_hashOf (left right : Digest) :
    parent left right = hashOf (parentInput left right) := by
  rw [parent, parentInput]
  split <;> rfl

theorem above_eq_hashOf (right : Bool) (node sibling : Digest) :
    above right node sibling = hashOf (aboveInput right node sibling) := by
  cases right <;> exact parent_eq_hashOf _ _

/-- A leaf's bytes tell its update: with a nonce they are twice as many. -/
theorem update_eq_of_leafInput_eq {nonce nonce' update update' : Option Digest}
    (h : leafInput nonce update = leafInput nonce' update') : update = update' := by
  cases update with
  | none => cases update' with
    | none => rfl
    | some u' => cases h
  | some u => cases update' with
    | none => cases h
    | some u' =>
        have hbytes := Option.some.inj h
        have hu : u.bytes = u'.bytes :=
          (List.append_inj' hbytes (by rw [u.size, u'.size])).2
        rw [Digest.ext hu]

/-- A node's bytes tell its children, and so does it that there are none. -/
theorem children_eq_of_parentInput_eq {left left' right right' : Digest}
    (h : parentInput left right = parentInput left' right') : left = left' ∧ right = right' := by
  simp only [parentInput, Digest.isZero, Bool.and_eq_true, decide_eq_true_eq] at h
  by_cases hzero : left = Digest.zero ∧ right = Digest.zero
  · by_cases hzero' : left' = Digest.zero ∧ right' = Digest.zero
    · exact ⟨hzero.1.trans hzero'.1.symm, hzero.2.trans hzero'.2.symm⟩
    · rw [if_pos hzero, if_neg hzero'] at h
      cases h
  · by_cases hzero' : left' = Digest.zero ∧ right' = Digest.zero
    · rw [if_neg hzero, if_pos hzero'] at h
      cases h
    · rw [if_neg hzero, if_neg hzero'] at h
      have hbytes := List.append_inj (Option.some.inj h) (by rw [left.size, left'.size])
      exact ⟨Digest.ext hbytes.1, Digest.ext hbytes.2⟩

theorem node_eq_of_aboveInput_eq {right : Bool} {node node' sibling sibling' : Digest}
    (h : aboveInput right node sibling = aboveInput right node' sibling') : node = node' := by
  cases right with
  | false => exact (children_eq_of_parentInput_eq h).1
  | true => exact (children_eq_of_parentInput_eq h).2

/-- No two of these byte strings have the same hash, and none has that of an empty node. -/
structure CollisionFree (inputs : List Bytes) : Prop where
  injective : ∀ x ∈ inputs, ∀ y ∈ inputs, sha256 x = sha256 y → x = y
  nonzero : ∀ x ∈ inputs, sha256 x ≠ Digest.zero

/-- Where there are no collisions, a hash tells what went into it. -/
theorem CollisionFree.input_eq {inputs : List Bytes} (hfree : CollisionFree inputs)
    {x y : Option Bytes} (hx : ∀ input ∈ x, input ∈ inputs) (hy : ∀ input ∈ y, input ∈ inputs)
    (h : hashOf x = hashOf y) : x = y := by
  cases x with
  | none => cases y with
    | none => rfl
    | some input => exact absurd h.symm (hfree.nonzero input (hy input rfl))
  | some input => cases y with
    | none => exact absurd h (hfree.nonzero input (hx input rfl))
    | some input' =>
        rw [hfree.injective input (hx input rfl) input' (hy input' rfl) h]

/-- Byte strings with hashes that are all different and not zero. -/
theorem CollisionFree.of_nodup {inputs : List Bytes} (distinct : List Bytes)
    (h : (Digest.zero :: distinct.map sha256).Nodup) (hsub : inputs ⊆ distinct) :
    CollisionFree inputs := by
  obtain ⟨hzero, hnodup⟩ := List.nodup_cons.1 h
  constructor
  · intro x hx y hy hxy
    exact List.inj_on_of_nodup_map hnodup (hsub hx) (hsub hy) hxy
  · intro x hx hhash
    exact hzero (List.mem_map.2 ⟨x, hsub hx, hhash⟩)

/-! ## Above a node whose siblings are zero -/

/-- The node at the end of a path, of which only the siblings are zero. -/
def top (sides : List Bool) (node : Digest) : Digest :=
  sides.foldl (fun node right => above right node Digest.zero) node

/-- The byte strings that are hashed on this path. -/
def trunk : (sides : List Bool) → Digest → List Bytes
  | [], _ => []
  | right :: sides, node =>
    (aboveInput right node Digest.zero).toList ++ trunk sides (above right node Digest.zero)

/-- The words of the node above another one. -/
def aboveWords (right : Bool) (node : List Nat) : List Nat :=
  Sha256.Numbers.hash (if right then Digest.zero.words ++ node else node ++ Digest.zero.words)

/-- The first words of the nodes on this path. -/
def trunkWords : (sides : List Bool) → List Nat → List Nat
  | [], _ => []
  | right :: sides, node =>
    let node := aboveWords right node
    node.headD 0 :: trunkWords sides node

end SparseTree

/-- The first word of a digest. -/
def Digest.first (d : Digest) : Nat :=
  d.words.headD 0

namespace SparseTree

/-- The hashes on this path begin with the words that are computed, if none of these is zero. -/
theorem first_trunk {sides : List Bool} {node : Digest} (hnode : node.first ≠ 0)
    (h : 0 ∉ trunkWords sides node.words) :
    ((trunk sides node).map sha256).map Digest.first = trunkWords sides node.words := by
  induction sides generalizing node with
  | nil => rfl
  | cons right sides ih =>
    have hzero : node.isZero = false := by
      refine decide_eq_false ?_
      rintro rfl
      exact hnode rfl
    obtain ⟨input, hinput, hwords⟩ : ∃ input, aboveInput right node Digest.zero = some input ∧
        (sha256 input).words = aboveWords right node.words := by
      cases right with
      | false =>
          refine ⟨node.bytes ++ Digest.zero.bytes, ?_, Digest.words_sha256_append _ _⟩
          simp [aboveInput, parentInput, hzero]
      | true =>
          refine ⟨Digest.zero.bytes ++ node.bytes, ?_, Digest.words_sha256_append _ _⟩
          simp [aboveInput, parentInput, hzero]
    have habove : above right node Digest.zero = sha256 input := by
      rw [above_eq_hashOf, hinput]
      rfl
    rw [trunkWords, List.mem_cons, not_or, ← hwords] at h
    rw [trunk, hinput, habove, trunkWords, ← hwords]
    refine congrArg (List.cons _) (ih ?_ h.2)
    exact Ne.symm h.1

end SparseTree

namespace TreeProof

open SparseTree (leafInput aboveInput CollisionFree)

/-- The byte strings that a climb hashes. -/
def climbed : (steps : List (Bool × Bool)) → Digest → List Digest → List Bytes
  | [], _, _ => []
  | (right, true) :: steps, node, hashes =>
    (aboveInput right node Digest.zero).toList
      ++ climbed steps (SparseTree.above right node Digest.zero) hashes
  | (_, false) :: _, _, [] => []
  | (right, false) :: steps, node, sibling :: hashes =>
    (aboveInput right node sibling).toList
      ++ climbed steps (SparseTree.above right node sibling) hashes

/-- The byte strings that a verification hashes. -/
def hashed (p : TreeProof) (did : String) : List Bytes :=
  match p.bitmap with
  | .error _ => []
  | .ok bitmap =>
    Bytes.ofText did :: (leafInput p.nonce p.update).toList
      ++ climbed ((SparseTree.key did).bits.zip bitmap).reverse (SparseTree.leaf p.nonce p.update)
        p.hashes

/-- One step of a climb goes to the node above, with a sibling that it finds or knows to be zero. -/
theorem climb_cons_eq_ok {right collapsed : Bool} {steps : List (Bool × Bool)} {node top : Digest}
    {hashes : List Digest} (h : climb ((right, collapsed) :: steps) node hashes = .ok top) :
    ∃ sibling others, climb steps (SparseTree.above right node sibling) others = .ok top ∧
      climbed ((right, collapsed) :: steps) node hashes =
        (aboveInput right node sibling).toList
          ++ climbed steps (SparseTree.above right node sibling) others := by
  cases collapsed with
  | true => exact ⟨Digest.zero, hashes, h, rfl⟩
  | false => cases hashes with
    | nil => cases h
    | cons sibling others => exact ⟨sibling, others, h, rfl⟩

/-- Climbs on the same sides that meet at the top started at the same node. -/
theorem start_eq_of_top_eq {inputs : List Bytes} (hfree : CollisionFree inputs)
    {steps steps' : List (Bool × Bool)} (hsides : steps.map Prod.fst = steps'.map Prod.fst)
    {node node' top : Digest} {hashes hashes' : List Digest}
    (hinputs : ∀ input ∈ climbed steps node hashes, input ∈ inputs)
    (hinputs' : ∀ input ∈ climbed steps' node' hashes', input ∈ inputs)
    (htop : climb steps node hashes = .ok top) (htop' : climb steps' node' hashes' = .ok top) :
    node = node' := by
  induction steps generalizing steps' node node' hashes hashes' with
  | nil =>
      obtain rfl := List.map_eq_nil_iff.mp hsides.symm
      cases hashes with
      | nil => cases hashes' with
        | nil => exact Except.ok.inj (htop.trans htop'.symm)
        | cons => cases htop'
      | cons => cases htop
  | cons step steps ih =>
      obtain ⟨step', steps', rfl⟩ :=
        List.exists_cons_of_ne_nil (l := steps') (by rintro rfl; cases hsides)
      obtain ⟨right, collapsed⟩ := step
      obtain ⟨right', collapsed'⟩ := step'
      obtain ⟨rfl, hbelow⟩ : right = right' ∧ steps.map Prod.fst = steps'.map Prod.fst :=
        List.cons.inj hsides
      obtain ⟨sibling, others, hclimb, hclimbed⟩ := climb_cons_eq_ok htop
      obtain ⟨sibling', others', hclimb', hclimbed'⟩ := climb_cons_eq_ok htop'
      rw [hclimbed] at hinputs
      rw [hclimbed'] at hinputs'
      have habove := ih hbelow (fun input h => hinputs input (List.mem_append_right _ h))
        (fun input h => hinputs' input (List.mem_append_right _ h)) hclimb hclimb'
      rw [SparseTree.above_eq_hashOf, SparseTree.above_eq_hashOf] at habove
      refine SparseTree.node_eq_of_aboveInput_eq (hfree.input_eq ?_ ?_ habove)
      · exact fun input h => hinputs input (List.mem_append_left _ (Option.mem_toList.mpr h))
      · exact fun input h => hinputs' input (List.mem_append_left _ (Option.mem_toList.mpr h))

theorem length_bitmap {p : TreeProof} {bitmap : List Bool} (h : p.bitmap = .ok bitmap) :
    bitmap.length = 256 := by
  rw [TreeProof.bitmap] at h
  split at h
  · cases h
  · split at h
    case isTrue hsize =>
      obtain rfl := Except.ok.inj h
      rw [Bytes.length_bits, hsize]
    case isFalse => cases h

/-- A proof verifies if it climbs from its leaf to its root. -/
theorem verify_eq_ok_iff {p : TreeProof} {did : String} {update : Option Digest} :
    p.verify did = .ok update ↔
      p.update = update ∧ ∃ bitmap, p.bitmap = .ok bitmap ∧
        climb ((SparseTree.key did).bits.zip bitmap).reverse (SparseTree.leaf p.nonce p.update)
          p.hashes = .ok p.root := by
  constructor
  · intro h
    obtain ⟨bitmap, hbitmap, hclimb⟩ := bind_eq_ok_iff.1 h
    obtain ⟨computed, hcomputed, hroot⟩ := bind_eq_ok_iff.1 hclimb
    split at hroot
    case isFalse => cases hroot
    case isTrue heq => exact ⟨Except.ok.inj hroot, bitmap, hbitmap, heq ▸ hcomputed⟩
  · rintro ⟨rfl, bitmap, hbitmap, hclimb⟩
    exact bind_eq_ok_iff.2 ⟨bitmap, hbitmap, bind_eq_ok_iff.2 ⟨p.root, hclimb, if_pos rfl⟩⟩

/-- The sides that a climb takes are the bits of the key. -/
theorem map_fst_steps (key : Digest) {bitmap : List Bool} (h : bitmap.length = 256) :
    (key.bits.zip bitmap).reverse.map Prod.fst = key.bits.reverse := by
  rw [List.map_reverse, List.map_fst_zip (by simp [h])]

/-- Proofs for one root that verify for an identifier give the same answer, unless one of them
hashes to zero or the two have a collision. -/
theorem verify_eq_of_root_eq {p q : TreeProof} {did : String} {update update' : Option Digest}
    (hroot : p.root = q.root)
    (hfree : CollisionFree (p.hashed did ++ q.hashed did))
    (hp : p.verify did = .ok update) (hq : q.verify did = .ok update') : update = update' := by
  obtain ⟨rfl, bitmap, hbitmap, hclimb⟩ := verify_eq_ok_iff.1 hp
  obtain ⟨rfl, bitmap', hbitmap', hclimb'⟩ := verify_eq_ok_iff.1 hq
  have hinputs : ∀ input ∈ p.hashed did, input ∈ p.hashed did ++ q.hashed did :=
    fun _ => List.mem_append_left _
  have hinputs' : ∀ input ∈ q.hashed did, input ∈ p.hashed did ++ q.hashed did :=
    fun _ => List.mem_append_right _
  generalize p.hashed did ++ q.hashed did = inputs at hfree hinputs hinputs'
  simp only [hashed, hbitmap, hbitmap', List.cons_append, List.mem_cons, List.mem_append,
    Option.mem_toList] at hinputs hinputs'
  have hsides := (map_fst_steps (SparseTree.key did) (length_bitmap hbitmap)).trans
    (map_fst_steps (SparseTree.key did) (length_bitmap hbitmap')).symm
  have hleaf := start_eq_of_top_eq hfree hsides (fun input h => hinputs input (.inr (.inr h)))
    (fun input h => hinputs' input (.inr (.inr h))) hclimb (hroot ▸ hclimb')
  rw [SparseTree.leaf_eq_hashOf, SparseTree.leaf_eq_hashOf] at hleaf
  exact SparseTree.update_eq_of_leafInput_eq <| hfree.input_eq
    (fun input h => hinputs input (.inr (.inl h)))
    (fun input h => hinputs' input (.inr (.inl h))) hleaf

/-! ## Spellings of one proof -/

/-- That an update is committed, where all siblings are zero; `spelled` of them are listed. -/
def lone (did : String) (update : Digest) (collapsed : String) (spelled : Nat) : TreeProof where
  root := SparseTree.top (SparseTree.key did).bits.reverse (sha256 update.bytes)
  nonce := none
  update := some update
  collapsed := collapsed
  hashes := List.replicate spelled Digest.zero

/-- A climb among zero siblings is the same whether these are spelled or left out. -/
theorem climb_zero (steps : List (Bool × Bool)) (node : Digest) :
    climb steps node (List.replicate ((steps.map Prod.snd).count false) Digest.zero) =
        .ok (SparseTree.top (steps.map Prod.fst) node) ∧
      climbed steps node (List.replicate ((steps.map Prod.snd).count false) Digest.zero) =
        SparseTree.trunk (steps.map Prod.fst) node := by
  induction steps generalizing node with
  | nil => exact ⟨rfl, rfl⟩
  | cons step steps ih =>
      obtain ⟨right, collapsed⟩ := step
      obtain ⟨hclimb, hclimbed⟩ := ih (SparseTree.above right node Digest.zero)
      cases collapsed with
      | true =>
          rw [List.map_cons, List.count_cons_of_ne (nofun : true ≠ false)]
          exact ⟨hclimb, congrArg (_ ++ ·) hclimbed⟩
      | false =>
          rw [List.map_cons, List.count_cons_self, List.replicate_succ]
          exact ⟨hclimb, congrArg (_ ++ ·) hclimbed⟩

/-- With a bitmap that marks the others of its siblings, such a proof verifies. -/
theorem verify_lone {did : String} {update : Digest} {collapsed : String} {spelled : Nat}
    {bitmap : List Bool} (hbitmap : (lone did update collapsed spelled).bitmap = .ok bitmap)
    (hspelled : bitmap.count false = spelled) :
    (lone did update collapsed spelled).verify did = .ok (some update) ∧
      (lone did update collapsed spelled).hashed did =
        Bytes.ofText did :: update.bytes ::
          SparseTree.trunk (SparseTree.key did).bits.reverse (sha256 update.bytes) := by
  have hmarks : ((SparseTree.key did).bits.zip bitmap).reverse.map Prod.snd = bitmap.reverse := by
    rw [List.map_reverse, List.map_snd_zip (by simp [length_bitmap hbitmap])]
  obtain ⟨hclimb, hclimbed⟩ :=
    climb_zero ((SparseTree.key did).bits.zip bitmap).reverse (sha256 update.bytes)
  rw [map_fst_steps _ (length_bitmap hbitmap), hmarks, List.count_reverse, hspelled]
    at hclimb hclimbed
  constructor
  · refine verify_eq_ok_iff.2 ⟨rfl, bitmap, hbitmap, ?_⟩
    simpa only [lone, SparseTree.leaf] using hclimb
  · rw [hashed, hbitmap]
    exact congrArg (Bytes.ofText did :: update.bytes :: ·) hclimbed

namespace Absence

/-- An identifier in the left half of a tree that holds something in its right half only. -/
def did : String := "did:btcr2:absent"

def sibling : Digest := ⟨List.replicate 32 1, rfl⟩

def root : Digest := sha256 (Digest.zero.bytes ++ sibling.bytes)

/-- The proof that a tree makes. -/
def brief : TreeProof :=
  ⟨root, none, none, "7fffffffffffffffffffffffffffffffffffffffffffffffffffffffffffffff", [sibling]⟩

/-- One that spells the leaf's sibling, which is zero, and has a nonce. -/
def spelled : TreeProof :=
  ⟨root, some sibling, none, "7ffffffffffffffffffffffffffffffffffffffffffffffffffffffffffffffe",
    [Digest.zero, sibling]⟩

theorem hashed_brief :
    brief.hashed did = [Bytes.ofText did, Digest.zero.bytes ++ sibling.bytes] := by
  decide +kernel

theorem hashed_spelled :
    spelled.hashed did = [Bytes.ofText did, Digest.zero.bytes ++ sibling.bytes] := by
  decide +kernel

theorem collisionFree : CollisionFree (brief.hashed did ++ spelled.hashed did) := by
  rw [hashed_brief, hashed_spelled]
  refine .of_nodup [Bytes.ofText did, Digest.zero.bytes ++ sibling.bytes] ?_ ?_
  · decide +kernel
  · simp

theorem verify_brief : brief.verify did = .ok brief.update :=
  eq_ok_of_toOption (by decide +kernel)

theorem verify_spelled : spelled.verify did = .ok spelled.update :=
  eq_ok_of_toOption (by decide +kernel)

theorem root_eq : brief.root = spelled.root := rfl

end Absence

namespace Inclusion

/-- The only identifier that a tree holds something for. -/
def did : String := "did:btcr2:alone"

def update : Digest := ⟨List.replicate 32 2, rfl⟩

/-- The proof that the tree makes. -/
def brief : TreeProof :=
  lone did update "ffffffffffffffffffffffffffffffffffffffffffffffffffffffffffffffff" 0

/-- One that spells the highest and the lowest sibling. -/
def spelled : TreeProof :=
  lone did update "7ffffffffffffffffffffffffffffffffffffffffffffffffffffffffffffffe" 2

/-- What both hash: the identifier, the update and a node on each level. -/
def inputs : List Bytes :=
  Bytes.ofText did :: update.bytes ::
    SparseTree.trunk (SparseTree.key did).bits.reverse (sha256 update.bytes)

theorem verified_brief : brief.verify did = .ok brief.update ∧ brief.hashed did = inputs := by
  have hbitmap : brief.bitmap = .ok (List.replicate 256 true) :=
    eq_ok_of_toOption (by decide +kernel)
  exact verify_lone hbitmap (by decide +kernel)

theorem verified_spelled :
    spelled.verify did = .ok spelled.update ∧ spelled.hashed did = inputs := by
  have hbitmap : spelled.bitmap = .ok (false :: List.replicate 254 true ++ [false]) :=
    eq_ok_of_toOption (by decide +kernel)
  exact verify_lone hbitmap (by decide +kernel)

/-- No two of these hashes begin with the same word, and none with zero. -/
theorem words_nodup :
    (0 :: (SparseTree.key did).first :: (sha256 update.bytes).first ::
      SparseTree.trunkWords (SparseTree.key did).bits.reverse
        (sha256 update.bytes).words).Nodup := by
  decide +kernel

theorem collisionFree : CollisionFree (brief.hashed did ++ spelled.hashed did) := by
  obtain ⟨hzero, -⟩ := List.nodup_cons.1 words_nodup
  simp only [List.mem_cons, not_or] at hzero
  have htrunk := SparseTree.first_trunk (Ne.symm hzero.2.1) hzero.2.2
  rw [verified_brief.2, verified_spelled.2]
  refine .of_nodup inputs (.of_map Digest.first ?_) (by simp)
  simp only [inputs, List.map_cons, htrunk]
  exact words_nodup

theorem root_eq : brief.root = spelled.root := rfl

end Inclusion

/-- Two spellings of a proof of absence, and two of a proof of inclusion. -/
theorem verify_eq_spellings :
    (Absence.brief.root = Absence.spelled.root ∧
      CollisionFree (Absence.brief.hashed Absence.did ++ Absence.spelled.hashed Absence.did) ∧
      Absence.brief.verify Absence.did = .ok Absence.brief.update ∧
      Absence.spelled.verify Absence.did = .ok Absence.spelled.update ∧
      Absence.brief.update = Absence.spelled.update) ∧
    (Inclusion.brief.root = Inclusion.spelled.root ∧
      CollisionFree
        (Inclusion.brief.hashed Inclusion.did ++ Inclusion.spelled.hashed Inclusion.did) ∧
      Inclusion.brief.verify Inclusion.did = .ok Inclusion.brief.update ∧
      Inclusion.spelled.verify Inclusion.did = .ok Inclusion.spelled.update ∧
      Inclusion.brief.update = Inclusion.spelled.update) :=
  ⟨⟨Absence.root_eq, Absence.collisionFree, Absence.verify_brief, Absence.verify_spelled,
      verify_eq_of_root_eq Absence.root_eq Absence.collisionFree Absence.verify_brief
        Absence.verify_spelled⟩,
    ⟨Inclusion.root_eq, Inclusion.collisionFree, Inclusion.verified_brief.1,
      Inclusion.verified_spelled.1,
      verify_eq_of_root_eq Inclusion.root_eq Inclusion.collisionFree Inclusion.verified_brief.1
        Inclusion.verified_spelled.1⟩⟩

end TreeProof

end AnchoredDid
