/-
Module: Pyde.Tx.AirdropTree
Purpose: The Merkle tree of an airdrop as the off-chain builder makes it, and what the proof check of a claim says
  about it: every proof of the builder is accepted, and an accepted proof is for a leaf of the tree, whatever
  siblings it carries.
Trusted boundary: the sponge over field elements
-/
import Pyde.Library.MerkleTree
import Pyde.Tx.Validation

namespace Pyde

open ByteCodec List BitVec Nat Option

variable {root : Hash256} {proofs : List (List Hash256)} {addr : Address} {amt : U128} {proof : List Hash256}

/-! ### The builder -/

/-- Zeros up to the next power of two. -/
def padLevel (level : List Hash256) : List Hash256 :=
  level ++ List.replicate (2 ^ MerkleTree.depthFor level.length - level.length) zero32

/-- One round of the loop of `build_tree`: every leaf notes its sibling, and the level is hashed in pairs. -/
def buildLevel (P : Prims) (built : List Hash256 × List (List Hash256)) (d : Nat) :
    List Hash256 × List (List Hash256) :=
  (MerkleTree.pairUp P.poseidon2Pair built.1,
    built.2.mapIdx fun leafI siblings => siblings ++ [built.1.getD ((leafI >>> d) ^^^ 1) zero32])

/-- `build_tree`: the root and the proof of each leaf. Without leaves it panics. -/
def buildTree (P : Prims) (leaves : List (Address × U128)) : Option (Hash256 × List (List Hash256)) :=
  if leaves = [] then none
  else
    let level := leaves.mapIdx fun i leaf => leafHash P (BitVec.ofNat 64 i) leaf.1 leaf.2
    let built := (List.range (MerkleTree.depthFor level.length)).foldl (buildLevel P)
      (padLevel level, List.replicate leaves.length [])
    some (built.1.headD zero32, built.2)

def ClaimPayload.encode (payload : ClaimPayload) : Bytes :=
  toLe payload.leafIndex ++ (toLe payload.amount ++
    (BitVec.ofNat 8 payload.proof.length :: payload.proof.flatMap fun sibling => sibling.toList))

section

variable (P : Prims) (leaves : List (Address × U128))

/-- The bottom level, with zeros behind the leaves. -/
def leafAt (pos : Nat) : Hash256 :=
  match leaves[pos]? with
  | some leaf => leafHash P (BitVec.ofNat 64 pos) leaf.1 leaf.2
  | none => zero32

end

/-! ### What the builder returns -/

section

variable {P : Prims} {leaves : List (Address × U128)}

variable (P leaves) in
theorem padLevel_leaves :
    padLevel (leaves.mapIdx fun i leaf => leafHash P (BitVec.ofNat 64 i) leaf.1 leaf.2) =
      (List.range (2 ^ MerkleTree.depthFor leaves.length)).map (leafAt P leaves) := by
  have hle := MerkleTree.le_two_pow_depthFor leaves.length
  apply ext_getElem?
  intro pos
  unfold padLevel leafAt
  rw [length_mapIdx, List.getElem?_append, length_mapIdx, List.getElem?_map, List.getElem?_mapIdx,
    List.getElem?_replicate]
  by_cases hleaf : pos < leaves.length
  · have hwidth : pos < 2 ^ MerkleTree.depthFor leaves.length := by omega
    rw [if_pos hleaf, List.getElem?_range hwidth, map_some, List.getElem?_eq_getElem hleaf, map_some]
  rw [if_neg hleaf]
  by_cases hwidth : pos < 2 ^ MerkleTree.depthFor leaves.length
  · rw [if_pos (by omega), List.getElem?_range hwidth, map_some, List.getElem?_eq_none (by omega)]
  have hnone : (List.range (2 ^ MerkleTree.depthFor leaves.length))[pos]? = none := by
    rw [List.getElem?_eq_none_iff, length_range]
    omega
  rw [if_neg (by omega), hnone, map_none]

variable (P leaves) in
/-- After `rounds` rounds the builder has the level of that height, and that much of each path. -/
theorem foldl_buildLevel {rounds : Nat} (h : rounds ≤ MerkleTree.depthFor leaves.length) :
    (List.range rounds).foldl (buildLevel P)
        ((List.range (2 ^ MerkleTree.depthFor leaves.length)).map (leafAt P leaves), List.replicate leaves.length []) =
      ((List.range (2 ^ (MerkleTree.depthFor leaves.length - rounds))).map
          (MerkleTree.nodeAt P.poseidon2Pair (leafAt P leaves) rounds),
        (List.range leaves.length).map (MerkleTree.path P.poseidon2Pair (leafAt P leaves) rounds)) := by
  induction rounds with
  | zero =>
    rw [range_zero, foldl_nil, Nat.sub_zero, ← map_const']
    congr 1
    apply ext_getElem
    · simp
    · intros
      simp [MerkleTree.path]
  | succ rounds ih =>
    have hle := MerkleTree.le_two_pow_depthFor leaves.length
    have hhalf : 2 ^ (MerkleTree.depthFor leaves.length - rounds) =
        2 * 2 ^ (MerkleTree.depthFor leaves.length - (rounds + 1)) := by
      rw [← Nat.pow_succ']
      congr 1
      omega
    rw [range_succ, foldl_append, ih (by omega), foldl_cons, foldl_nil, buildLevel, hhalf, MerkleTree.pairUp_level]
    congr 1
    apply ext_getElem
    · simp
    · intro leafI hleft _
      have hleafI : leafI < leaves.length := by simpa using hleft
      -- the sibling stands inside the level
      have hposition : (leafI >>> rounds) ^^^ 1 < 2 * 2 ^ (MerkleTree.depthFor leaves.length - (rounds + 1)) := by
        apply MerkleTree.xor_one_lt
        rw [← hhalf, shiftRight_eq_div_pow]
        apply Nat.div_lt_of_lt_mul
        rw [← Nat.pow_add]
        exact (hleafI.trans_le hle).trans_le (Nat.pow_le_pow_right (by decide) (by omega))
      rw [getElem_mapIdx, getElem_map, getElem_map, getElem_range, MerkleTree.path,
        MerkleTree.path, range_succ, map_append, map_singleton, getD_eq_getElem?_getD,
        List.getElem?_map, List.getElem?_range hposition, shiftRight_eq_div_pow]
      rfl

/-- The builder gives the root of the tree and the path of each leaf. -/
theorem buildTree_eq (h : buildTree P leaves = some (root, proofs)) :
    root = MerkleTree.nodeAt P.poseidon2Pair (leafAt P leaves) (MerkleTree.depthFor leaves.length) 0 ∧
      proofs = (List.range leaves.length).map
        (MerkleTree.path P.poseidon2Pair (leafAt P leaves) (MerkleTree.depthFor leaves.length)) := by
  unfold buildTree at h
  split at h
  next => cases h
  dsimp only at h
  rw [padLevel_leaves, length_mapIdx, foldl_buildLevel P leaves le_rfl, Nat.sub_self] at h
  cases h
  exact ⟨rfl, rfl⟩

/-! ### Proofs of the builder -/

theorem index_bit (index : U64) : (index &&& 1 = 0) ↔ index.toNat % 2 = 0 := by
  have hbit : (index &&& 1).toNat = index.toNat % 2 := by
    rw [toNat_and]
    exact and_one_is_mod _
  rw [← hbit, toNat_eq]
  rfl

/-- The loop of `compute_root` climbs. -/
theorem climb_eq (digest : Hash256) (index : U64) (proof : List Hash256) :
    climb P digest index proof = MerkleTree.climb P.poseidon2Pair digest index.toNat proof := by
  induction proof generalizing digest index with
  | nil => rfl
  | cons sibling proof ih =>
    have hhalf : (index >>> 1).toNat = index.toNat / 2 := by rw [toNat_ushiftRight, shiftRight_eq_div_pow]
    rw [climb, MerkleTree.climb, ih, hhalf]
    congr 1
    unfold MerkleTree.inOrder
    by_cases hbit : index.toNat % 2 = 0
    · rw [if_pos ((index_bit index).mpr hbit), if_pos hbit]
    · rw [if_neg fun h => hbit ((index_bit index).mp h), if_neg hbit]

theorem verifyProof_buildTree (h : buildTree P leaves = some (root, proofs)) (hcount : leaves.length ≤ 2 ^ 64)
    {pos : Nat} (hleaf : leaves[pos]? = some (addr, amt)) (hproof : proofs[pos]? = some proof) :
    verifyProof P (BitVec.ofNat 64 pos) addr amt proof root = true := by
  obtain ⟨rfl, rfl⟩ := buildTree_eq h
  have hposition : pos < leaves.length := (List.getElem?_eq_some_iff.mp hleaf).1
  rw [List.getElem?_map, List.getElem?_range hposition, map_some, Option.some.injEq] at hproof
  subst hproof
  have hword : (BitVec.ofNat 64 pos).toNat = pos := by rw [toNat_ofNat, mod_eq_of_lt (by omega)]
  have hat : leafAt P leaves pos = leafHash P (BitVec.ofNat 64 pos) addr amt := by
    unfold leafAt
    rw [hleaf]
  have hwidth := hposition.trans_le (MerkleTree.le_two_pow_depthFor leaves.length)
  unfold verifyProof computeRoot
  rw [climb_eq, hword, ← hat, MerkleTree.climb_path P.poseidon2Pair (leafAt P leaves) hwidth]
  exact decide_eq_true rfl

end

/-! ### Proofs of anybody -/

section

variable (sponge : List Goldilocks → List.Vector Goldilocks 4) (P : Prims)

/-- The string that is hashed for a leaf. -/
def leafBytes (index : U64) (addr : Address) (amt : U128) : Bytes :=
  0x00 :: (toLe index ++ (addr.toList ++ toLe amt))

/-- What the sponge is given for a pair of hashes. -/
def pairElements (pair : Hash256 × Hash256) : List Goldilocks := hash256ToElements pair.1 ++ hash256ToElements pair.2

/-- What the sponge is given while the tree is built. -/
def treeInputs (leaves : List (Address × U128)) : List (List Goldilocks) :=
  (leaves.mapIdx fun i leaf => bytesToElements (leafBytes (BitVec.ofNat 64 i) leaf.1 leaf.2)) ++
    (MerkleTree.treePairs (poseidon2Pair sponge) (leafAt (P.withSponge sponge) leaves)
      (MerkleTree.depthFor leaves.length) 0).map pairElements

/-- What the sponge is given while a proof is checked. -/
def claimInputs (index : U64) (addr : Address) (amt : U128) (proof : List Hash256) : List (List Goldilocks) :=
  bytesToElements (leafBytes index addr amt) ::
    (MerkleTree.climbPairs (poseidon2Pair sponge) (leafHash (P.withSponge sponge) index addr amt) index.toNat
      proof).map pairElements

variable {sponge P}

theorem leafBytes_inj {index index' : U64} {addr' : Address} {amount' : U128}
    (h : bytesToElements (leafBytes index addr amt) = bytesToElements (leafBytes index' addr' amount')) :
    index = index' ∧ addr = addr' ∧ amt = amount' := by
  have hsize : ∀ (i : U64) (a : Address) (q : U128), (leafBytes i a q).length < 2 ^ 63 := by
    intro i a q
    simp [leafBytes]
  have hbytes := bytesToElements_inj (hsize _ _ _) (hsize _ _ _) h
  unfold leafBytes at hbytes
  rw [List.cons.injEq, toLe_append_inj (by decide), toList_append_inj, toLe_inj (by decide)] at hbytes
  exact hbytes.2

theorem leafElements_ne_pairElements (index : U64) (addr : Address) (amt : U128) (pair : Hash256 × Hash256) :
    bytesToElements (leafBytes index addr amt) ≠ pairElements pair := by
  intro h
  have hlength := congrArg List.length h
  simp [bytesToElements, leafBytes, pairElements, hash256ToElements, length_chunksToElements] at hlength

theorem leafHash_withSponge (index : U64) (addr : Address) (amt : U128) :
    leafHash (P.withSponge sponge) index addr amt =
      elementsToHash (sponge (bytesToElements (leafBytes index addr amt))) := rfl

/-! Siblings that are not canonical are hashed as if they were. -/

theorem pairElements_inOrder_canonical (pos : Nat) (digest sibling : Hash256) :
    pairElements (MerkleTree.inOrder pos digest (canonical sibling)) =
      pairElements (MerkleTree.inOrder pos digest sibling) := by
  unfold MerkleTree.inOrder pairElements
  split
  · rw [hash256ToElements_canonical]
  · rw [hash256ToElements_canonical]

variable (sponge) in
theorem poseidon2Pair_congr {pair pair' : Hash256 × Hash256} (h : pairElements pair = pairElements pair') :
    poseidon2Pair sponge pair.1 pair.2 = poseidon2Pair sponge pair'.1 pair'.2 :=
  congrArg (fun elements => elementsToHash (sponge elements)) h

theorem climb_canonical (digest : Hash256) (pos : Nat) (proof : List Hash256) :
    MerkleTree.climb (poseidon2Pair sponge) digest pos (proof.map canonical) =
        MerkleTree.climb (poseidon2Pair sponge) digest pos proof ∧
      (MerkleTree.climbPairs (poseidon2Pair sponge) digest pos (proof.map canonical)).map pairElements =
        (MerkleTree.climbPairs (poseidon2Pair sponge) digest pos proof).map pairElements := by
  induction proof generalizing digest pos with
  | nil => exact ⟨rfl, rfl⟩
  | cons sibling proof ih =>
    have helements := pairElements_inOrder_canonical pos digest sibling
    have hparent := poseidon2Pair_congr sponge helements
    rw [map_cons, MerkleTree.climb, MerkleTree.climb, MerkleTree.climbPairs, MerkleTree.climbPairs,
      map_cons, map_cons, helements, hparent, (ih _ _).1, (ih _ _).2]
    exact ⟨rfl, rfl⟩

def CanonicalPair (pair : Hash256 × Hash256) : Prop := canonical pair.1 = pair.1 ∧ canonical pair.2 = pair.2

theorem canonicalPair_inOrder (pos : Nat) {digest sibling : Hash256} (hdigest : canonical digest = digest)
    (hsibling : canonical sibling = sibling) : CanonicalPair (MerkleTree.inOrder pos digest sibling) := by
  unfold MerkleTree.inOrder
  split
  · exact ⟨hdigest, hsibling⟩
  · exact ⟨hsibling, hdigest⟩

theorem canonicalPair_climbPairs {digest : Hash256} (hdigest : canonical digest = digest) (pos : Nat)
    (proof : List Hash256) :
    ∀ pair ∈ MerkleTree.climbPairs (poseidon2Pair sponge) digest pos (proof.map canonical),
      CanonicalPair pair := by
  induction proof generalizing digest pos with
  | nil => exact nofun
  | cons sibling proof ih =>
    rw [map_cons, MerkleTree.climbPairs, forall_mem_cons]
    exact ⟨canonicalPair_inOrder pos hdigest (canonical_canonical sibling), ih (canonical_elementsToHash _) _⟩

theorem canonical_zero32 : canonical zero32 = zero32 := by decide +kernel

section

variable (leaves : List (Address × U128))

theorem canonical_leafAt (pos : Nat) :
    canonical (leafAt (P.withSponge sponge) leaves pos) = leafAt (P.withSponge sponge) leaves pos := by
  unfold leafAt
  split
  · rw [leafHash_withSponge, canonical_elementsToHash]
  · exact canonical_zero32

theorem canonical_nodeAt (height pos : Nat) :
    canonical (MerkleTree.nodeAt (poseidon2Pair sponge) (leafAt (P.withSponge sponge) leaves) height pos) =
      MerkleTree.nodeAt (poseidon2Pair sponge) (leafAt (P.withSponge sponge) leaves) height pos := by
  cases height with
  | zero => exact canonical_leafAt leaves pos
  | succ height => exact canonical_elementsToHash _

theorem canonicalPair_treePairs (depth pos : Nat) :
    ∀ pair ∈ MerkleTree.treePairs (poseidon2Pair sponge) (leafAt (P.withSponge sponge) leaves) depth pos,
      CanonicalPair pair := by
  induction depth generalizing pos with
  | zero => exact nofun
  | succ depth ih =>
    rw [MerkleTree.treePairs, forall_mem_cons, forall_mem_append]
    exact ⟨⟨canonical_nodeAt leaves _ _, canonical_nodeAt leaves _ _⟩, ih _, ih _⟩

end

/-- The pairs that the sponge is given. -/
def pairsIn (inputs : Set (List Goldilocks)) : Set (Hash256 × Hash256) :=
  {pair | CanonicalPair pair ∧ pairElements pair ∈ inputs}

variable (sponge P) in
/-- The zeros of the padding, and the leaves that the sponge is given. -/
def bottomDigests (inputs : Set (List Goldilocks)) : Set Hash256 :=
  {digest | digest = zero32 ∨ ∃ (index : U64) (addr : Address) (amt : U128),
    bytesToElements (leafBytes index addr amt) ∈ inputs ∧
      digest = leafHash (P.withSponge sponge) index addr amt}

section

variable {inputs : Set (List Goldilocks)} (hfree : Set.InjOn sponge inputs)

include hfree

theorem poseidon2Pair_injOn :
    Set.InjOn (fun pair : Hash256 × Hash256 => poseidon2Pair sponge pair.1 pair.2) (pairsIn inputs) := by
  rintro ⟨left, right⟩ ⟨⟨hleft, hright⟩, hinput⟩ ⟨left', right'⟩ ⟨⟨hleft', hright'⟩,
      hinput'⟩ heq
  have helements := hfree hinput hinput' (elementsToHash_inj heq)
  obtain ⟨helementsLeft, helementsRight⟩ := append_inj helements (by simp [hash256ToElements])
  have hlefts := canonical_congr helementsLeft
  have hrights := canonical_congr helementsRight
  dsimp only at hleft hright hleft' hright' hlefts hrights
  rw [hleft, hleft'] at hlefts
  rw [hright, hright'] at hrights
  rw [hlefts, hrights]

variable (P) in
theorem poseidon2Pair_not_bottom (hzero : ∀ input ∈ inputs, elementsToHash (sponge input) ≠ zero32) :
    ∀ pair ∈ pairsIn inputs, poseidon2Pair sponge pair.1 pair.2 ∉ bottomDigests sponge P inputs := by
  rintro pair ⟨-, hinput⟩ (hpad | ⟨index, addr, amt, hleaf, heq⟩)
  · exact hzero _ hinput hpad
  · exact leafElements_ne_pairElements index addr amt pair (hfree hinput hleaf (elementsToHash_inj heq)).symm

end

section

variable {inputs : Set (List Goldilocks)} {leaves : List (Address × U128)}
  (htree : ∀ input ∈ treeInputs sponge P leaves, input ∈ inputs)

include htree

theorem leafInput_mem {pos : Nat} {leaf : Address × U128} (hleaf : leaves[pos]? = some leaf) :
    bytesToElements (leafBytes (BitVec.ofNat 64 pos) leaf.1 leaf.2) ∈ inputs := by
  apply htree
  apply mem_append_left
  rw [mem_iff_getElem?]
  exact ⟨pos, by rw [List.getElem?_mapIdx, hleaf, map_some]⟩

theorem leafAt_mem_bottom (pos : Nat) :
    leafAt (P.withSponge sponge) leaves pos ∈ bottomDigests sponge P inputs := by
  unfold leafAt
  split
  next leaf hleaf => exact .inr ⟨_, _, _, leafInput_mem htree hleaf, rfl⟩
  next => exact .inl rfl

end

/-- A proof that is accepted is for a leaf of the tree: the sponge has no collision among its inputs, and none of
them gives the zeros of the padding. -/
theorem leaf_of_verifyProof {inputs : Set (List Goldilocks)} (hfree : Set.InjOn sponge inputs)
    (hzero : ∀ input ∈ inputs, elementsToHash (sponge input) ≠ zero32) {leaves : List (Address × U128)}
    (hbuilt : buildTree (P.withSponge sponge) leaves = some (root, proofs)) (hcount : leaves.length ≤ 2 ^ 64)
    (htree : ∀ input ∈ treeInputs sponge P leaves, input ∈ inputs) {index : U64}
    (hclaim : ∀ input ∈ claimInputs sponge P index addr amt proof, input ∈ inputs)
    (hverify : verifyProof (P.withSponge sponge) index addr amt proof root = true) :
    leaves[index.toNat]? = some (addr, amt) := by
  have hinput := hclaim _ mem_cons_self
  have hcanonical : canonical (leafHash (P.withSponge sponge) index addr amt) =
      leafHash (P.withSponge sponge) index addr amt := canonical_elementsToHash _
  have htreePairs : ∀ pair ∈ MerkleTree.treePairs (poseidon2Pair sponge) (leafAt (P.withSponge sponge) leaves)
      (MerkleTree.depthFor leaves.length) 0, pair ∈ pairsIn inputs := fun pair hpair =>
    ⟨canonicalPair_treePairs leaves _ _ pair hpair, htree _ (mem_append_right _ (mem_map_of_mem hpair))⟩
  have hclimbPairs : ∀ pair ∈ MerkleTree.climbPairs (poseidon2Pair sponge)
      (leafHash (P.withSponge sponge) index addr amt) index.toNat (proof.map canonical),
      pair ∈ pairsIn inputs := by
    intro pair hpair
    refine ⟨canonicalPair_climbPairs hcanonical _ _ pair hpair, hclaim _ (mem_cons_of_mem _ ?_)⟩
    rw [← (climb_canonical _ _ _).2]
    exact mem_map_of_mem hpair
  have hclimb : MerkleTree.climb (poseidon2Pair sponge) (leafHash (P.withSponge sponge) index addr amt)
      index.toNat (proof.map canonical) =
      MerkleTree.nodeAt (poseidon2Pair sponge) (leafAt (P.withSponge sponge) leaves) (MerkleTree.depthFor leaves.length) 0 := by
    have hcomputed := of_decide_eq_true hverify
    rw [computeRoot, climb_eq, (buildTree_eq hbuilt).1] at hcomputed
    rw [(climb_canonical _ _ _).1]
    exact hcomputed
  obtain ⟨-, hfound⟩ := MerkleTree.leaf_of_climb (poseidon2Pair_injOn hfree) (poseidon2Pair_not_bottom P hfree hzero)
    (leafAt_mem_bottom htree) (.inr ⟨_, _, _, hinput, rfl⟩) index.toNat htreePairs hclimbPairs hclimb
  unfold leafAt at hfound
  split at hfound
  next leaf hleaf =>
    have hposition := (List.getElem?_eq_some_iff.mp hleaf).1
    obtain ⟨hindex, haddr, hamount⟩ :=
      leafBytes_inj (hfree (leafInput_mem htree hleaf) hinput (elementsToHash_inj hfound))
    rw [← haddr, ← hamount, ← hindex, toNat_ofNat, mod_eq_of_lt (by omega)]
    exact hleaf
  next => exact absurd hfound.symm (hzero _ hinput)

end

/-! ### Claims on the wire -/

theorem slice_siblings {i : Nat} {sibling : Hash256} (h : proof[i]? = some sibling) :
    slice (proof.flatMap fun sibling => sibling.toList) (i * 32) 32 = sibling.toList :=
  slice_flatMap (fun sibling _ => sibling.toList_length) h

/-- Reading the entries of a list one after the other gives the list. -/
theorem mapM_range {α : Type} {list : List α} {read : Nat → Option α}
    (h : ∀ i a, list[i]? = some a → read i = some a) : (List.range list.length).mapM read = some list := by
  induction list generalizing read with
  | nil => rfl
  | cons first list ih =>
    have hrest : (List.range list.length).mapM (read ∘ Nat.succ) = some list := ih fun i a hi => h (i + 1) a hi
    rw [length_cons, range_succ_eq_map, mapM_cons, mapM_map, hrest, h 0 first rfl]
    rfl

theorem ClaimPayload.decode_encode {payload : ClaimPayload} (h : payload.proof.length ≤ 255) :
    ClaimPayload.decode payload.encode = some payload := by
  have hsiblings : (payload.proof.flatMap fun sibling => sibling.toList).length = payload.proof.length * 32 := by
    rw [length_flatMap, map_congr_left fun sibling _ => List.Vector.toList_length sibling, map_const',
      sum_replicate, smul_eq_mul]
  have hindex : (toLe payload.leafIndex).length = 8 := length_toLe _
  have hamount : (toLe payload.amount).length = 16 := length_toLe _
  have hlength : payload.encode.length = 25 + payload.proof.length * 32 := by
    rw [ClaimPayload.encode, length_append, length_append, length_cons, hsiblings, hindex, hamount]
    omega
  have hcount : (payload.encode.getD 24 0).toNat = payload.proof.length := by
    have hbyte : payload.encode.getD 24 0 = BitVec.ofNat 8 payload.proof.length := by
      rw [ClaimPayload.encode, getD_eq_getElem?_getD, List.getElem?_append_right (by omega),
        List.getElem?_append_right (by omega), hindex, hamount]
      rfl
    rw [hbyte, toNat_ofNat, mod_eq_of_lt (by omega)]
  have hproof : (List.range payload.proof.length).mapM (fun i => fixedAt 32 payload.encode (25 + i * 32)) =
      some payload.proof := by
    apply mapM_range
    intro i sibling hsibling
    apply fixedAt_of_slice
    have hbehind : payload.encode = (toLe payload.leafIndex ++ (toLe payload.amount ++
        [BitVec.ofNat 8 payload.proof.length])) ++ payload.proof.flatMap fun sibling => sibling.toList := by
      simp [ClaimPayload.encode]
    have hfront : (toLe payload.leafIndex ++ (toLe payload.amount ++
        [BitVec.ofNat 8 payload.proof.length])).length = 25 := by
      rw [length_append, length_append, hindex, hamount, length_singleton]
    rw [hbehind, slice_append_right (by omega), hfront, Nat.add_sub_cancel_left]
    exact slice_siblings hsibling
  have hleafIndex : ofLe 64 (slice payload.encode 0 8) = payload.leafIndex := by
    rw [ClaimPayload.encode, slice_append_left hindex, ofLe_toLe (by decide)]
  have hamountRead : ofLe 128 (slice payload.encode 8 16) = payload.amount := by
    rw [ClaimPayload.encode, slice_append_right (by omega), hindex, slice_append_left hamount, ofLe_toLe (by decide)]
  unfold ClaimPayload.decode
  rw [hcount, hlength, if_neg (by omega), if_neg (by simp), hproof, map_some, hleafIndex, hamountRead]

end Pyde
