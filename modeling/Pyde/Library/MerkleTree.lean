/-
Module: Pyde.Library.MerkleTree
Purpose: Perfect binary hash trees over an arbitrary two-argument hash.
Trusted boundary: none
-/
import Mathlib.Data.Set.Function
import Mathlib.Data.Nat.Bitwise
import Mathlib.Tactic.Ring

namespace MerkleTree

open List Nat

variable {α : Type} (node : α → α → α)

/-! ### Trees by level and position -/

section

variable (leaf : Nat → α)

/-- The digest at a height and a position, over an infinite row of leaves. -/
def nodeAt : Nat → Nat → α
  | 0, pos => leaf pos
  | height + 1, pos => node (nodeAt height (2 * pos)) (nodeAt height (2 * pos + 1))

/-- The siblings of the lowest `depth` levels above a position. -/
def path (depth pos : Nat) : List α :=
  (List.range depth).map fun height => nodeAt node leaf height ((pos / 2 ^ height) ^^^ 1)

/-- The pairs that are hashed below a node. -/
def treePairs : Nat → Nat → List (α × α)
  | 0, _ => []
  | height + 1, pos =>
    (nodeAt node leaf height (2 * pos), nodeAt node leaf height (2 * pos + 1)) ::
      (treePairs height (2 * pos) ++ treePairs height (2 * pos + 1))

end

def inOrder (pos : Nat) (digest sibling : α) : α × α :=
  if pos % 2 = 0 then (digest, sibling) else (sibling, digest)

/-- Hash upwards along a list of siblings. -/
def climb : α → Nat → List α → α
  | digest, _, [] => digest
  | digest, pos, sibling :: proof =>
    climb (node (inOrder pos digest sibling).1 (inOrder pos digest sibling).2) (pos / 2) proof

/-- The pairs that are hashed on the way. -/
def climbPairs : α → Nat → List α → List (α × α)
  | _, _, [] => []
  | digest, pos, sibling :: proof =>
    inOrder pos digest sibling ::
      climbPairs (node (inOrder pos digest sibling).1 (inOrder pos digest sibling).2) (pos / 2) proof

/-- The next level of a list of digests. -/
def pairUp : List α → List α
  | left :: right :: rest => node left right :: pairUp rest
  | _ => []

/-! ### The next level of a list -/

theorem pairUp_range (f : Nat → α) (count : Nat) :
    pairUp node ((List.range (2 * count)).map f) =
      (List.range count).map fun pos => node (f (2 * pos)) (f (2 * pos + 1)) := by
  induction count generalizing f with
  | zero => rfl
  | succ count ih =>
    have htwo : List.range (2 * (count + 1)) = 0 :: 1 :: (List.range (2 * count)).map (· + 2) := by
      rw [show 2 * (count + 1) = 2 * count + 1 + 1 by omega, range_succ_eq_map, range_succ_eq_map, map_cons, map_map]
      rfl
    rw [htwo, map_cons, map_cons, map_map, pairUp, ih, range_succ_eq_map, map_cons, map_map]
    rfl

variable (leaf : Nat → α)

theorem pairUp_level (height count : Nat) : pairUp node ((List.range (2 * count)).map (nodeAt node leaf height)) =
      (List.range count).map (nodeAt node leaf (height + 1)) :=
  pairUp_range node _ count

/-! ### Depths -/

/-- The exponent of the next power of two. -/
def depthFor (count : Nat) : Nat := if count ≤ 1 then 0 else Nat.log2 (count - 1) + 1

theorem le_two_pow_depthFor (count : Nat) : count ≤ 2 ^ depthFor count := by
  unfold depthFor
  split
  next h => simpa using h
  next h =>
    have hlt : count - 1 < 2 ^ (Nat.log2 (count - 1) + 1) := lt_log2_self
    omega

theorem depthFor_le {count bits : Nat} (h : count ≤ 2 ^ bits) : depthFor count ≤ bits := by
  unfold depthFor
  split
  next => exact Nat.zero_le bits
  next hmany =>
    have hpos : count - 1 ≠ 0 := by omega
    exact (log2_lt hpos).mpr (by omega)

/-! ### Honest proofs -/

theorem xor_one_of_even {n : Nat} (h : n % 2 = 0) : n ^^^ 1 = n + 1 := by
  rw [Nat.xor_one_of_even (Nat.even_iff.mpr h)]

theorem xor_one_of_odd {n : Nat} (h : n % 2 = 1) : n ^^^ 1 = n - 1 := by
  rw [Nat.xor_one_of_odd (Nat.odd_iff.mpr h)]

theorem xor_one_lt {n half : Nat} (h : n < 2 * half) : n ^^^ 1 < 2 * half := by
  rcases mod_two_eq_zero_or_one n with heven | hodd
  · rw [xor_one_of_even heven]
    omega
  · rw [xor_one_of_odd hodd]
    omega

theorem node_inOrder (height pos : Nat) :
    node (inOrder pos (nodeAt node leaf height pos) (nodeAt node leaf height (pos ^^^ 1))).1
        (inOrder pos (nodeAt node leaf height pos) (nodeAt node leaf height (pos ^^^ 1))).2 =
      nodeAt node leaf (height + 1) (pos / 2) := by
  unfold inOrder
  rcases mod_two_eq_zero_or_one pos with heven | hodd
  · have hleft : 2 * (pos / 2) = pos := by omega
    rw [if_pos heven, xor_one_of_even heven, nodeAt, hleft]
  have hleft : 2 * (pos / 2) = pos - 1 := by omega
  have hright : pos - 1 + 1 = pos := by omega
  rw [if_neg (by omega), xor_one_of_odd hodd, nodeAt, hleft, hright]

/-- The siblings from some height on lead from the node there to the node above it. -/
theorem climb_siblings (height depth pos : Nat) : climb node (nodeAt node leaf height pos) pos
        ((List.range depth).map fun up => nodeAt node leaf (height + up) ((pos / 2 ^ up) ^^^ 1)) =
      nodeAt node leaf (height + depth) (pos / 2 ^ depth) := by
  induction depth generalizing height pos with
  | zero => simp [climb]
  | succ depth ih =>
    have hrest : ((List.range depth).map Nat.succ).map
          (fun up => nodeAt node leaf (height + up) ((pos / 2 ^ up) ^^^ 1)) =
        (List.range depth).map fun up => nodeAt node leaf (height + 1 + up) ((pos / 2 / 2 ^ up) ^^^ 1) := by
      rw [map_map]
      apply map_congr_left
      intro up _
      have hheight : height + Nat.succ up = height + 1 + up := by omega
      have hposition : pos / 2 ^ Nat.succ up = pos / 2 / 2 ^ up := by
        rw [Nat.div_div_eq_div_mul, Nat.pow_succ, Nat.mul_comm]
      rw [Function.comp_apply, hheight, hposition]
    have htop : height + (depth + 1) = height + 1 + depth := by omega
    have hposition : pos / 2 ^ (depth + 1) = pos / 2 / 2 ^ depth := by
      rw [Nat.div_div_eq_div_mul, Nat.pow_succ, Nat.mul_comm]
    rw [range_succ_eq_map, map_cons, hrest, climb, Nat.add_zero, Nat.pow_zero, Nat.div_one,
      node_inOrder node leaf, ih, htop, hposition]

theorem climb_path {depth pos : Nat} (h : pos < 2 ^ depth) :
    climb node (leaf pos) pos (path node leaf depth pos) = nodeAt node leaf depth 0 := by
  have hclimb := climb_siblings node leaf 0 depth pos
  simp only [Nat.zero_add, div_eq_of_lt h] at hclimb
  exact hclimb

variable (digest sibling : α) (depth pos : Nat) (proof : List α)

theorem length_path : (path node leaf depth pos).length = depth := by
  rw [path, length_map, length_range]

/-! ### Any proof -/

theorem climb_concat : climb node digest pos (proof ++ [sibling]) =
      node (inOrder (pos / 2 ^ proof.length) (climb node digest pos proof) sibling).1
        (inOrder (pos / 2 ^ proof.length) (climb node digest pos proof) sibling).2 := by
  induction proof generalizing digest pos with
  | nil => simp [climb]
  | cons first proof ih =>
    rw [cons_append, climb, ih, Nat.div_div_eq_div_mul, ← Nat.pow_succ', climb, length_cons]

theorem climbPairs_concat :
    climbPairs node digest pos (proof ++ [sibling]) = climbPairs node digest pos proof ++
        [inOrder (pos / 2 ^ proof.length) (climb node digest pos proof) sibling] := by
  induction proof generalizing digest pos with
  | nil => simp [climb, climbPairs]
  | cons first proof ih =>
    rw [cons_append, climbPairs, ih, Nat.div_div_eq_div_mul, ← Nat.pow_succ', climb, climbPairs,
      cons_append, length_cons]

variable {node}

theorem path_succ (child rest : Nat) (hrest : rest < 2 ^ depth) :
    path node leaf (depth + 1) (child * 2 ^ depth + rest) =
      path node leaf depth (child * 2 ^ depth + rest) ++ [nodeAt node leaf depth (child ^^^ 1)] := by
  have hchild : (child * 2 ^ depth + rest) / 2 ^ depth = child := by
    rw [Nat.mul_comm, mul_add_div (Nat.two_pow_pos depth), div_eq_of_lt hrest, Nat.add_zero]
  rw [path, range_succ, map_append, map_singleton, hchild]
  rfl

section

variable {leaf : Nat → α} {pairs : Set (α × α)} {base : Set α}
  (hfree : Set.InjOn (fun pair : α × α => node pair.1 pair.2) pairs)
  (hbase : ∀ pair ∈ pairs, node pair.1 pair.2 ∉ base) (hleaf : ∀ pos, leaf pos ∈ base) {digest : α}
  (hdigest : digest ∈ base) (index : Nat) {depth pos : Nat} {proof : List α}
  (htree : ∀ pair ∈ treePairs node leaf depth pos, pair ∈ pairs)
  (hclimbed : ∀ pair ∈ climbPairs node digest index proof, pair ∈ pairs)
  (hroot : climb node digest index proof = nodeAt node leaf depth pos)
include hfree hbase hleaf hdigest htree hclimbed hroot

/-- A climb that ends at a node of the tree started at the leaf that its position names and went along the siblings of
its path. The digests in `base`, where the leaves are, are no hashes of the pairs in play. -/
theorem path_of_climb :
    proof = path node leaf depth (pos * 2 ^ depth + index % 2 ^ depth) ∧
      leaf (pos * 2 ^ depth + index % 2 ^ depth) = digest := by
  -- from the root downwards: the last digest of the proof stands beside one of the two children
  induction depth generalizing pos proof with
  | zero =>
    rcases eq_nil_or_concat proof with rfl | ⟨lower, sibling, rfl⟩
    · rw [climb, nodeAt] at hroot
      simp [hroot, mod_one, path]
    rw [concat_eq_append] at hroot hclimbed
    rw [climbPairs_concat] at hclimbed
    have hlast := hbase _ (hclimbed _ (mem_append_right _ mem_cons_self))
    rw [climb_concat, nodeAt] at hroot
    rw [hroot] at hlast
    exact absurd (hleaf pos) hlast
  | succ depth ih =>
    have htop := htree _ mem_cons_self
    rcases eq_nil_or_concat proof with rfl | ⟨lower, sibling, rfl⟩
    · rw [climb, nodeAt] at hroot
      rw [hroot] at hdigest
      exact absurd hdigest (hbase _ htop)
    rw [concat_eq_append] at hroot hclimbed ⊢
    rw [climbPairs_concat] at hclimbed
    rw [climb_concat, nodeAt] at hroot
    have hchildren := hfree (hclimbed _ (mem_append_right _ mem_cons_self)) htop hroot
    have hlower : ∀ pair ∈ climbPairs node digest index lower, pair ∈ pairs :=
      fun pair hpair => hclimbed pair (mem_append_left _ hpair)
    have hrest : index % 2 ^ depth < 2 ^ depth := mod_lt _ (Nat.two_pow_pos depth)
    -- the position below, once it is known on which side
    have hposition : ∀ bit, index / 2 ^ depth % 2 = bit → pos * 2 ^ (depth + 1) + index % 2 ^ (depth + 1) =
          (2 * pos + bit) * 2 ^ depth + index % 2 ^ depth := by
      rintro bit rfl
      rw [Nat.pow_succ, mod_mul]
      ring
    unfold inOrder at hchildren
    rcases mod_two_eq_zero_or_one (index / 2 ^ lower.length) with heven | hodd
    · rw [if_pos heven] at hchildren
      obtain ⟨hpath, hfound⟩ := ih
        (fun pair hpair => htree pair (mem_cons_of_mem _ (mem_append_left _ hpair))) hlower
        (congrArg Prod.fst hchildren)
      have hlength : lower.length = depth := by rw [hpath, length_path]
      have hsibling : sibling = nodeAt node leaf depth (2 * pos ^^^ 1) := by
        rw [xor_one_of_even (by omega)]
        exact congrArg Prod.snd hchildren
      rw [hlength] at heven
      rw [hposition 0 heven, path_succ _ _ _ _ hrest, Nat.add_zero, ← hpath, ← hsibling]
      exact ⟨rfl, hfound⟩
    · rw [if_neg (by omega)] at hchildren
      obtain ⟨hpath, hfound⟩ := ih
        (fun pair hpair => htree pair (mem_cons_of_mem _ (mem_append_right _ hpair))) hlower
        (congrArg Prod.snd hchildren)
      have hlength : lower.length = depth := by rw [hpath, length_path]
      have hsibling : sibling = nodeAt node leaf depth ((2 * pos + 1) ^^^ 1) := by
        rw [xor_one_of_odd (by omega)]
        exact congrArg Prod.fst hchildren
      rw [hlength] at hodd
      rw [hposition 1 hodd, path_succ _ _ _ _ hrest, ← hpath, ← hsibling]
      exact ⟨rfl, hfound⟩

theorem leaf_of_climb : proof.length = depth ∧ leaf (pos * 2 ^ depth + index % 2 ^ depth) = digest := by
  obtain ⟨hpath, hfound⟩ := path_of_climb hfree hbase hleaf hdigest index htree hclimbed hroot
  exact ⟨by rw [hpath, length_path], hfound⟩

end

end MerkleTree
