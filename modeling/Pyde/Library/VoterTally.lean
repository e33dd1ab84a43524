/-
Module: Pyde.Library.VoterTally
Purpose: Sets of small indices stored as machine-word bitmaps, counting messages of distinct voters with them, and
  the argument by which two large sets of voters share a member outside a small set of faulty ones.
Trusted boundary: none
-/
import Mathlib.Data.Finset.Card
import Mathlib.Data.List.Sort
import Mathlib.Tactic

namespace VoterSet

open Finset

variable {i : Nat}

variable {w : Nat}

/-- The positions of the set bits, in ascending order. -/
def positions (x : BitVec w) : List Nat := (List.range w).filter (x.getLsbD ·)

/-- `count_ones`: how many bits are set. -/
def countOnes (x : BitVec w) : Nat := (positions x).length

/-- The bitmap with bit `i` set as well. -/
def setBit (x : BitVec w) (i : Nat) : BitVec w := x ||| (1#w <<< i)

/-- The bitmap with bit `i` inverted. -/
def flipBit (x : BitVec w) (i : Nat) : BitVec w := x ^^^ (1#w <<< i)

variable {x : BitVec w}

@[simp] theorem mem_positions : i ∈ positions x ↔ x.getLsbD i = true := by
  simp only [positions, List.mem_filter, List.mem_range, and_iff_right_iff_imp]
  exact BitVec.lt_of_getLsbD

theorem sorted_positions (x : BitVec w) : (positions x).Pairwise (· < ·) :=
  List.Pairwise.filter _ List.pairwise_lt_range

theorem nodup_positions (x : BitVec w) : (positions x).Nodup := (sorted_positions x).imp fun h => Nat.ne_of_lt h

theorem eq_of_mem_positions {y : BitVec w} (h : ∀ i, i ∈ positions x ↔ i ∈ positions y) : x = y := by
  apply BitVec.eq_of_getLsbD_eq
  intro i _
  have hi := h i
  simp only [mem_positions] at hi
  exact Bool.eq_iff_iff.mpr hi

@[simp] theorem positions_zero : positions (0#w) = [] := by
  simp [positions]

/-- A strictly ascending enumeration of the set bits is the list of positions. -/
theorem positions_eq_of_sorted {l : List Nat} (hsorted : l.Pairwise (· < ·))
    (hmem : ∀ i, i ∈ l ↔ x.getLsbD i = true) : l = positions x := by
  have hnodup : l.Nodup := hsorted.imp fun h => Nat.ne_of_lt h
  have hperm : l.Perm (positions x) :=
    (List.perm_ext_iff_of_nodup hnodup (nodup_positions x)).mpr fun i => by rw [hmem, mem_positions]
  exact hperm.eq_of_pairwise (fun a b _ _ hab hba => absurd hab (Nat.lt_asymm hba)) hsorted (sorted_positions x)

theorem getLsbD_one_shiftLeft (hi : i < w) (j : Nat) : (1#w <<< i).getLsbD j = decide (j = i) := by
  rw [BitVec.getLsbD_shiftLeft, BitVec.getLsbD_one]
  by_cases hj : j = i
  · have hw : 0 < w := by omega
    simp [hj, hi, hw]
  by_cases hle : j < i
  · simp [hj, hle]
  · simp [hj, hle]
    omega

@[simp] theorem getLsbD_setBit (hi : i < w) (j : Nat) : (setBit x i).getLsbD j = (x.getLsbD j || decide (j = i)) := by
  rw [setBit, BitVec.getLsbD_or, getLsbD_one_shiftLeft hi]

@[simp] theorem getLsbD_flipBit (hi : i < w) (j : Nat) :
    (flipBit x i).getLsbD j = (x.getLsbD j ^^ decide (j = i)) := by
  rw [flipBit, BitVec.getLsbD_xor, getLsbD_one_shiftLeft hi]

theorem and_shiftLeft_eq_zero_iff (hi : i < w) : x &&& (1#w <<< i) = 0#w ↔ x.getLsbD i = false := by
  constructor
  · intro h
    have hbit : (x &&& (1#w <<< i)).getLsbD i = false := by simp [h]
    simpa [BitVec.getLsbD_and, getLsbD_one_shiftLeft hi] using hbit
  · intro h
    apply BitVec.eq_of_getLsbD_eq
    intro j _
    rw [BitVec.getLsbD_and, getLsbD_one_shiftLeft hi, BitVec.getLsbD_zero]
    by_cases hj : j = i
    · simp [hj, h]
    · simp [hj]

theorem countOnes_eq_card (x : BitVec w) : countOnes x = (positions x).toFinset.card :=
  (List.toFinset_card_of_nodup (nodup_positions x)).symm

theorem countOnes_setBit (hi : i < w) (hclear : x.getLsbD i = false) : countOnes (setBit x i) = countOnes x + 1 := by
  have hset : (positions (setBit x i)).toFinset = insert i (positions x).toFinset := by
    ext j
    simp [getLsbD_setBit hi, or_comm]
  rw [countOnes_eq_card, countOnes_eq_card, hset, card_insert_of_notMem (by simp [hclear])]

theorem flipBit_eq_setBit (hi : i < w) (hclear : x.getLsbD i = false) : flipBit x i = setBit x i := by
  apply BitVec.eq_of_getLsbD_eq
  intro j _
  rw [getLsbD_flipBit hi, getLsbD_setBit hi]
  by_cases hj : j = i
  · simp [hj, hclear]
  · simp [hj]

theorem flipBit_flipBit : flipBit (flipBit x i) i = x := by
  rw [flipBit, flipBit, BitVec.xor_assoc, BitVec.xor_self, BitVec.xor_zero]

theorem countOnes_flipBit_ne (hi : i < w) : countOnes (flipBit x i) ≠ countOnes x := by
  cases hbit : x.getLsbD i with
  | false =>
    rw [flipBit_eq_setBit hi hbit, countOnes_setBit hi hbit]
    omega
  | true =>
    -- the inverted bitmap has the bit clear, and inverting it again gives `x`
    have hclear : (flipBit x i).getLsbD i = false := by simp [getLsbD_flipBit hi, hbit]
    have hback := countOnes_setBit hi hclear
    rw [← flipBit_eq_setBit hi hclear, flipBit_flipBit] at hback
    omega

/-! ### Supermajorities -/

/-- Two sets of voters, each at least two thirds of the electorate, share a voter outside any set
of less than a third of it. -/
theorem exists_common_of_supermajority {α : Type*} [DecidableEq α] {electorate s t faulty : Finset α}
    (hs : s ⊆ electorate) (ht : t ⊆ electorate)
    (hsCard : 2 * electorate.card ≤ 3 * s.card) (htCard : 2 * electorate.card ≤ 3 * t.card)
    (hfaulty : 3 * faulty.card < electorate.card) : ∃ v ∈ s, v ∈ t ∧ v ∉ faulty := by
  have hunion : (s ∪ t).card ≤ electorate.card := card_le_card (union_subset hs ht)
  have hsum := card_union_add_card_inter s t
  have hlt : faulty.card < (s ∩ t).card := by omega
  obtain ⟨v, hv, hvf⟩ := exists_mem_notMem_of_card_lt_card hlt
  rw [mem_inter] at hv
  exact ⟨v, hv.1, hv.2, hvf⟩

end VoterSet

open VoterSet List

/-- The voters seen so far, and the messages that were counted for them. -/
structure VoterTally (w : Nat) (μ : Type) where
  bitmap : BitVec w
  counted : List μ

namespace VoterTally

variable {w : Nat} {μ : Type} (voter : μ → Option Nat)

def empty : VoterTally w μ := { bitmap := 0#w, counted := [] }

/-- One message. Indices are taken modulo the word size, as a machine shift does. -/
def count (tally : VoterTally w μ) (msg : μ) : VoterTally w μ :=
  match voter msg with
  | none => tally
  | some i =>
    if tally.bitmap.getLsbD (i % w) then tally
    else { bitmap := setBit tally.bitmap (i % w), counted := tally.counted ++ [msg] }

def countAll (msgs : List μ) : VoterTally w μ := msgs.foldl (count voter) empty

variable {voter}

/-- A loop that skips the elements without `p` does as well without them. -/
theorem foldl_filter_of_skip {σ : Type} {f : σ → μ → σ} {p : μ → Bool}
    (hskip : ∀ s m, p m = false → f s m = s)
    (msgs : List μ) (s : σ) : (msgs.filter p).foldl f s = msgs.foldl f s := by
  rw [foldl_filter]
  apply foldl_ext
  intro s msg _
  split
  next => rfl
  next hp => exact (hskip s msg (Bool.not_eq_true _ ▸ hp)).symm

theorem length_counted_le (msgs : List μ) :
    (countAll (w := w) voter msgs).counted.length ≤ msgs.length := by
  induction msgs using List.reverseRecOn with
  | nil => exact Nat.le_refl _
  | append_singleton msgs msg ih =>
    rw [countAll, foldl_concat, length_append, length_singleton, ← countAll]
    unfold count
    split
    · exact Nat.le_succ_of_le ih
    split
    · exact Nat.le_succ_of_le ih
    · rw [length_append, length_singleton]
      exact Nat.succ_le_succ ih

/-- What a tally of `messages` is: messages of distinct voters, each of whose bits is set. -/
structure Sound (voter : μ → Option Nat) (msgs : List μ) (tally : VoterTally w μ) : Prop where
  mem : ∀ m ∈ tally.counted, m ∈ msgs
  voters : ∀ m ∈ tally.counted, ∃ i, voter m = some i ∧ tally.bitmap.getLsbD (i % w) = true
  distinct : tally.counted.Pairwise fun m m' => voter m ≠ voter m'

theorem sound_empty (msgs : List μ) : Sound voter msgs (empty : VoterTally w μ) where
  mem := nofun
  voters := nofun
  distinct := List.Pairwise.nil

theorem getLsbD_setBit_of_getLsbD {x : BitVec w} {i j : Nat} (h : x.getLsbD j = true) :
    (setBit x i).getLsbD j = true := by
  rw [setBit, BitVec.getLsbD_or, h, Bool.true_or]

theorem Sound.count (hw : 0 < w) {msgs : List μ} {tally : VoterTally w μ} (h : Sound voter msgs tally)
    {msg : μ} (hmessage : msg ∈ msgs) : Sound voter msgs (tally.count voter msg) := by
  unfold VoterTally.count
  cases hvoter : voter msg with
  | none => exact h
  | some i =>
    dsimp only
    by_cases hseen : tally.bitmap.getLsbD (i % w) = true
    · rw [if_pos hseen]
      exact h
    rw [if_neg hseen]
    refine ⟨?_, ?_, ?_⟩
    · intro m hm
      rcases List.mem_append.mp hm with hm | hm
      · exact h.mem m hm
      · exact List.mem_singleton.mp hm ▸ hmessage
    · intro m hm
      rcases List.mem_append.mp hm with hm | hm
      · obtain ⟨j, hj, hbit⟩ := h.voters m hm
        exact ⟨j, hj, getLsbD_setBit_of_getLsbD hbit⟩
      rw [List.mem_singleton.mp hm]
      refine ⟨i, hvoter, ?_⟩
      rw [getLsbD_setBit (Nat.mod_lt i hw), decide_eq_true rfl, Bool.or_true]
    · rw [pairwise_append]
      refine ⟨h.distinct, pairwise_singleton _ _, ?_⟩
      intro m hm m' hm' hsame
      -- the voter of `m` has a set bit, that of the new message a clear one
      obtain ⟨j, hj, hbit⟩ := h.voters m hm
      rw [List.mem_singleton.mp hm', hvoter, hj] at hsame
      rw [Option.some.inj hsame] at hbit
      exact hseen hbit

theorem sound_countAll (hw : 0 < w) (msgs : List μ) : Sound voter msgs (countAll (w := w) voter msgs) :=
  foldlRecOn msgs _ (sound_empty msgs) fun _ h _ hmessage => h.count hw hmessage

/-- As many distinct voters as counted messages, each with a message of its own. -/
theorem Sound.exists_voters {msgs : List μ} {tally : VoterTally w μ} (h : Sound voter msgs tally) :
    ∃ voters : Finset Nat, voters.card = tally.counted.length ∧
      ∀ i ∈ voters, ∃ m ∈ msgs, voter m = some i := by
  have hnodup : (tally.counted.filterMap voter).Nodup := by
    rw [List.Nodup, pairwise_filterMap]
    apply h.distinct.imp
    intro m m' hne i hi j hj hij
    exact hne (by rw [hi, hj, hij])
  refine ⟨(tally.counted.filterMap voter).toFinset, ?_, ?_⟩
  · rw [toFinset_card_of_nodup hnodup, filterMap_length_eq_length]
    intro m hm
    obtain ⟨i, hi, -⟩ := h.voters m hm
    rw [hi]
    rfl
  · intro i hi
    obtain ⟨m, hm, hvoter⟩ := List.mem_filterMap.mp (List.mem_toFinset.mp hi)
    exact ⟨m, h.mem m hm, hvoter⟩

end VoterTally
