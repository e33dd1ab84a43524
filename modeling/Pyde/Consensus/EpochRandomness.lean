/-
Module: Pyde.Consensus.EpochRandomness
Purpose: Epoch randomness from VRF shares: how a node collects shares, how they are combined, and when two nodes
  that received different shares in different orders compute the same value.
Trusted boundary: Prims, the sponge over field elements
-/
import Pyde.Consensus.Block
import Pyde.Crypto.Vrf

namespace Pyde

open ByteCodec List Function

/-! ### Shares -/

structure RandomnessShare where
  validatorIndex : U8
  address : Address
  vrfOutput : Hash256
  vrfProof : Bytes
deriving DecidableEq

structure EpochRandomness where
  epoch : U64
  randomness : Hash256
  shareCount : Nat
deriving DecidableEq

def randomnessThresholdFor (committeeSize : Nat) : Nat := quorumForCommittee committeeSize

def randomnessVrfInput (epoch : U64) : Bytes := ascii "pyde-epoch-randomness-v1" ++ toLe epoch

def verifyShare (P : Prims) (share : RandomnessShare) (pk : FalconPublicKey) (epoch : U64) : Bool :=
  vrfVerify P pk (randomnessVrfInput epoch) share.vrfOutput share.vrfProof

/-! ### Combining -/

/-- `by_index.entry(share.validator_index).or_insert(share)`. -/
def orInsert (byIndex : U8 → Option RandomnessShare) (share : RandomnessShare) : U8 → Option RandomnessShare :=
  match byIndex share.validatorIndex with
  | some _ => byIndex
  | none => Function.update byIndex share.validatorIndex (some share)

def indexShares (shares : List RandomnessShare) : U8 → Option RandomnessShare := shares.foldl orInsert fun _ => none

/-- The values of the map in the order of the indices. -/
def sharesInOrder (byIndex : U8 → Option RandomnessShare) : List RandomnessShare :=
  (List.range 256).filterMap fun i => byIndex (BitVec.ofNat 8 i)

/-- Hashes in the order of their bytes. -/
def sortOutputs (outputs : List Hash256) : List Hash256 := outputs.insertionSort fun a b => a.toList ≤ b.toList

def combineSharesWithThreshold (sponge : List Goldilocks → List.Vector Goldilocks 4)
    (shares : List RandomnessShare) (epoch : U64) (threshold : Nat) : Option EpochRandomness :=
  if shares.length < threshold then none
  else
    let byIndex := sharesInOrder (indexShares shares)
    if byIndex.length < threshold then none
    else
      let canonical := byIndex.take threshold
      let sortedOutputs := sortOutputs (canonical.map RandomnessShare.vrfOutput)
      some { epoch, randomness := poseidon2Many sponge sortedOutputs, shareCount := canonical.length }

def combineSharesDynamic (sponge : List Goldilocks → List.Vector Goldilocks 4) (shares : List RandomnessShare)
    (epoch : U64) (committeeSize : Nat) : Option EpochRandomness :=
  combineSharesWithThreshold sponge shares epoch (randomnessThresholdFor committeeSize)

/-! ### Collecting -/

structure RandomnessCollector where
  epoch : U64
  committeeSize : Nat
  shares : List RandomnessShare
  seen : U8 → Bool

namespace RandomnessCollector

def new (epoch : U64) (committeeSize : Nat) : RandomnessCollector where
  epoch := epoch
  committeeSize := committeeSize
  shares := []
  seen _ := false

/-- `add_share`: the first share of an index stays. -/
def addShare (collector : RandomnessCollector) (share : RandomnessShare) : RandomnessCollector × Bool :=
  if collector.seen share.validatorIndex then (collector, false)
  else
    ({ collector with
      seen := Function.update collector.seen share.validatorIndex true
      shares := collector.shares ++ [share] }, true)

def finalize (sponge : List Goldilocks → List.Vector Goldilocks 4) (collector : RandomnessCollector) :
    Option EpochRandomness :=
  combineSharesDynamic sponge collector.shares collector.epoch collector.committeeSize

end RandomnessCollector

/-- What the validator engine knows when shares arrive. -/
structure RandomnessNode where
  committeeKeys : List Bytes
  prevCommitteeKeys : List Bytes
  randomnessCollector : Option RandomnessCollector

namespace RandomnessNode

def tryWith (P : Prims) (epoch : U64) (share : RandomnessShare) (table : List Bytes) : Bool :=
  match table[share.validatorIndex.toNat]? with
  | none => false
  | some key =>
    match FalconPublicKey.fromBytes key with
    | none => false
    | some pk => verifyShare P share pk epoch

/-- Shares are checked with the keys of the committee, or else with those of the committee before it. -/
def accepts (P : Prims) (node : RandomnessNode) (epoch : U64) (share : RandomnessShare) : Bool :=
  tryWith P epoch share node.committeeKeys || tryWith P epoch share node.prevCommitteeKeys

/-- `start_epoch_randomness` with the share that the node has generated. -/
def startEpochRandomness (node : RandomnessNode) (nextEpoch : U64) (share : RandomnessShare) : RandomnessNode :=
  { node with
    randomnessCollector := some ((RandomnessCollector.new nextEpoch node.committeeKeys.length).addShare share).1 }

def onRandomnessShare (P : Prims) (node : RandomnessNode) (share : RandomnessShare) : RandomnessNode × Bool :=
  match node.randomnessCollector with
  | none => (node, false)
  | some collector =>
    if node.accepts P collector.epoch share then
      let (collector, added) := collector.addShare share
      ({ node with randomnessCollector := some collector }, added)
    else (node, false)

/-- The node starts the collection with its own share and receives others. -/
def collect (P : Prims) (node : RandomnessNode) (epoch : U64) (own : RandomnessShare)
    (received : List RandomnessShare) : RandomnessNode :=
  received.foldl (fun node share => (node.onRandomnessShare P share).1) (node.startEpochRandomness epoch own)

/-- What the node computes from its collector. -/
def finalize (sponge : List Goldilocks → List.Vector Goldilocks 4) (node : RandomnessNode) : Option EpochRandomness :=
  node.randomnessCollector.bind (RandomnessCollector.finalize sponge)

end RandomnessNode

/-! ### The first share of an index -/

def firstOf (shares : List RandomnessShare) (i : U8) : Option RandomnessShare :=
  shares.find? fun share => share.validatorIndex = i

theorem firstOf_cons (share : RandomnessShare) (shares : List RandomnessShare) (i : U8) :
    firstOf (share :: shares) i = (if share.validatorIndex = i then some share else none).or (firstOf shares i) := by
  unfold firstOf
  by_cases hi : share.validatorIndex = i
  · rw [List.find?_cons_of_pos (by simpa using hi), if_pos hi, Option.some_or]
  · rw [List.find?_cons_of_neg (by simpa using hi), if_neg hi, Option.none_or]

theorem firstOf_append (shares later : List RandomnessShare) (i : U8) :
    firstOf (shares ++ later) i = (firstOf shares i).or (firstOf later i) := List.find?_append

variable {shares : List RandomnessShare} {bound : Nat}

theorem firstOf_eq_some {i : U8} {share : RandomnessShare} (h : firstOf shares i = some share) :
    share ∈ shares ∧ share.validatorIndex = i :=
  ⟨List.mem_of_find?_eq_some h, by simpa using List.find?_some h⟩

theorem exists_firstOf {share : RandomnessShare} (h : share ∈ shares) :
    ∃ first, firstOf shares share.validatorIndex = some first := by
  apply Option.isSome_iff_exists.mp
  rw [firstOf, List.find?_isSome]
  exact ⟨share, h, decide_eq_true rfl⟩

theorem orInsert_apply (byIndex : U8 → Option RandomnessShare) (share : RandomnessShare) (i : U8) :
    orInsert byIndex share i = (byIndex i).or (if share.validatorIndex = i then some share else none) := by
  by_cases hi : share.validatorIndex = i
  · subst hi
    rw [if_pos rfl]
    unfold orInsert
    cases hprior : byIndex share.validatorIndex with
    | none => exact update_self ..
    | some prior => exact hprior
  rw [if_neg hi, Option.or_none]
  unfold orInsert
  cases byIndex share.validatorIndex with
  | none => exact update_of_ne (Ne.symm hi) _ _
  | some prior => rfl

theorem foldl_orInsert (shares : List RandomnessShare) (byIndex : U8 → Option RandomnessShare) (i : U8) :
    shares.foldl orInsert byIndex i = (byIndex i).or (firstOf shares i) := by
  induction shares generalizing byIndex with
  | nil => exact Option.or_none.symm
  | cons share shares ih => rw [foldl_cons, ih, orInsert_apply, firstOf_cons, Option.or_assoc]

theorem indexShares_eq (shares : List RandomnessShare) (i : U8) : indexShares shares i = firstOf shares i :=
  foldl_orInsert shares _ i

/-! ### What the combination depends on -/

/-- The shares of the indices below `bound`, in order. -/
def sharesBelow (shares : List RandomnessShare) (bound : Nat) : List RandomnessShare :=
  (List.range bound).filterMap fun i => firstOf shares (BitVec.ofNat 8 i)

theorem sharesInOrder_split (shares : List RandomnessShare) (h : bound ≤ 256) :
    ∃ rest, sharesInOrder (indexShares shares) = sharesBelow shares bound ++ rest := by
  have hrange : List.range 256 = List.range bound ++ (List.range (256 - bound)).map (bound + ·) := by
    rw [← range_add, Nat.add_sub_cancel' h]
  refine ⟨((List.range (256 - bound)).map (bound + ·)).filterMap fun i => firstOf shares (BitVec.ofNat 8 i), ?_⟩
  unfold sharesInOrder sharesBelow
  rw [← filterMap_append, ← hrange]
  exact filterMap_congr fun i _ => indexShares_eq shares _

theorem combineSharesWithThreshold_eq (sponge : List Goldilocks → List.Vector Goldilocks 4) {threshold : Nat}
    (hbound : bound ≤ 256) (hlength : threshold ≤ shares.length)
    (hcount : threshold ≤ (sharesBelow shares bound).length) (epoch : U64) :
    combineSharesWithThreshold sponge shares epoch threshold = some
      { epoch
        randomness := poseidon2Many sponge
          (sortOutputs (((sharesBelow shares bound).map RandomnessShare.vrfOutput).take threshold))
        shareCount := threshold } := by
  obtain ⟨rest, hsplit⟩ := sharesInOrder_split shares hbound
  unfold combineSharesWithThreshold
  dsimp only
  rw [hsplit, if_neg (by omega), if_neg (by rw [length_append]; omega), take_append_of_le_length hcount,
    length_take, Nat.min_eq_left hcount, map_take]

/-- The outputs below the bound depend on the first output of each index only. -/
theorem map_sharesBelow_congr {shares' : List RandomnessShare} (hbound : bound ≤ 256)
    (h : ∀ i : U8, i.toNat < bound → (firstOf shares i).map RandomnessShare.vrfOutput =
      (firstOf shares' i).map RandomnessShare.vrfOutput) :
    (sharesBelow shares bound).map RandomnessShare.vrfOutput =
      (sharesBelow shares' bound).map RandomnessShare.vrfOutput := by
  unfold sharesBelow
  rw [map_filterMap, map_filterMap]
  apply filterMap_congr
  intro i hi
  have hlt : i < bound := List.mem_range.mp hi
  apply h
  rw [BitVec.toNat_ofNat]
  omega

theorem card_le_sharesBelow {members : Finset U8}
    (h : ∀ i ∈ members, i.toNat < bound ∧ ∃ share ∈ shares, share.validatorIndex = i) :
    members.card ≤ (sharesBelow shares bound).length ∧ members.card ≤ shares.length := by
  constructor
  · have hsub : members ⊆ ((sharesBelow shares bound).map RandomnessShare.validatorIndex).toFinset := by
      intro i hi
      obtain ⟨hlt, share, hshare, rfl⟩ := h i hi
      obtain ⟨first, hfirst⟩ := exists_firstOf hshare
      rw [mem_toFinset, mem_map]
      refine ⟨first, ?_, (firstOf_eq_some hfirst).2⟩
      rw [sharesBelow, mem_filterMap]
      refine ⟨_, List.mem_range.mpr hlt, ?_⟩
      rw [BitVec.ofNat_toNat, BitVec.setWidth_eq]
      exact hfirst
    calc members.card ≤ _ := Finset.card_le_card hsub
      _ ≤ _ := toFinset_card_le _
      _ = _ := length_map _
  · have hsub : members ⊆ (shares.map RandomnessShare.validatorIndex).toFinset := by
      intro i hi
      obtain ⟨-, share, hshare, rfl⟩ := h i hi
      rw [mem_toFinset]
      exact mem_map_of_mem hshare
    calc members.card ≤ _ := Finset.card_le_card hsub
      _ ≤ _ := toFinset_card_le _
      _ = _ := length_map _

/-! ### What a collector holds -/

/-- The collector has the first share of each index among the shares that were added. -/
structure RandomnessCollector.Collected (collector : RandomnessCollector) (added : List RandomnessShare) : Prop where
  seen : ∀ i, collector.seen i = (firstOf collector.shares i).isSome
  first : ∀ i, firstOf collector.shares i = firstOf added i

theorem RandomnessCollector.Collected.addShare {collector : RandomnessCollector} {added : List RandomnessShare}
    (h : collector.Collected added) (share : RandomnessShare) :
    (collector.addShare share).1.Collected (added ++ [share]) ∧
      (collector.addShare share).1.epoch = collector.epoch ∧
      (collector.addShare share).1.committeeSize = collector.committeeSize := by
  unfold RandomnessCollector.addShare
  split
  next hseen =>
    refine ⟨⟨h.seen, ?_⟩, rfl, rfl⟩
    intro i
    rw [firstOf_append, h.first]
    by_cases hi : share.validatorIndex = i
    · -- a second share of an index is not the first one
      rw [hi, h.seen, h.first] at hseen
      obtain ⟨first, hfirst⟩ := Option.isSome_iff_exists.mp hseen
      rw [hfirst, Option.some_or]
    · rw [firstOf_cons, if_neg hi]
      exact Option.or_none.symm
  next hnew =>
    refine ⟨⟨?_, ?_⟩, rfl, rfl⟩
    · intro i
      dsimp only
      rw [firstOf_append, firstOf_cons]
      by_cases hi : share.validatorIndex = i
      · subst hi
        rw [update_self, if_pos rfl, Option.some_or, Option.isSome_or]
        exact (Bool.or_true _).symm
      · rw [update_of_ne (Ne.symm hi), if_neg hi, h.seen]
        exact congrArg Option.isSome Option.or_none.symm
    · intro i
      rw [firstOf_append, firstOf_append, h.first]

namespace RandomnessNode

variable {P : Prims}

/-- The collection goes on: the collector holds the accepted ones of the shares received as well. -/
theorem collected_receive (received : List RandomnessShare) (node : RandomnessNode)
    {collector : RandomnessCollector} {added : List RandomnessShare}
    (hcollector : node.randomnessCollector = some collector) (h : collector.Collected added) :
    ∃ after, (received.foldl (fun node share => (node.onRandomnessShare P share).1) node).randomnessCollector =
        some after ∧ after.Collected (added ++ received.filter (node.accepts P collector.epoch)) ∧
      after.epoch = collector.epoch ∧ after.committeeSize = collector.committeeSize := by
  induction received generalizing node collector added with
  | nil =>
    rw [filter_nil, append_nil]
    exact ⟨collector, hcollector, h, rfl, rfl⟩
  | cons share received ih =>
    rw [foldl_cons]
    cases haccepts : node.accepts P collector.epoch share with
    | false =>
      have hstep : (node.onRandomnessShare P share).1 = node := by
        unfold onRandomnessShare
        rw [hcollector]
        dsimp only
        rw [if_neg (by rw [haccepts]; exact Bool.false_ne_true)]
      rw [hstep, filter_cons_of_neg (by rw [haccepts]; exact Bool.false_ne_true)]
      exact ih node hcollector h
    | true =>
      have hstep : (node.onRandomnessShare P share).1 =
          { node with randomnessCollector := some (collector.addShare share).1 } := by
        unfold onRandomnessShare
        rw [hcollector]
        dsimp only
        rw [if_pos haccepts]
      obtain ⟨hadded, hepoch, hsize⟩ := h.addShare share
      rw [hstep, filter_cons_of_pos haccepts]
      obtain ⟨after, hafter, hcollected, hepoch', hsize'⟩ :=
        ih { node with randomnessCollector := some (collector.addShare share).1 } rfl hadded
      refine ⟨after, hafter, ?_, hepoch'.trans hepoch, hsize'.trans hsize⟩
      rw [hepoch, append_assoc] at hcollected
      exact hcollected

/-- The shares that count at a node: its own, and those received that verify. -/
def counted (P : Prims) (node : RandomnessNode) (epoch : U64) (own : RandomnessShare)
    (received : List RandomnessShare) : List RandomnessShare :=
  own :: received.filter (node.accepts P epoch)

theorem collected_collect (node : RandomnessNode) (epoch : U64) (own : RandomnessShare)
    (received : List RandomnessShare) :
    ∃ after, (node.collect P epoch own received).randomnessCollector = some after ∧
      after.Collected (node.counted P epoch own received) ∧
      after.epoch = epoch ∧ after.committeeSize = node.committeeKeys.length := by
  have hnew : (RandomnessCollector.new epoch node.committeeKeys.length).Collected [] := ⟨fun _ => rfl, fun _ => rfl⟩
  obtain ⟨hown, hepoch, hsize⟩ := hnew.addShare own
  obtain ⟨after, hafter, hcollected, hepoch', hsize'⟩ :=
    collected_receive (P := P) received (node.startEpochRandomness epoch own) rfl hown
  rw [hepoch] at hcollected hepoch'
  exact ⟨after, hafter, hcollected, hepoch', hsize'.trans hsize⟩

end RandomnessNode

/-! ### Agreement -/

/-- A threshold of members up to the index `last` have sent the shares. -/
def CoversThreshold (shares : List RandomnessShare) (committeeSize : Nat) (last : U8) : Prop :=
  ∃ members : Finset U8, randomnessThresholdFor committeeSize ≤ members.card ∧
    ∀ i ∈ members, i ≤ last ∧ ∃ share ∈ shares, share.validatorIndex = i

variable {last : U8}

theorem CoversThreshold.combine_eq {committeeSize : Nat} (h : CoversThreshold shares committeeSize last)
    (sponge : List Goldilocks → List.Vector Goldilocks 4) (epoch : U64) :
    combineSharesWithThreshold sponge shares epoch (randomnessThresholdFor committeeSize) = some
      { epoch
        randomness := poseidon2Many sponge (sortOutputs
          (((sharesBelow shares (last.toNat + 1)).map RandomnessShare.vrfOutput).take
            (randomnessThresholdFor committeeSize)))
        shareCount := randomnessThresholdFor committeeSize } := by
  obtain ⟨members, hthreshold, hmembers⟩ := h
  have hbelow : ∀ i ∈ members, i.toNat < last.toNat + 1 ∧ ∃ share ∈ shares, share.validatorIndex = i :=
    fun i hi => ⟨Nat.lt_succ_of_le (BitVec.le_def.mp (hmembers i hi).1), (hmembers i hi).2⟩
  obtain ⟨hcount, hlength⟩ := card_le_sharesBelow hbelow
  exact combineSharesWithThreshold_eq sponge last.isLt (hthreshold.trans hlength) (hthreshold.trans hcount) epoch

/-- Up to the index `last`, what was counted comes from members that have sent one of the common shares, and has its
output. -/
def AgreesUpTo (last : U8) (counted common : List RandomnessShare) : Prop :=
  ∀ share ∈ counted, share.validatorIndex ≤ last →
    (∃ s ∈ common, s.validatorIndex = share.validatorIndex) ∧
      ∀ s ∈ common, s.validatorIndex = share.validatorIndex → s.vrfOutput = share.vrfOutput

theorem AgreesUpTo.firstOf_eq {counted common : List RandomnessShare} (h : AgreesUpTo last counted common)
    (hsub : common ⊆ counted) {i : U8} (hi : i ≤ last) :
    (firstOf counted i).map RandomnessShare.vrfOutput = (firstOf common i).map RandomnessShare.vrfOutput := by
  cases hcounted : firstOf counted i with
  | none =>
    cases hcommon : firstOf common i with
    | none => rfl
    | some share =>
      obtain ⟨hmem, rfl⟩ := firstOf_eq_some hcommon
      obtain ⟨first, hfirst⟩ := exists_firstOf (hsub hmem)
      rw [hcounted] at hfirst
      cases hfirst
  | some share =>
    obtain ⟨hmem, rfl⟩ := firstOf_eq_some hcounted
    obtain ⟨⟨s, hs, hindex⟩, hsame⟩ := h share hmem hi
    obtain ⟨first, hfirst⟩ := exists_firstOf hs
    rw [hindex] at hfirst
    obtain ⟨hfirstMem, hfirstIndex⟩ := firstOf_eq_some hfirst
    rw [hfirst]
    exact congrArg some (hsame first hfirstMem hfirstIndex).symm

/-- What a node computes, if what it counted agrees with the common shares. -/
theorem finalize_collect {P : Prims} (sponge : List Goldilocks → List.Vector Goldilocks 4)
    {node : RandomnessNode} {epoch : U64} {own : RandomnessShare} {received common : List RandomnessShare}
    (hsub : common ⊆ node.counted P epoch own received)
    (hcovers : CoversThreshold common node.committeeKeys.length last)
    (hagrees : AgreesUpTo last (node.counted P epoch own received) common) :
    (node.collect P epoch own received).finalize sponge =
      combineSharesDynamic sponge common epoch node.committeeKeys.length := by
  obtain ⟨after, hafter, hcollected, hepoch, hsize⟩ := RandomnessNode.collected_collect node epoch own received
  have hbound : last.toNat + 1 ≤ 256 := last.isLt
  have hcollects : CoversThreshold after.shares node.committeeKeys.length last := by
    obtain ⟨members, hthreshold, hmembers⟩ := hcovers
    refine ⟨members, hthreshold, ?_⟩
    intro i hi
    obtain ⟨hle, share, hshare, rfl⟩ := hmembers i hi
    obtain ⟨first, hfirst⟩ := exists_firstOf (hsub hshare)
    rw [← hcollected.first] at hfirst
    exact ⟨hle, first, firstOf_eq_some hfirst⟩
  have hsame : (sharesBelow after.shares (last.toNat + 1)).map RandomnessShare.vrfOutput =
      (sharesBelow common (last.toNat + 1)).map RandomnessShare.vrfOutput := by
    apply map_sharesBelow_congr hbound
    intro i hi
    rw [hcollected.first]
    exact hagrees.firstOf_eq hsub (BitVec.le_def.mpr (Nat.le_of_lt_succ hi))
  unfold RandomnessNode.finalize
  rw [hafter]
  change combineSharesWithThreshold sponge after.shares after.epoch (randomnessThresholdFor after.committeeSize) =
    combineSharesWithThreshold sponge common epoch (randomnessThresholdFor node.committeeKeys.length)
  rw [hepoch, hsize, hcollects.combine_eq sponge epoch, hcovers.combine_eq sponge epoch, hsame]

/-- Two nodes that count the common shares, and up to the last canonical index nothing that disagrees with them,
compute the same randomness, in whatever order and how often they receive them. -/
theorem randomness_agreement {P : Prims} (sponge : List Goldilocks → List.Vector Goldilocks 4) (epoch : U64)
    {node node' : RandomnessNode} (hsize : node.committeeKeys.length = node'.committeeKeys.length)
    {own own' : RandomnessShare} {received received' common : List RandomnessShare} {last : U8}
    (hcovers : CoversThreshold common node.committeeKeys.length last)
    (hsub : common ⊆ node.counted P epoch own received) (hsub' : common ⊆ node'.counted P epoch own' received')
    (hagrees : AgreesUpTo last (node.counted P epoch own received) common)
    (hagrees' : AgreesUpTo last (node'.counted P epoch own' received') common) :
    (node.collect P epoch own received).finalize sponge = (node'.collect P epoch own' received').finalize sponge ∧
      ∃ res, (node.collect P epoch own received).finalize sponge = some res := by
  rw [finalize_collect sponge hsub hcovers hagrees, finalize_collect sponge hsub' (hsize ▸ hcovers) hagrees', hsize]
  exact ⟨rfl, _, (hsize ▸ hcovers).combine_eq sponge epoch⟩

/-! ### Examples -/

/-- A committee of four, of which three have to send a share. -/
def fourNode : RandomnessNode where
  committeeKeys := [lucidKey 1, lucidKey 2, lucidKey 3, lucidKey 4]
  prevCommitteeKeys := []
  randomnessCollector := none

/-- A share for epoch 1, proved under the key of the member. -/
def shareOf (i b : U8) : RandomnessShare where
  validatorIndex := i
  address := zero32
  vrfOutput := fill32 b
  vrfProof := readableProof (i + 1) (randomnessVrfInput 1) (fill32 b)

theorem randomness_agreement_four :
    (fourNode.collect readableProofs 1 (shareOf 0 5) [shareOf 2 7, shareOf 1 6]).finalize weightedSponge =
      (fourNode.collect readableProofs 1 (shareOf 1 6)
        [shareOf 3 8, shareOf 0 5, shareOf 2 7, shareOf 0 5]).finalize weightedSponge := by
  have hcovers : CoversThreshold [shareOf 0 5, shareOf 1 6, shareOf 2 7] fourNode.committeeKeys.length 2 :=
    ⟨{0, 1, 2}, by decide, by decide +kernel⟩
  apply (randomness_agreement weightedSponge 1 rfl hcovers _ _ _ _).1
  · decide +kernel
  · decide +kernel
  · unfold AgreesUpTo
    decide +kernel
  · unfold AgreesUpTo
    decide +kernel

/-- A node that has one more share computes another value, and so do two nodes that receive the same shares in
different orders, if the member 1 has sent two outputs. -/
theorem randomness_splits :
    (fourNode.collect readableProofs 1 (shareOf 3 8) [shareOf 1 6, shareOf 2 7]).finalize weightedSponge ≠
      (fourNode.collect readableProofs 1 (shareOf 3 8)
        [shareOf 1 6, shareOf 2 7, shareOf 0 5]).finalize weightedSponge ∧
    (fourNode.collect readableProofs 1 (shareOf 0 5) [shareOf 1 6, shareOf 1 9,
      shareOf 2 7]).finalize weightedSponge ≠
      (fourNode.collect readableProofs 1 (shareOf 0 5)
        [shareOf 1 9, shareOf 1 6, shareOf 2 7]).finalize weightedSponge := by
  constructor
  · decide +kernel
  · decide +kernel

end Pyde
