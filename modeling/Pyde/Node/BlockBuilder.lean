/-
Module: Pyde.Node.BlockBuilder
Purpose: Which pending transactions a proposer puts into a block. Nothing is lost and the counts are bounded; the gas
  is added up in 64 bits, so a large enough gas limit passes the check.
Trusted boundary: none
-/
import Pyde.Library.RoundRobin
import Pyde.Node.BlockProcessor

namespace Pyde

open RoundRobin List

/-! ### build_tx_list -/

/-- `SENDER_CAP`. -/
def senderCap : Nat := 16

/-- The keys of `by_sender` in the order of the map. -/
def sendersOf (pending : List Transaction) : List Address :=
  (pending.map (·.fromAddress)).dedup.insertionSort fun a b => a.toList ≤ b.toList

def byNonce (pending : List Transaction) (sender : Address) : List Transaction :=
  (pending.filter (·.fromAddress = sender)).insertionSort fun a b => a.nonce ≤ b.nonce

/-- `queues`, `selected` and `gas_used`. -/
structure Building extends Selection Address Transaction where
  gasUsed : U64

section

variable (blockGasLimit : U64) (maxCount : Nat)

/-- One pass through the queues. The sum of gas wraps around. -/
def pass : List Address → Building → Building
  | [], s => s
  | sender :: senders, s =>
    if maxCount ≤ s.selected.length then s
    else
      match s.queues sender with
      | [] => pass senders s
      | tx :: rest =>
        if blockGasLimit < s.gasUsed + tx.gasLimit then pass senders s
        else
          let s' : Building := ⟨s.take sender tx rest, s.gasUsed + tx.gasLimit⟩
          if blockGasLimit ≤ s'.gasUsed then s' else pass senders s'

/-- The loop, for as many rounds as can be needed. -/
def rounds (senders : List Address) : Nat → Building → Building
  | 0, s => s
  | left + 1, s =>
    let s' := pass blockGasLimit maxCount senders s
    if s'.selected.length = s.selected.length ∨ blockGasLimit ≤ s'.gasUsed ∨
      maxCount ≤ s'.selected.length then s'
    else rounds senders left s'

end

/-- `build_tx_list`. Every round but the last selects a transaction, so `max_count` rounds are enough. -/
def buildTxList (pending : List Transaction) (blockGasLimit : U64) (maxCount : Nat) :
    List Transaction × List Transaction :=
  if pending = [] then ([], [])
  else
    let senders := sendersOf pending
    let s := rounds blockGasLimit maxCount senders maxCount
      ⟨⟨fun sender => (byNonce pending sender).take senderCap, []⟩, 0⟩
    (s.selected, senders.flatMap (fun sender => (byNonce pending sender).drop senderCap) ++ senders.flatMap s.queues)

def gasTotal (txs : List Transaction) : Nat := (txs.map (·.gasLimit.toNat)).sum

/-! ### What every round keeps -/

section

variable (limit : U64) (maxCount : Nat)

/-- The loop goes on only as long as gas is left, but it always begins. -/
def Building.Open (s : Building) : Prop := s.gasUsed = 0 ∨ s.gasUsed < limit

/-- Taking a transaction for which there is room keeps the property. -/
def KeptByTaking (keeps : Building → Prop) : Prop :=
  ∀ s sender tx rest, keeps s → s.Open limit → s.queues sender = tx :: rest →
    s.selected.length < maxCount →
    s.gasUsed + tx.gasLimit ≤ limit → keeps ⟨s.take sender tx rest, s.gasUsed + tx.gasLimit⟩

variable {limit maxCount} {s : Building} {keeps : Building → Prop}

theorem KeptByTaking.pass (htake : KeptByTaking limit maxCount keeps) (senders : List Address) (h : keeps s)
    (hopen : s.Open limit) : keeps (pass limit maxCount senders s) := by
  induction senders generalizing s with
  | nil => exact h
  | cons sender senders ih =>
    unfold Pyde.pass
    split
    · exact h
    rename_i hroom
    split
    · exact ih h hopen
    rename_i tx rest hqueue
    split
    · exact ih h hopen
    rename_i hfits
    have htaken := htake s sender tx rest h hopen hqueue (Nat.not_le.mp hroom) (BitVec.not_lt.mp hfits)
    dsimp only
    split
    · exact htaken
    · next hleft => exact ih htaken (.inr (BitVec.not_le.mp hleft))

theorem KeptByTaking.rounds (htake : KeptByTaking limit maxCount keeps) (senders : List Address) (left : Nat)
    (h : keeps s) (hopen : s.Open limit) : keeps (rounds limit maxCount senders left s) := by
  induction left generalizing s with
  | zero => exact h
  | succ left ih =>
    have hpass := htake.pass senders h hopen
    unfold Pyde.rounds
    dsimp only
    split
    · exact hpass
    · next hmore => exact ih hpass (.inr (BitVec.not_le.mp fun hfull => hmore (.inr (.inl hfull))))

/-- With the fuel of `buildTxList` the loop comes to its end: more rounds change nothing. -/
theorem rounds_succ (senders : List Address) {left : Nat} (h : maxCount ≤ left + s.selected.length)
    (hopen : s.Open limit) :
    rounds limit maxCount senders (left + 1) s = rounds limit maxCount senders left s := by
  induction left generalizing s with
  | zero =>
    have hpass : pass limit maxCount senders s = s := by
      cases senders with
      | nil => rfl
      | cons sender senders => rw [pass, if_pos (by omega)]
    rw [rounds.eq_2, hpass, if_pos (.inl rfl), rounds]
  | succ left ih =>
    have htake : KeptByTaking limit maxCount fun s' => s.selected.length ≤ s'.selected.length := by
      intro s' sender tx rest hle _ _ _ _
      exact hle.trans (sublist_append_left _ _).length_le
    have hgrows := htake.pass senders (Nat.le_refl _) hopen
    rw [rounds.eq_2 _ _ _ s (left + 1), rounds.eq_2 _ _ _ s left]
    split
    · rfl
    · next hmore => exact ih (by omega) (.inr (BitVec.not_le.mp fun hfull => hmore (.inr (.inl hfull))))

variable (limit maxCount) in
/-- What holds in every round. -/
structure Built (items : Address → List Transaction) (s : Building) : Prop where
  splits : s.Splits (·.fromAddress) items
  count : s.selected.length ≤ maxCount
  gas : s.gasUsed.toNat = gasTotal s.selected % 2 ^ 64
  exact : (∀ sender, ∀ tx ∈ items sender, limit.toNat + tx.gasLimit.toNat ≤ 2 ^ 64) →
    gasTotal s.selected ≤ limit.toNat

theorem Built.take {items : Address → List Transaction}
    (hown : ∀ sender, ∀ tx ∈ items sender, tx.fromAddress = sender)
    (h : Built limit maxCount items s) (hopen : s.Open limit) {sender : Address}
    {tx : Transaction} {rest : List Transaction}
    (hqueue : s.queues sender = tx :: rest) (hroom : s.selected.length < maxCount)
    (hfits : s.gasUsed + tx.gasLimit ≤ limit) :
    Built limit maxCount items ⟨s.take sender tx rest, s.gasUsed + tx.gasLimit⟩ := by
  have hitem : tx ∈ items sender := by
    rw [← h.splits sender, hqueue]
    simp
  have htotal : gasTotal (s.selected ++ [tx]) = gasTotal s.selected + tx.gasLimit.toNat := by simp [gasTotal]
  have hgas := h.gas
  have hle := BitVec.le_def.mp hfits
  rw [BitVec.toNat_add] at hle
  refine ⟨h.splits.take hqueue (hown sender tx hitem), ?_, ?_, ?_⟩
  · simpa [Selection.take] using hroom
  · change (s.gasUsed + tx.gasLimit).toNat = gasTotal (s.selected ++ [tx]) % 2 ^ 64
    rw [BitVec.toNat_add, htotal]
    omega
  · intro hsmall
    change gasTotal (s.selected ++ [tx]) ≤ _
    have hbound := hsmall sender tx hitem
    have hbefore := h.exact hsmall
    have hlimit := limit.isLt
    have hprice := tx.gasLimit.isLt
    rw [Nat.mod_eq_of_lt (by omega)] at hgas
    have hleft : s.gasUsed.toNat = 0 ∨ s.gasUsed.toNat < limit.toNat :=
      hopen.imp (congrArg BitVec.toNat) BitVec.lt_def.mp
    omega

end

/-! ### The result -/

section

variable (pending : List Transaction)

theorem mem_byNonce {sender : Address} {tx : Transaction} :
    tx ∈ byNonce pending sender ↔ tx ∈ pending ∧ tx.fromAddress = sender := by
  rw [byNonce, (perm_insertionSort _ _).mem_iff, mem_filter, decide_eq_true_iff]

theorem nodup_sendersOf : (sendersOf pending).Nodup := (perm_insertionSort _ _).nodup_iff.mpr (nodup_dedup _)

theorem mem_sendersOf {sender : Address} (h : byNonce pending sender ≠ []) : sender ∈ sendersOf pending := by
  obtain ⟨tx, htx⟩ := exists_mem_of_ne_nil _ h
  obtain ⟨hmem, rfl⟩ := (mem_byNonce pending).mp htx
  rw [sendersOf, (perm_insertionSort _ _).mem_iff, mem_dedup]
  exact mem_map_of_mem hmem

theorem perm_byNonce : pending.Perm ((sendersOf pending).flatMap (byNonce pending)) := by
  have hsplits : Selection.Splits (·.fromAddress) (fun sender => pending.filter (·.fromAddress = sender))
      ⟨fun _ => [], pending⟩ := fun _ => append_nil _
  have hperm := hsplits.perm (fun sender tx htx => by simpa using (List.mem_filter.mp htx).2) (nodup_sendersOf pending)
    fun sender h => mem_sendersOf pending fun hnil => h (List.Perm.eq_nil (hnil ▸ (perm_insertionSort _ _).symm))
  have hsorted : ((sendersOf pending).flatMap fun sender => pending.filter (·.fromAddress = sender)).Perm
      ((sendersOf pending).flatMap (byNonce pending)) :=
    List.Perm.flatMap_left _ fun sender _ => (perm_insertionSort _ _).symm
  rw [List.flatMap_eq_nil_iff.mpr fun _ _ => rfl, append_nil] at hperm
  exact hperm.trans hsorted

end

/-- Two transactions of one sender that ask for 2^64 gas together. -/
def wrappingPair (gas : U64) : List Transaction :=
  [{ transferOf 1 1 0 with gasLimit := -gas }, { transferOf 1 1 1 with gasLimit := gas }]

theorem gasTotal_wrappingPair {gas : U64} (hpositive : 0 < gas.toNat) : gasTotal (wrappingPair gas) = 2 ^ 64 := by
  have hsize := gas.isLt
  simp only [gasTotal, wrappingPair, map_cons, map_nil, sum_cons, sum_nil, BitVec.toNat_neg]
  omega

section

variable {limit : U64} {maxCount : Nat} {s : Building} {sender : Address}

/-- A pass for one sender takes the next transaction if it fits. -/
theorem pass_singleton {tx : Transaction} {rest : List Transaction} (hroom : s.selected.length < maxCount)
    (hqueue : s.queues sender = tx :: rest) (hfits : s.gasUsed + tx.gasLimit ≤ limit) :
    pass limit maxCount [sender] s = ⟨s.take sender tx rest, s.gasUsed + tx.gasLimit⟩ := by
  simp only [pass, if_neg (Nat.not_le.mpr hroom), hqueue, if_neg (BitVec.not_lt.mpr hfits), ite_self]

theorem rounds_singleton_nil (hqueue : s.queues sender = []) (left : Nat) :
    rounds limit maxCount [sender] left s = s := by
  have hpass : pass limit maxCount [sender] s = s := by simp only [pass, hqueue, ite_self]
  cases left with
  | zero => rfl
  | succ left => rw [rounds, hpass, if_pos (.inl rfl)]

theorem rounds_singleton_pair {tx tx' : Transaction} (left : Nat) (hroom : s.selected.length + 2 ≤ maxCount)
    (hqueue : s.queues sender = [tx, tx']) (hfirst : s.gasUsed + tx.gasLimit < limit)
    (hsecond : s.gasUsed + tx.gasLimit + tx'.gasLimit ≤ limit) :
    (rounds limit maxCount [sender] (left + 2) s).selected = s.selected ++ [tx] ++ [tx'] := by
  have hlength : (s.take sender tx [tx']).selected.length = s.selected.length + 1 := length_append
  have hnext : (s.take sender tx [tx']).queues sender = [tx'] := Function.update_self _ _ _
  have hgoes : ¬ ((s.take sender tx [tx']).selected.length = s.selected.length ∨
      limit ≤ s.gasUsed + tx.gasLimit ∨ maxCount ≤ (s.take sender tx [tx']).selected.length) := by
    rintro (hsame | hfull | hmany)
    · omega
    · exact BitVec.not_le.mpr hfirst hfull
    · omega
  have hroom' : (s.take sender tx [tx']).selected.length < maxCount := by omega
  rw [rounds, pass_singleton (by omega) hqueue (BitVec.le_of_lt hfirst)]
  dsimp only
  rw [if_neg hgoes, rounds, pass_singleton hroom' hnext hsecond]
  dsimp only
  split
  · rfl
  · rw [rounds_singleton_nil (Function.update_self _ _ _)]
    rfl

end

/-- The first of the pair fits, and the second takes the sum to zero. -/
theorem buildTxList_wrappingPair {limit : U64} {maxCount : Nat} (gas : U64) (hcount : 2 ≤ maxCount)
    (h : 2 ^ 64 < limit.toNat + gas.toNat) :
    (buildTxList (wrappingPair gas) limit maxCount).1 = wrappingPair gas ∧
      limit.toNat < gasTotal (wrappingPair gas) := by
  have hlimit := limit.isLt
  have hsize := gas.isLt
  have hfirst : 0#64 + -gas < limit := by
    rw [BitVec.zero_add, BitVec.lt_def, BitVec.toNat_neg]
    omega
  have hsecond : 0#64 + -gas + gas ≤ limit := by
    rw [BitVec.zero_add, BitVec.add_comm, BitVec.add_right_neg]
    exact BitVec.le_def.mpr (Nat.zero_le _)
  have hsenders : sendersOf (wrappingPair gas) = [fill32 1] := by
    change ([fill32 1, fill32 1].dedup.insertionSort fun a b : Address => a.toList ≤ b.toList) = _
    decide +kernel
  have hqueue : (byNonce (wrappingPair gas) (fill32 1)).take senderCap = wrappingPair gas := by
    simp [byNonce, wrappingPair, transferOf, senderCap]
  obtain ⟨left, rfl⟩ : ∃ left, maxCount = left + 2 := ⟨maxCount - 2, by omega⟩
  refine ⟨?_, by rwa [gasTotal_wrappingPair (by omega)]⟩
  rw [buildTxList, if_neg (by simp [wrappingPair]), hsenders]
  exact rounds_singleton_pair left (Nat.le_add_left _ _) hqueue hfirst hsecond

/-- Nothing is lost, no limit on the number is exceeded, and every sender's transactions are taken from the front. The
gas stays within the limit if no pending transaction can take the limit past 2^64, and no gas limit beyond that is safe:
with another transaction it makes a pair that is selected for 2^64 gas. -/
theorem buildTxList_spec (pending : List Transaction) (limit : U64) (maxCount : Nat) :
    let (selected, remaining) := buildTxList pending limit maxCount
    (selected ++ remaining).Perm pending ∧ selected.length ≤ maxCount ∧
    (∀ sender, (selected.filter (·.fromAddress = sender)).length ≤ senderCap ∧
      selected.filter (·.fromAddress = sender) <+: byNonce pending sender) ∧
    ((∀ tx ∈ pending, limit.toNat + tx.gasLimit.toNat ≤ 2 ^ 64) →
      gasTotal selected ≤ limit.toNat) ∧
    ∀ gas : U64, 2 ≤ maxCount → 2 ^ 64 < limit.toNat + gas.toNat →
      (buildTxList (wrappingPair gas) limit maxCount).1 = wrappingPair gas ∧
        limit.toNat < gasTotal (wrappingPair gas) := by
  rw [buildTxList]
  by_cases hnone : pending = []
  · subst hnone
    exact ⟨.refl _, Nat.zero_le _, fun _ => ⟨Nat.zero_le _, nil_prefix⟩, fun _ =>
      Nat.zero_le _, buildTxList_wrappingPair⟩
  rw [if_neg hnone]
  have hown : ∀ sender, ∀ tx ∈ (byNonce pending sender).take senderCap, tx.fromAddress = sender :=
    fun sender tx htx => ((mem_byNonce pending).mp (mem_of_mem_take htx)).2
  have hbuilt : Built limit maxCount (fun sender => (byNonce pending sender).take senderCap)
      (rounds limit maxCount (sendersOf pending) maxCount
        ⟨⟨fun sender => (byNonce pending sender).take senderCap, []⟩, 0⟩) := by
    have htake : KeptByTaking limit maxCount (Built limit maxCount _) :=
      fun _ _ _ _ h hopen hqueue hroom hfits => h.take hown hopen hqueue hroom hfits
    refine htake.rounds _ _ ?_ (.inl rfl)
    exact ⟨fun _ => rfl, Nat.zero_le _, rfl, fun _ => Nat.zero_le _⟩
  dsimp only
  generalize rounds limit maxCount (sendersOf pending) maxCount _ = s at hbuilt
  refine ⟨?_, hbuilt.count, fun sender => ?_, fun hsmall => hbuilt.exact fun sender tx htx =>
    hsmall tx ((mem_byNonce pending).mp (mem_of_mem_take htx)).1, buildTxList_wrappingPair⟩
  · have hperm := hbuilt.splits.perm hown (nodup_sendersOf pending) fun sender h =>
      mem_sendersOf pending fun hnil => h (by rw [hnil]; rfl)
    have hcut := flatMap_append_perm (sendersOf pending) (fun sender => (byNonce pending sender).take senderCap)
      fun sender => (byNonce pending sender).drop senderCap
    simp only [take_append_drop] at hcut
    refine ((List.perm_append_comm.append_left s.selected).trans ?_).trans (perm_byNonce pending).symm
    rw [← append_assoc]
    exact (hperm.append_right _).trans hcut
  · have hfront : s.selected.filter (·.fromAddress = sender) <+: (byNonce pending sender).take senderCap :=
      ⟨_, hbuilt.splits sender⟩
    exact ⟨hfront.length_le.trans (length_take_le _ _), hfront.trans (List.take_prefix _ _)⟩

/-- Two transactions of one sender, whose gas limits together are 50 more than 64 bits hold. -/
def wrappingPending : List Transaction :=
  [{ transferOf 1 1 0 with gasLimit := 60 }, { transferOf 1 1 1 with gasLimit := -10 }]

theorem buildTxList_wraps :
    (buildTxList wrappingPending 100 500).1 = wrappingPending ∧ 100 < gasTotal wrappingPending := by
  decide +kernel

end Pyde
