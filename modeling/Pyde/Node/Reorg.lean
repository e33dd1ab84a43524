/-
Module: Pyde.Node.Reorg
Purpose: Reverting the chain and the state, and replacing the head by a competing block.
Trusted boundary: Prims, Pvm, Threshold, the root of the tree
-/
import Pyde.Node.Revert

namespace Pyde

open ByteCodec StateProgram

/-! ### Reverting the chain head -/

namespace ChainState

def header (chain : ChainState) (slot : U64) : Option BlockHeader :=
  (chain.headers.find? fun entry => entry.1 = slot).map Prod.snd

/-- `revert`: the headers above the target are dropped. The base fee stays. -/
def revert (P : Prims) (chain : ChainState) (targetSlot : U64) : Except String (Nat × ChainState) :=
  if chain.headSlot < targetSlot then
    .error ("ChainState::revert: target " ++ decimal targetSlot ++ " > head " ++ decimal chain.headSlot ++
      " (only backwards reverts valid)")
  else if targetSlot = chain.headSlot then .ok (0, chain)
  else do
    let targetHeader ←
      if targetSlot = 0 then pure none
      else
        match chain.header targetSlot with
        | some header => pure (some header)
        | none =>
          .error ("ChainState::revert: target slot " ++ decimal targetSlot ++ " header not in memory " ++
            "(likely pruned beyond 2-epoch window — fall back to snapshot restore)")
    let dropped := chain.headers.filter fun entry => targetSlot < entry.1
    let droppedHashes := dropped.map fun entry => entry.2.hash P
    pure (dropped.length, { chain with
        headSlot := targetSlot
        epoch := targetSlot / epochLength
        stateRoot := (targetHeader.map BlockHeader.stateRoot).getD zero32
        headers := chain.headers.filter fun entry => ¬ targetSlot < entry.1
        hashToSlot := chain.hashToSlot.filter fun entry => entry.1 ∉ droppedHashes })

/-- The head is known, or it is the genesis or the current head. -/
def CanRevert (chain : ChainState) (targetSlot : U64) : Prop :=
  targetSlot = chain.headSlot ∨ targetSlot = 0 ∨ chain.header targetSlot ≠ none

theorem revert_ok {P : Prims} {chain reverted : ChainState} {targetSlot : U64} {dropped : Nat}
    (h : chain.revert P targetSlot = .ok (dropped, reverted)) :
    reverted.headSlot = targetSlot ∧ reverted.baseFee = chain.baseFee ∧ reverted.chainId = chain.chainId ∧
      (targetSlot ≠ chain.headSlot →
        reverted.headers = chain.headers.filter fun entry => ¬ targetSlot < entry.1) := by
  unfold revert at h
  split at h
  · cases h
  split at h
  next hhead =>
    cases h
    exact ⟨hhead.symm, rfl, rfl, fun hne => absurd hhead hne⟩
  split at h
  next =>
    cases h
    exact ⟨rfl, rfl, rfl, fun _ => rfl⟩
  cases hheader : chain.header targetSlot with
  | none =>
    rw [hheader] at h
    cases h
  | some header =>
    rw [hheader] at h
    cases h
    exact ⟨rfl, rfl, rfl, fun _ => rfl⟩

theorem exists_revert (P : Prims) {chain : ChainState} {targetSlot : U64}
    (hle : targetSlot ≤ chain.headSlot) (hknown : chain.CanRevert targetSlot) :
    ∃ dropped reverted, chain.revert P targetSlot = .ok (dropped, reverted) := by
  unfold revert
  rw [if_neg (BitVec.not_lt.mpr hle)]
  split
  · exact ⟨_, _, rfl⟩
  rename_i hhead
  split
  · exact ⟨_, _, rfl⟩
  rename_i hzero
  cases hheader : chain.header targetSlot with
  | none => exact absurd hheader ((hknown.resolve_left hhead).resolve_left hzero)
  | some header => exact ⟨_, _, rfl⟩

end ChainState

/-! ### Reorganising -/

/-- `reorg_to_block`, with what it leaves behind. An error after the state revert leaves the state
reverted, and one after the chain revert leaves both. -/
def reorgToBlock (P : Prims) (pvm : Pvm) (aot : Nat → Bool) (rootOf : StateMap → Hash256)
    (node : NodeState) (target : Block) (wsSlot : Option U64) : Except String ProcessedLayers × NodeState :=
  let targetSlot := target.header.slot
  if node.chain.headSlot < targetSlot then
    (.error ("reorg_to_block: target slot " ++ decimal targetSlot ++ " > head " ++ decimal node.chain.headSlot ++
      " (use process_full_block_… for forward)"), node)
  else
    let preSlot := satSub targetSlot 1
    match wsSlot.filter fun checkpoint => targetSlot ≤ checkpoint with
    | some checkpoint =>
      (.error ("reorg_to_block: target slot " ++ decimal targetSlot ++ " ≤ ws checkpoint " ++
        decimal checkpoint ++ " (refusing to reorg past hard finality)"), node)
    | none =>
      match node.state.revertTo rootOf preSlot with
      | .error e => (.error ("reorg state revert failed: " ++ e), node)
      | .ok (_, st) =>
        match node.chain.revert P preSlot with
        | .error e => (.error ("reorg chain revert failed: " ++ e), { node with state := st })
        | .ok (_, chain) =>
          match processBlockOn P pvm aot rootOf chain st target wsSlot with
          | .error e => (.error e, { chain, state := st })
          | .ok processed => (.ok processed, { chain := processed.chain, state := processed.state })

/-- Everything a reorganisation can do: fail at once, fail between the two reverts, or end as the block's
own processing does. -/
theorem reorgToBlock_cases (P : Prims) (pvm : Pvm) (aot : Nat → Bool)
    (rootOf : StateMap → Hash256) (node : NodeState) (target : Block) (wsSlot : Option U64) :
    (∃ e, reorgToBlock P pvm aot rootOf node target wsSlot = (.error e, node)) ∨
    ∃ count st, node.state.revertTo rootOf (satSub target.header.slot 1) = .ok (count, st) ∧
      target.header.slot ≤ node.chain.headSlot ∧
      ((∃ e reason, node.chain.revert P (satSub target.header.slot 1) = .error reason ∧
          reorgToBlock P pvm aot rootOf node target wsSlot = (.error e, ⟨node.chain, st⟩)) ∨
        ∃ dropped chain, node.chain.revert P (satSub target.header.slot 1) = .ok (dropped, chain) ∧
          reorgToBlock P pvm aot rootOf node target wsSlot =
            match processBlockOn P pvm aot rootOf chain st target wsSlot with
            | .error e => (.error e, ⟨chain, st⟩)
            | .ok processed => (.ok processed, ⟨processed.chain, processed.state⟩)) := by
  unfold reorgToBlock
  dsimp only
  split
  next => exact .inl ⟨_, rfl⟩
  rename_i hhead
  split
  next => exact .inl ⟨_, rfl⟩
  split
  next => exact .inl ⟨_, rfl⟩
  next count st hstate =>
    refine .inr ⟨count, st, hstate, BitVec.not_lt.mp hhead, ?_⟩
    split
    next e hchain => exact .inl ⟨_, e, hchain, rfl⟩
    next dropped chain hchain => exact .inr ⟨dropped, chain, hchain, rfl⟩

/-! ### What a later step can see of the layers -/

/-- What the layers come to for whatever follows: what is read, the tree, the root, and the deferred
writes. -/
structure StateCore where
  get : StateMap
  smt : StateMap
  root : Hash256
  pendingWrites : List (Hash256 × Bytes)

namespace Layers

def core (st : Layers) : StateCore where
  get := st.get
  smt := st.smt
  root := st.root
  pendingWrites := st.pendingWrites

/-- A deferred write, without the cache. -/
def deferredCore : Backend StateCore Hash256 Bytes where
  get c := c.get
  put c key value :=
    { c with
      get := StateProgram.insert stored c.get key value
      pendingWrites := c.pendingWrites ++ [(key, value)] }

/-- A direct write, without the cache. -/
def directCore (rootOf : StateMap → Hash256) : Backend StateCore Hash256 Bytes where
  get c := c.get
  put c key value :=
    { c with
      get := StateProgram.insert stored c.get key value
      smt := updateAll [(key, value)] c.smt
      root := rootOf (updateAll [(key, value)] c.smt) }

theorem core_eq {st st' : Layers} :
    st.core = st'.core ↔ st.get = st'.get ∧ st.smt = st'.smt ∧ st.root = st'.root ∧
      st.pendingWrites = st'.pendingWrites :=
  Iff.of_eq (StateCore.mk.injEq ..)

theorem deferred_simulates_core : Simulates core deferredBackend deferredCore where
  get _ _ := rfl
  put st key value := by
    apply congrArg (fun get => StateCore.mk get st.smt st.root (st.pendingWrites ++ [(key, value)]))
    exact get_deferredInsert st key value

theorem direct_simulates_core (rootOf : StateMap → Hash256) :
    Simulates core (directBackend rootOf) (directCore rootOf) where
  get _ _ := rfl
  put st key value := by
    apply congrArg (fun get => StateCore.mk get (updateAll [(key, value)] st.smt)
      (rootOf (updateAll [(key, value)] st.smt)) st.pendingWrites)
    exact get_insert rootOf st key value

end Layers

section

variable {P : Prims} {pvm : Pvm} {aot : Nat → Bool} {rootOf : StateMap → Hash256}
  {st st' : Layers} (h : st.core = st'.core)

include h

theorem core_runDeferred {α : Type} (program : StateProg α) :
    (runDeferred P program st).2.core = (runDeferred P program st').2.core := by
  have hone := runOn_simulates Layers.deferred_simulates_core (StateKey.hash P) program st
  have htwo := runOn_simulates Layers.deferred_simulates_core (StateKey.hash P) program st'
  rw [hone.2, htwo.2, h]

theorem core_runDirect {α : Type} (program : StateProg α) :
    (runDirect P rootOf program st).2.core = (runDirect P rootOf program st').2.core := by
  have hone := runOn_simulates (Layers.direct_simulates_core rootOf) (StateKey.hash P) program st
  have htwo := runOn_simulates (Layers.direct_simulates_core rootOf) (StateKey.hash P) program st'
  rw [hone.2, htwo.2, h]

theorem core_deferWrites (entries : List (Hash256 × Bytes)) :
    (deferWrites st entries).core = (deferWrites st' entries).core := by
  obtain ⟨hget, hsmt, hroot, hpending⟩ := Layers.core_eq.mp h
  rw [Layers.core_eq, get_deferWrites, get_deferWrites, hget]
  unfold deferWrites
  split
  · exact ⟨rfl, hsmt, hroot, hpending⟩
  · exact ⟨rfl, hsmt, hroot, congrArg (· ++ entries) hpending⟩

variable (pvm aot)

theorem groupRun_congr (txs : List Transaction) (ctx : BlockContext) (order : List Nat) :
    groupRun P pvm aot txs ctx st order = groupRun P pvm aot txs ctx st' order := by
  obtain ⟨hget, -, hroot, -⟩ := Layers.core_eq.mp h
  unfold groupRun
  rw [hget, hroot]

theorem core_executeBlockOn (txs : List Transaction) (ctx : BlockContext) (groups : List ExecutionGroup) :
    (executeBlockOn P pvm aot txs ctx st groups).1 = (executeBlockOn P pvm aot txs ctx st' groups).1 ∧
      (executeBlockOn P pvm aot txs ctx st groups).2.core =
        (executeBlockOn P pvm aot txs ctx st' groups).2.core := by
  unfold executeBlockOn
  split
  · unfold executeInOrderOn
    rw [groupRun_congr pvm aot h]
    exact ⟨rfl, core_deferWrites h _⟩
  unfold executeGroupsOn
  simp only [groupRun_congr pvm aot h, true_and]
  exact core_deferWrites h _

theorem core_settleBlockOn (slot : U64) (proposer : Address) (receipts : List Receipt) :
    (settleBlockOn P rootOf slot proposer receipts st).core =
      (settleBlockOn P rootOf slot proposer receipts st').core := by
  have hcredited := core_runDeferred h (P := P) (applyBlockFees P proposer receipts)
  have hminted : (mintRewardOn P rootOf slot proposer
      (runDeferred P (applyBlockFees P proposer receipts) st).2).core = (mintRewardOn P rootOf slot proposer
          (runDeferred P (applyBlockFees P proposer receipts) st').2).core := by
    unfold mintRewardOn
    dsimp only
    split
    · exact core_runDeferred (core_runDirect hcredited _) _
    · exact hcredited
  exact core_runDeferred (core_runDeferred hminted _) _

end

/-- The part of the chain head that a block is processed against. -/
def ChainState.SameParent (chain chain' : ChainState) : Prop :=
  chain.headSlot = chain'.headSlot ∧ chain.baseFee = chain'.baseFee ∧ chain.chainId = chain'.chainId

def ChainState.SameHead (chain chain' : ChainState) : Prop :=
  chain.headSlot = chain'.headSlot ∧ chain.baseFee = chain'.baseFee ∧ chain.stateRoot = chain'.stateRoot

section

variable {P : Prims} {pvm : Pvm} {aot : Nat → Bool} {rootOf : StateMap → Hash256}
  {st st' : Layers} {chain chain' : ChainState}

theorem blockContext_congr (hparent : chain.SameParent chain') (store : StateMap) (block : Block) :
    blockContext P chain store block = blockContext P chain' store block := by
  obtain ⟨hhead, hfee, hid⟩ := hparent
  unfold blockContext catchUpBaseFee
  rw [hhead, hfee, hid]

theorem applyBlockOn_congr (hparent : chain.SameParent chain') (hcore : st.core = st'.core) (block : Block) :
    (applyBlockOn P pvm aot rootOf chain st block).chain.SameHead
        (applyBlockOn P pvm aot rootOf chain' st' block).chain ∧
      (applyBlockOn P pvm aot rootOf chain st block).state.core =
        (applyBlockOn P pvm aot rootOf chain' st' block).state.core := by
  obtain ⟨hget, -, -, -⟩ := Layers.core_eq.mp hcore
  obtain ⟨hreceipts, hexecuted⟩ := core_executeBlockOn (P := P) pvm aot hcore
    block.body.transactions (blockContext P chain st.get block) block.body.executionSchedule.groups
  unfold applyBlockOn
  rw [← blockContext_congr hparent, ← hget]
  dsimp only
  rw [← hreceipts]
  exact ⟨⟨rfl, rfl, rfl⟩, core_settleBlockOn hexecuted _ _ _⟩

variable (pvm aot rootOf)

/-- A block above the head of either chain is refused by both or by neither. -/
theorem processBlockOn_congr (hparent : chain.SameParent chain') (hcore : st.core = st'.core)
    {block : Block} (hahead : chain.headSlot < block.header.slot) (wsSlot : Option U64) :
    (∀ e, processBlockOn P pvm aot rootOf chain st block wsSlot = .error e →
      processBlockOn P pvm aot rootOf chain' st' block wsSlot = .error e) ∧
    ∀ processed, processBlockOn P pvm aot rootOf chain st block wsSlot = .ok processed →
      ∃ processed', processBlockOn P pvm aot rootOf chain' st' block wsSlot = .ok processed' ∧
        processed.chain.SameHead processed'.chain ∧ processed.state.core = processed'.state.core := by
  have hbelow : ¬ block.header.slot ≤ chain.headSlot := BitVec.not_le.mpr hahead
  have hheader : validateHeaderWithCheckpoint block.header chain wsSlot =
      validateHeaderWithCheckpoint block.header chain' wsSlot := by
    unfold validateHeaderWithCheckpoint
    rw [hparent.1] at hbelow
    simp only [hparent.1, hbelow, and_false]
  obtain ⟨hget, -, -, -⟩ := Layers.core_eq.mp hcore
  unfold processBlockOn
  rw [hheader, hget, hparent.2.2]
  cases validateHeaderWithCheckpoint block.header chain' wsSlot with
  | error e => exact ⟨fun _ h => h, by rintro _ ⟨⟩⟩
  | ok _ =>
    cases validateBlockBody P block st'.get chain'.chainId with
    | error e => exact ⟨fun _ h => h, by rintro _ ⟨⟩⟩
    | ok _ =>
      constructor
      · rintro _ ⟨⟩
      · intro processed h
        cases h
        exact ⟨_, rfl, applyBlockOn_congr hparent hcore block⟩

end

/-! ### Compared with the common prefix -/

/-- Two settled states that read the same are the same to whatever follows. -/
theorem Layers.Settled.core_eq {rootOf : StateMap → Hash256} {st st' : Layers}
    (h : st.Settled rootOf) (h' : st'.Settled rootOf) (hget : st.get = st'.get) :
    st.core = st'.core := by
  refine Layers.core_eq.mpr ⟨hget, ?_, ?_, ?_⟩
  · rw [h.tree, h'.tree, hget]
  · rw [h.root, h'.root, hget]
  · rw [h.nothingPending, h'.nothingPending]

section

variable (P : Prims) (pvm : Pvm) (T : Threshold) (rootOf : StateMap → Hash256)

theorem chainId_runEvents (events : List NodeEvent) (node : NodeState) :
    (runEvents P pvm T rootOf events node).chain.chainId = node.chain.chainId := by
  induction events generalizing node with
  | nil => rfl
  | cons event events ih =>
    refine (ih _).trans ?_
    cases event with
    | process aot wsSlot block =>
      cases hprocess : processBlockOn P pvm aot rootOf node.chain node.state block wsSlot with
      | error e => simp only [NodeEvent.apply, hprocess]
      | ok processed =>
        obtain ⟨-, -, rfl⟩ := processBlockOn_ok P pvm aot rootOf node.state hprocess
        simp only [NodeEvent.apply, hprocess]
        rfl
    | decrypt call => rfl
    | commit => rfl

/-- `base` is the node at the end of a slot and `events` is what it went through above it. At both ends cache and tree
agree; the records of the events are held; fees were credited to accounts filed under their own address. -/
structure ForksAt (base : NodeState) (events : List NodeEvent) : Prop where
  settled : base.state.Settled rootOf
  noEmpty : NoEmpty base.state.get
  logs : ∀ log ∈ base.state.blockUndoLogs, log.1 ≤ base.chain.headSlot
  above : ∀ event ∈ events, event.Above base.chain.headSlot
  records : (events.map NodeEvent.records).sum ≤ maxUndoDepth
  filed : FiledRun P pvm T rootOf events base
  settledAgain : (runEvents P pvm T rootOf events base).state.Settled rootOf

variable {P pvm T rootOf} {base : NodeState} {events : List NodeEvent}

/-- The state revert of a reorganisation leads back to the fork. -/
theorem ForksAt.core_revertTo (h : ForksAt P pvm T rootOf base events) {count : Nat} {st : Layers}
    (hrevert : (runEvents P pvm T rootOf events base).state.revertTo rootOf base.chain.headSlot =
      .ok (count, st)) :
    st.core = base.state.core := by
  have hstart : base.state.Revertible base.chain.headSlot base.state.get
      (0 + (events.map NodeEvent.records).sum) :=
    (h.settled.revertible h.noEmpty h.logs).mono (by have := h.records; omega)
  obtain ⟨hget, hkept⟩ := (hstart.runEvents h.above h.filed).get_revertTo hrevert
  exact (hkept h.settledAgain).core_eq h.settled hget

variable (aot : Nat → Bool) (target : Block) (wsSlot : Option U64)

/-- Replacing the block after the fork, at the base fee of the fork. A success is what processing the block at the
fork gives; an error leaves everything as it was, or the node at the fork, where the block is refused too. -/
theorem reorg_from_prefix (hfork : ForksAt P pvm T rootOf base events)
    (hslot : base.chain.headSlot < target.header.slot) (hnext : satSub target.header.slot 1 = base.chain.headSlot)
    (hknown : (runEvents P pvm T rootOf events base).chain.CanRevert base.chain.headSlot)
    (hfee : (runEvents P pvm T rootOf events base).chain.baseFee = base.chain.baseFee) :
    (∀ processed node, reorgToBlock P pvm aot rootOf (runEvents P pvm T rootOf events base) target
        wsSlot = (.ok processed, node) →
      ∃ fresh, processBlockOn P pvm aot rootOf base.chain base.state target wsSlot = .ok fresh ∧
        node.chain.SameHead fresh.chain ∧ node.state.core = fresh.state.core) ∧
    ∀ e node, reorgToBlock P pvm aot rootOf (runEvents P pvm T rootOf events base) target
        wsSlot = (.error e, node) → node = runEvents P pvm T rootOf events base ∨
        processBlockOn P pvm aot rootOf base.chain base.state target wsSlot = .error e ∧
          node.chain.headSlot = base.chain.headSlot ∧ node.chain.baseFee = base.chain.baseFee ∧
          (node.chain.headers = (runEvents P pvm T rootOf events base).chain.headers.filter
            fun entry => ¬ base.chain.headSlot < entry.1) ∧ node.state.core = base.state.core := by
  obtain ⟨e, herror⟩ | ⟨count, st, hstate, hhead, hrest⟩ := reorgToBlock_cases P pvm aot rootOf
    (runEvents P pvm T rootOf events base) target wsSlot
  · rw [herror]
    refine ⟨nofun, fun _ _ h => Or.inl ?_⟩
    exact (Prod.mk.inj h).2.symm
  rw [hnext] at hstate hrest
  have hcore := hfork.core_revertTo hstate
  have hbelow : base.chain.headSlot < (runEvents P pvm T rootOf events base).chain.headSlot :=
    BitVec.lt_def.mpr (Nat.lt_of_lt_of_le (BitVec.lt_def.mp hslot) (BitVec.le_def.mp hhead))
  obtain ⟨e, reason, hrefused, -⟩ | ⟨dropped, chain, hchain, houtcome⟩ := hrest
  · -- the head at the fork is known
    obtain ⟨_, _, hok⟩ := ChainState.exists_revert P (BitVec.le_of_lt hbelow) hknown
    rw [hok] at hrefused
    cases hrefused
  obtain ⟨hheadSlot, hkeepsFee, hkeepsId, hheaders⟩ := ChainState.revert_ok hchain
  have hparent : chain.SameParent base.chain :=
    ⟨hheadSlot, hkeepsFee.trans hfee, hkeepsId.trans (chainId_runEvents P pvm T rootOf events base)⟩
  rw [← hheadSlot] at hslot
  obtain ⟨hrefuse, haccept⟩ := processBlockOn_congr (P := P) pvm aot rootOf hparent hcore hslot
    wsSlot
  rw [houtcome]
  cases hprocess : processBlockOn P pvm aot rootOf chain st target wsSlot with
  | error e =>
    refine ⟨nofun, fun _ _ h => Or.inr ?_⟩
    cases h
    exact ⟨hrefuse e hprocess, hheadSlot, hparent.2.1, hheaders (BitVec.ne_of_lt hbelow), hcore⟩
  | ok processed =>
    refine ⟨fun _ _ h => ?_, nofun⟩
    cases h
    exact haccept processed hprocess

end

/-! ### Two blocks of one slot -/

/-- The development chain with the base fee at its lower bound, where a small block leaves it. -/
def flooredNode : NodeState := { fundedNode with chain := { fundedNode.chain with baseFee := minBaseFee } }

def emptyBlock : Block := blockOf lucid [] []

/-- That block with a transaction root that is not its own. -/
def tamperedBlock : Block := { emptyBlock with header := { emptyBlock.header with txRoot := fill32 7 } }

/-- The transfer of slot 1 is processed and committed. -/
def committedTransfer (node : NodeState) : NodeState :=
  runEvents lucid idlePvm openThreshold recipientRoot [transferEvent, .commit] node

theorem forksAt_transfer :
    ForksAt lucid idlePvm openThreshold recipientRoot flooredNode [transferEvent, .commit] where
  settled := Layers.settled_opened recipientRoot _
  noEmpty := by
    have hempty : NoEmpty fun _ => none := nofun
    exact hempty.insert (balanceKey lucid (fill32 1)) (fundedAccount 1 .none).toBytes
  logs := nofun
  above := by
    refine List.forall_mem_cons.mpr ⟨?_, List.forall_mem_singleton.mpr trivial⟩
    change (0 : U64) < 1
    decide
  records := by decide
  filed := by
    refine ⟨⟨?_, ?_⟩, trivial, trivial⟩
    · decide +kernel
    · decide +kernel
  settledAgain := by
    unfold transferEvent
    apply settled_block_commit (Layers.coherent_opened recipientRoot _)
    · decide +kernel
    · exact fun hpaid => hpaid.2 rfl
    · decide +kernel

theorem exists_snd_of_fst {α β : Type} {outcome : α × β} {answer : α} (h : outcome.1 = answer) :
    ∃ rest, outcome = (answer, rest) := ⟨outcome.2, Prod.ext h rfl⟩

/-- The transfer is replaced by the empty block. -/
theorem reorg_from_prefix_transfer :
    ∃ processed node fresh, reorgToBlock lucid idlePvm (fun _ => false) recipientRoot
        (committedTransfer flooredNode) emptyBlock none = (.ok processed, node) ∧
      processBlockOn lucid idlePvm (fun _ => false) recipientRoot flooredNode.chain flooredNode.state
        emptyBlock none = .ok fresh ∧ node.chain.SameHead fresh.chain ∧ node.state.core = fresh.state.core := by
  have hfee : (committedTransfer flooredNode).chain.baseFee = flooredNode.chain.baseFee := by decide +kernel
  have hok : (reorgToBlock lucid idlePvm (fun _ => false) recipientRoot
      (committedTransfer flooredNode) emptyBlock none).1.toOption.isSome = true := by decide +kernel
  obtain ⟨processed, hprocessed⟩ := exists_ok_of_isSome hok
  unfold committedTransfer at hfee hprocessed ⊢
  have hreorg := reorg_from_prefix (fun _ => false) emptyBlock none forksAt_transfer (by decide) (by decide)
    (.inr (.inl rfl)) hfee
  obtain ⟨node, houtcome⟩ := exists_snd_of_fst hprocessed
  obtain ⟨fresh, hfresh⟩ := hreorg.1 processed node houtcome
  exact ⟨processed, node, fresh, houtcome, hfresh⟩

/-- A refused block leaves the head and the transfer reverted. An accepted one is processed with the base
fee of the head that was dropped. -/
theorem reorg_not_atomic :
    (((reorgToBlock lucid idlePvm (fun _ => false) recipientRoot (committedTransfer fundedNode)
        tamperedBlock none).1.toOption.isSome, (committedTransfer fundedNode).chain.headSlot,
      (committedTransfer fundedNode).state.get recipientKey == none,
      (reorgToBlock lucid idlePvm (fun _ => false) recipientRoot (committedTransfer fundedNode)
        tamperedBlock none).2.chain.headSlot,
      (reorgToBlock lucid idlePvm (fun _ => false) recipientRoot (committedTransfer fundedNode)
        tamperedBlock none).2.state.get recipientKey == none) = (false, 1, false, 0, true)) ∧
    (reorgToBlock lucid idlePvm (fun _ => false) recipientRoot (committedTransfer fundedNode)
        emptyBlock none).1.toOption.map (fun processed => processed.chain.baseFee) ≠
      (processBlockOn lucid idlePvm (fun _ => false) recipientRoot fundedNode.chain fundedNode.state
        emptyBlock none).toOption.map (fun processed => processed.chain.baseFee) ∧
    (reorgToBlock lucid idlePvm (fun _ => false) recipientRoot (committedTransfer fundedNode)
        emptyBlock none).1.toOption.isSome = true := by
  decide +kernel

/-! ### Which header is stored where -/

namespace ChainState

variable {P : Prims}

theorem kept_by_prune (slot : U64) : slot / epochLength < 2 ∨ (slot / epochLength - 1) * epochLength ≤ slot := by
  rw [or_iff_not_imp_left]
  intro hlate
  rw [BitVec.not_lt, BitVec.le_def] at hlate
  have hepoch : (slot / epochLength).toNat = slot.toNat / 1000 := rfl
  have htwo : (2 : U64).toNat = 2 := rfl
  have hslot := slot.isLt
  rw [hepoch, htwo] at hlate
  have hpred : (slot / epochLength - 1).toNat = slot.toNat / 1000 - 1 := by
    rw [BitVec.toNat_sub_of_le (by rw [BitVec.le_def, hepoch]; change 1 ≤ _; omega), hepoch]
    rfl
  rw [BitVec.le_def, BitVec.toNat_mul, hpred]
  change (slot.toNat / 1000 - 1) * 1000 % 2 ^ 64 ≤ slot.toNat
  omega

theorem header_advance_self (chain : ChainState) (header : BlockHeader) :
    (chain.advance P header).header header.slot = some header := by
  have hkept := kept_by_prune header.slot
  unfold ChainState.header advance mapInsert
  dsimp only
  rw [List.filter_cons_of_pos (by simpa using hkept), List.find?_cons_of_pos (by simp)]
  rfl

end ChainState

section

variable {P : Prims} {pvm : Pvm} {aot : Nat → Bool} {rootOf : StateMap → Hash256}

end

end Pyde
