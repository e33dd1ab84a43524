/-
Module: Pyde.Node.BlockSync
Purpose: Blocks that arrive in answers to sync requests.
Trusted boundary: Prims, Pvm, the root of the tree
-/
import Pyde.Node.WireSurvival
import Pyde.Node.Reorg
import Pyde.Node.SignatureGate

namespace Pyde

open ByteCodec List

/-! ### Full blocks -/

section

variable (P : Prims) (pvm : Pvm) (rootOf : StateMap → Hash256)

/-- What the sync path does with a block that it could decode. There is no native code on it. -/
def syncFullBlock (chain : ChainState) (st : Layers) (block : Block) (wsSlot : Option U64) :
    Except String ProcessedLayers := do
  validateSyncedBlockBody P block st.get chain.chainId
  processBlockOn P pvm (fun _ => false) rootOf chain st block wsSlot

/-- A transaction is signed, under the key that its sender has before the block if there is one. -/
def SignedBefore (st : StateMap) (tx : Transaction) : Prop :=
  tx.signature ≠ [] ∧ ∀ pk, registeredKey P st tx.fromAddress = some pk →
    tx.verifySignature P pk = true

end

section

variable {P : Prims} {pvm : Pvm} {aot : Nat → Bool} {rootOf : StateMap → Hash256}

theorem verifySyncedSignatures_ok {st : StateMap} {i : Nat} {txs : List Transaction} :
    verifySyncedSignatures P st i txs = .ok () ↔ ∀ tx ∈ txs, SignedBefore P st tx := by
  induction txs generalizing i with
  | nil => simp [verifySyncedSignatures]
  | cons tx txs ih =>
    rw [verifySyncedSignatures, forall_mem_cons, ← @ih (i + 1)]
    by_cases hsigned : tx.signature = []
    · simp [SignedBefore, hsigned]
    rw [if_neg hsigned]
    cases hkey : registeredKey P st tx.fromAddress with
    | none => simp [SignedBefore, hsigned, hkey]
    | some pk =>
      by_cases hverify : tx.verifySignature P pk = true
      · simp [SignedBefore, hsigned, hkey, hverify]
      · simp [SignedBefore, hsigned, hkey, hverify]

/-- The sync path makes the checks of the gossip path and looks at the signatures besides, except on the devnet. -/
theorem validateSyncedBlockBody_ok {block : Block} {st : StateMap} {chainId : U64} :
    validateSyncedBlockBody P block st chainId = .ok () ↔ validateBlockBody P block st chainId = .ok () ∧
        (chainId = devnetChainId ∨ ∀ tx ∈ block.body.transactions, SignedBefore P st tx) := by
  have htransactions : validateTransactions P block.body.transactions st chainId true = .ok () ↔
      validateTransactions P block.body.transactions st chainId false = .ok () ∧
        (chainId = devnetChainId ∨ ∀ tx ∈ block.body.transactions, SignedBefore P st tx) := by
    by_cases hdevnet : chainId = devnetChainId
    · simp [validateTransactions, checks_ok, hdevnet]
    · simp [validateTransactions, checks_ok, hdevnet, verifySyncedSignatures_ok, and_assoc, pure, Except.pure]
  have hlast : (if block.body.transactions = [] ∧ block.body.encryptedTxs = [] then pure ()
        else validateTransactions P block.body.transactions st chainId true) = .ok () ↔
      (if block.body.transactions = [] ∧ block.body.encryptedTxs = [] then pure ()
        else validateTransactions P block.body.transactions st chainId false) = .ok () ∧
        (chainId = devnetChainId ∨ ∀ tx ∈ block.body.transactions, SignedBefore P st tx) := by
    by_cases hempty : block.body.transactions = [] ∧ block.body.encryptedTxs = []
    · simp [hempty]
    · rw [if_neg hempty, if_neg hempty, htransactions]
  unfold validateSyncedBlockBody validateBlockBody validateBlockBodyInner
  simp only [checks_ok, and_assoc, hlast]

/-- Native code enters a transaction only where the machine is called. -/
theorem executeTransaction_native {aot native' : Bool} (h : pvm aot = pvm native') (tx : Transaction)
    (ctx : BlockContext) (stateRoot : Hash256) :
    executeTransaction P pvm aot tx ctx stateRoot = executeTransaction P pvm native' tx ctx stateRoot := by
  unfold executeTransaction perform runHandler dispatch executeCall executeInPvm
  rw [h]

theorem applyBlockOn_native {aot native' : Nat → Bool} (h : ∀ i, pvm (aot i) = pvm (native' i))
    (chain : ChainState) (st : Layers) (block : Block) :
    applyBlockOn P pvm aot rootOf chain st block = applyBlockOn P pvm native' rootOf chain st block := by
  have hprogram : blockProgram P pvm aot = blockProgram P pvm native' := by
    funext txs ctx stateRoot i
    unfold blockProgram
    cases txs[i]? with
    | none => rfl
    | some tx =>
      dsimp only
      rw [executeTransaction_native (h i)]
  unfold applyBlockOn executeBlockOn executeInOrderOn executeGroupsOn groupRun
  rw [hprogram]

/-- The sync path accepts a block that the gossip path applies exactly if every transaction in it is signed under the
key its sender has before the block, or on the devnet. It then ends where the gossip path did, if native code does
what the interpreter does. -/
theorem canonical_block_syncs_iff {chain : ChainState} {st : Layers} {block : Block}
    {wsSlot : Option U64} {processed : ProcessedLayers}
    (hgossip : processBlockOn P pvm aot rootOf chain st block wsSlot = .ok processed) :
    (validateSyncedBlockBody P block st.get chain.chainId = .ok () ↔
      chain.chainId = devnetChainId ∨ ∀ tx ∈ block.body.transactions, SignedBefore P st.get tx) ∧
    ((∀ i, pvm (aot i) = pvm false) →
      (syncFullBlock P pvm rootOf chain st block wsSlot = .ok processed ↔
        chain.chainId = devnetChainId ∨ ∀ tx ∈ block.body.transactions, SignedBefore P st.get tx)) := by
  obtain ⟨hheader, hbody, rfl⟩ := processBlockOn_ok _ _ _ _ _ hgossip
  have haccepts : validateSyncedBlockBody P block st.get chain.chainId = .ok () ↔
      chain.chainId = devnetChainId ∨ ∀ tx ∈ block.body.transactions, SignedBefore P st.get tx := by
    rw [validateSyncedBlockBody_ok, and_iff_right hbody]
  refine ⟨haccepts, fun hagree => ?_⟩
  have hprocess : processBlockOn P pvm (fun _ => false) rootOf chain st block wsSlot =
      .ok (applyBlockOn P pvm aot rootOf chain st block) := by
    rw [applyBlockOn_native hagree, processBlockOn, checks_ok, checks_ok]
    exact ⟨hheader, hbody, rfl⟩
  rw [syncFullBlock, checks_ok, and_iff_left hprocess, haccepts]

end

/-- The layers over the given state, nothing cached. -/
def layersOf (manager : StateManager) : Layers := Layers.opened (fun _ => manager.root) manager.store

/-- A registration, which has to come without a signature. -/
def registrationBlock : Block :=
  blockOf lucid
    [{ transferOf 1 1 0 with
        fromAddress := freshAddress, toAddress := zeroAddress, value := 0, gasLimit := 0
        data := lucidKey 7, txType := .registerPubkey }] [[0]]

/-- A transfer under a signature of one byte. -/
def misSignedBlock : Block := blockOf lucid [{ transferOf 1 1 0 with signature := [1] }] [[0]]

/-- The success flags of the receipts with which chain 1 applies a block at genesis. -/
def gossipReceipts (manager : StateManager) (block : Block) : Except String (List Bool) :=
  (processBlockOn lucid idlePvm (fun _ => false) (fun _ => zero32) (ChainState.genesis zero32 1)
    (layersOf manager) block none).map fun processed => processed.receipts.map Receipt.success

/-- The gossip path applies a registration, and a block with a transaction that fails validation; the sync path
refuses both. -/
theorem canonical_blocks_refused_by_sync :
    gossipReceipts freshManager registrationBlock = .ok [true] ∧
    validateSyncedBlockBody lucid registrationBlock (layersOf freshManager).get 1 =
      .error "tx 0 has empty signature" ∧ gossipReceipts keyedManager misSignedBlock = .ok [false] ∧
    validateSyncedBlockBody lucid misSignedBlock (layersOf keyedManager).get 1 =
      .error "tx 0 has invalid signature" := by
  decide +kernel

/-- A block with one signed transfer reaches the same state on both paths. -/
theorem signed_block_syncs :
    syncFullBlock lucid idlePvm (fun _ => zero32) (ChainState.genesis zero32 1) (layersOf keyedManager)
      signedBlock none = .ok (applyBlockOn lucid idlePvm (fun _ => true) (fun _ => zero32)
        (ChainState.genesis zero32 1) (layersOf keyedManager) signedBlock) := by
  have hgossip : processBlockOn lucid idlePvm (fun _ => true) (fun _ => zero32) (ChainState.genesis zero32 1)
      (layersOf keyedManager) signedBlock none = .ok (applyBlockOn lucid idlePvm (fun _ => true)
        (fun _ => zero32) (ChainState.genesis zero32 1) (layersOf keyedManager) signedBlock) := by
    rw [processBlockOn, checks_ok, checks_ok]
    exact ⟨by decide +kernel, by decide +kernel, rfl⟩
  refine ((canonical_block_syncs_iff hgossip).2 fun _ => rfl).mpr (.inr ?_)
  refine List.forall_mem_singleton.mpr ⟨by decide, fun pk hkey => ?_⟩
  have hregistered : registeredKey lucid (layersOf keyedManager).get signedTransfer.fromAddress =
      some (lucidKey 7) := by decide +kernel
  cases Option.some.inj (hregistered.symm.trans hkey)
  decide +kernel

/-! ### Answers to sync requests -/

/-- What a batch of blocks leaves behind: the node, and the values that `on_response` returns. The blocks written to
the block store and the tip that the request scheduler notes are not read on this path. -/
structure SyncBatch where
  node : NodeState
  processed : Nat
  receiptsBatch : List (U64 × List Receipt)
  encryptedBlocks : List Block

def SyncBatch.start (node : NodeState) : SyncBatch where
  node := node
  processed := 0
  receiptsBatch := []
  encryptedBlocks := []

section

variable (P : Prims) (pvm : Pvm) (rootOf : StateMap → Hash256) (wsSlot : Option U64)

/-- `process_block_with_checkpoint`: a header without its block moves the head and the base fee. -/
def processHeader (chain : ChainState) (header : BlockHeader) : Except String ChainState := do
  validateHeaderWithCheckpoint header chain wsSlot
  let slotsToAdvance := satSub header.slot chain.headSlot
  let baseFee := (fun baseFee => adjustBaseFee baseFee 0 gasTarget)^[slotsToAdvance.toNat] chain.baseFee
  pure ({ chain with baseFee }.advance P header)

/-- One turn of the loop over the received blocks; `none` leaves the loop. -/
def syncEntry (batch : SyncBatch) (data : Bytes) : Option SyncBatch :=
  match decodeBlock data with
  | .ok signed =>
    match syncFullBlock P pvm rootOf batch.node.chain batch.node.state signed.block wsSlot with
    | .ok res =>
      some {
        node := ⟨res.chain, res.state⟩
        processed := batch.processed + 1
        receiptsBatch :=
          if res.receipts = [] then batch.receiptsBatch
          else batch.receiptsBatch ++ [(signed.block.header.slot, res.receipts)]
        encryptedBlocks :=
          if signed.block.body.encryptedTxs = [] then batch.encryptedBlocks
          else batch.encryptedBlocks ++ [signed.block] }
    | .error _ => none
  | .error _ =>
    -- the fallback "for backwards compat"
    match decodeBlockHeader data with
    | .ok header =>
      match processHeader P wsSlot batch.node.chain header with
      | .ok chain => some { batch with node := ⟨chain, batch.node.state⟩, processed := batch.processed + 1 }
      | .error _ => none
    | .error _ => none

/-- The loop over the received blocks. -/
def syncEntries : SyncBatch → List Bytes → SyncBatch
  | batch, [] => batch
  | batch, data :: blockData =>
    match syncEntry P pvm rootOf wsSlot batch data with
    | some next => syncEntries next blockData
    | none => batch

/-- The `Blocks` arm of `on_response`. -/
def onBlocks (node : NodeState) (blockData : List Bytes) : SyncBatch :=
  syncEntries P pvm rootOf wsSlot (.start node) blockData

end

/-- A response, with the checkpoint that is in force when it arrives. -/
structure BlocksResponse where
  wsCheckpointSlot : Option U64
  blockData : List Bytes

structure HeadStep where
  before : NodeState
  after : NodeState

/-- The header of the head, once there is one. -/
def ChainState.headHeader (chain : ChainState) : Option BlockHeader := chain.header chain.headSlot

section

variable (P : Prims) (pvm : Pvm) (rootOf : StateMap → Hash256)

/-- The moves of the head within one response. -/
def entrySteps (wsSlot : Option U64) : SyncBatch → List Bytes → List HeadStep
  | _, [] => []
  | batch, data :: blockData =>
    match syncEntry P pvm rootOf wsSlot batch data with
    | some next => ⟨batch.node, next.node⟩ :: entrySteps wsSlot next blockData
    | none => []

/-- The moves of the head over a sequence of responses. -/
def responseSteps : NodeState → List BlocksResponse → List HeadStep
  | _, [] => []
  | node, response :: responses =>
    entrySteps P pvm rootOf response.wsCheckpointSlot (.start node) response.blockData ++
      responseSteps (onBlocks P pvm rootOf response.wsCheckpointSlot node response.blockData).node responses

/-- The new head names the old one as its parent. -/
def HeadStep.Linked (step : HeadStep) : Prop :=
  ∀ parent header, step.before.chain.headHeader = some parent → step.after.chain.headHeader = some header →
    header.parentHash = parent.hash P

/-- The new head is that of a block whose body it commits to, and which was validated and executed on the state. -/
def HeadStep.Executed (step : HeadStep) : Prop :=
  ∃ block : Block, step.after.chain.headHeader = some block.header ∧
    verifyTxRoot P block.header.txRoot block.body.transactions (block.body.encryptedTxHashes P) = true ∧
    validateSyncedBlockBody P block step.before.state.get step.before.chain.chainId = .ok () ∧
    step.after.chain = (applyBlockOn P pvm (fun _ => false) rootOf step.before.chain step.before.state block).chain ∧
    step.after.state = (applyBlockOn P pvm (fun _ => false) rootOf step.before.chain step.before.state block).state

/-- A received entry is a block on top of the head, or nothing that the node would follow: no block, and no header
with a slot that it accepts. -/
def EntryKept (wsSlot : Option U64) (node : NodeState) (data : Bytes) : Prop :=
  match decodeBlock data with
  | .ok signed => ∀ parent, node.chain.headHeader = some parent → signed.block.header.parentHash = parent.hash P
  | .error _ => ∀ header, decodeBlockHeader data = .ok header →
      validateHeaderWithCheckpoint header node.chain wsSlot ≠ .ok ()

/-- Every entry of a response that is looked at is kept to this, in the state in which it is looked at. -/
def EntriesKept (wsSlot : Option U64) : SyncBatch → List Bytes → Prop
  | _, [] => True
  | batch, data :: blockData =>
    EntryKept P wsSlot batch.node data ∧
      ∀ next, syncEntry P pvm rootOf wsSlot batch data = some next →
        EntriesKept wsSlot next blockData

def ResponsesKept : NodeState → List BlocksResponse → Prop
  | _, [] => True
  | node, response :: responses =>
    EntriesKept P pvm rootOf response.wsCheckpointSlot (.start node) response.blockData ∧
      ResponsesKept (onBlocks P pvm rootOf response.wsCheckpointSlot node response.blockData).node responses

end

section

variable {P : Prims} {pvm : Pvm} {rootOf : StateMap → Hash256} {wsSlot : Option U64}

theorem syncFullBlock_ok {chain : ChainState} {st : Layers} {block : Block} {processed : ProcessedLayers} :
    syncFullBlock P pvm rootOf chain st block wsSlot = .ok processed ↔
      validateSyncedBlockBody P block st.get chain.chainId = .ok () ∧
        validateHeaderWithCheckpoint block.header chain wsSlot = .ok () ∧
        processed = applyBlockOn P pvm (fun _ => false) rootOf chain st block := by
  rw [syncFullBlock, checks_ok]
  refine and_congr_right fun hvalid => ⟨fun h => ?_, ?_⟩
  · obtain ⟨hheader, _, happlied⟩ := processBlockOn_ok _ _ _ _ _ h
    exact ⟨hheader, happlied⟩
  · rintro ⟨hheader, rfl⟩
    rw [processBlockOn, checks_ok, checks_ok]
    exact ⟨hheader, (validateSyncedBlockBody_ok.mp hvalid).1, rfl⟩

variable {batch next : SyncBatch} {data : Bytes}

/-- What one entry does: a block is executed, or a header moves the head alone. -/
theorem syncEntry_cases (h : syncEntry P pvm rootOf wsSlot batch data = some next) :
    (∃ signed, decodeBlock data = .ok signed ∧
      validateSyncedBlockBody P signed.block batch.node.state.get batch.node.chain.chainId = .ok () ∧
        next.node.chain =
        (applyBlockOn P pvm (fun _ => false) rootOf batch.node.chain batch.node.state signed.block).chain ∧
      next.node.state =
        (applyBlockOn P pvm (fun _ => false) rootOf batch.node.chain batch.node.state signed.block).state) ∨
    ∃ e header, decodeBlock data = .error e ∧ decodeBlockHeader data = .ok header ∧
      validateHeaderWithCheckpoint header batch.node.chain wsSlot = .ok () ∧
      next.node.state = batch.node.state := by
  unfold syncEntry at h
  cases hblock : decodeBlock data with
  | ok signed =>
    rw [hblock] at h
    dsimp only at h
    split at h
    next res hresult =>
      obtain ⟨hvalid, _, happlied⟩ := syncFullBlock_ok.mp hresult
      cases h
      exact .inl ⟨signed, rfl, hvalid, by rw [happlied], by rw [happlied]⟩
    next => exact nomatch h
  | error e =>
    rw [hblock] at h
    dsimp only at h
    split at h
    next header hheader =>
      split at h
      next chain hchain =>
        rw [processHeader, checks_ok] at hchain
        cases h
        exact .inr ⟨e, header, rfl, hheader, hchain.1, rfl⟩
      next => exact nomatch h
    next => exact nomatch h

theorem syncEntry_of_block {signed : SignedBlock} {res : ProcessedLayers}
    (hdecoded : decodeBlock data = .ok signed)
    (hresult : syncFullBlock P pvm rootOf batch.node.chain batch.node.state signed.block wsSlot =
      .ok res) :
    ∃ next, syncEntry P pvm rootOf wsSlot batch data = some next ∧
      next.node = ⟨res.chain, res.state⟩ := by
  unfold syncEntry
  rw [hdecoded]
  dsimp only
  rw [hresult]
  exact ⟨_, rfl, rfl⟩

variable (P pvm rootOf) in
theorem syncEntry_of_header {e : String} {header : BlockHeader} (hblock : decodeBlock data = .error e)
    (hheader : decodeBlockHeader data = .ok header)
    (hslot : validateHeaderWithCheckpoint header batch.node.chain wsSlot = .ok ()) :
    ∃ next, syncEntry P pvm rootOf wsSlot batch data = some next ∧
      next.node.state = batch.node.state := by
  unfold syncEntry processHeader
  rw [hblock]
  dsimp only
  rw [hheader]
  dsimp only
  rw [hslot]
  exact ⟨_, rfl, rfl⟩

theorem entrySteps_of_some {blockData : List Bytes}
    (h : syncEntry P pvm rootOf wsSlot batch data = some next) :
    entrySteps P pvm rootOf wsSlot batch (data :: blockData) =
      ⟨batch.node, next.node⟩ :: entrySteps P pvm rootOf wsSlot next blockData := by
  rw [entrySteps, h]

theorem headHeader_advance (chain : ChainState) (header : BlockHeader) :
    (chain.advance P header).headHeader = some header := ChainState.header_advance_self chain header

theorem EntryKept.step (hkept : EntryKept P wsSlot batch.node data)
    (h : syncEntry P pvm rootOf wsSlot batch data = some next) :
    HeadStep.Linked P ⟨batch.node, next.node⟩ ∧ HeadStep.Executed P pvm rootOf ⟨batch.node, next.node⟩ := by
  unfold EntryKept at hkept
  rcases syncEntry_cases h with ⟨signed, hdecoded, hvalid, hchain, hstate⟩ | ⟨e, header, hdecoded,
    hheader, hslot, _⟩
  · rw [hdecoded] at hkept
    have hhead : next.node.chain.headHeader = some signed.block.header := by
      rw [hchain]
      exact headHeader_advance _ _
    constructor
    · intro parent header hparent hafter
      cases Option.some.inj (hhead.symm.trans hafter)
      exact hkept parent hparent
    · obtain ⟨haccepted, _⟩ := validateBlockBody_ok.mp (validateSyncedBlockBody_ok.mp hvalid).1
      have hroot : verifyTxRoot P signed.block.header.txRoot signed.block.body.transactions
          (signed.block.body.encryptedTxHashes P) = true :=
        Bool.of_not_eq_false fun hfalse => haccepted (.inl hfalse)
      exact ⟨signed.block, hhead, hroot, hvalid, hchain, hstate⟩
  · rw [hdecoded] at hkept
    exact absurd hslot (hkept header hheader)

theorem EntriesKept.steps {blockData : List Bytes}
    (hkept : EntriesKept P pvm rootOf wsSlot batch blockData) :
    ∀ step ∈ entrySteps P pvm rootOf wsSlot batch blockData,
      step.Linked P ∧ step.Executed P pvm rootOf := by
  induction blockData generalizing batch with
  | nil => exact nofun
  | cons data blockData ih =>
    obtain ⟨hentry, hrest⟩ := hkept
    rw [entrySteps]
    cases hnext : syncEntry P pvm rootOf wsSlot batch data with
    | none => exact nofun
    | some next => exact List.forall_mem_cons.mpr ⟨hentry.step hnext, ih (hrest next hnext)⟩

end

/-- In every sequence of responses whose entries, when they are looked at, are blocks on top of the current head or
nothing that the node follows, each move of the head is hash-linked and executes the block. -/
theorem synced_heads_linked_and_executed (P : Prims) (pvm : Pvm) (rootOf : StateMap → Hash256)
    (node : NodeState) (responses : List BlocksResponse) (hkept : ResponsesKept P pvm rootOf node responses) :
    ∀ step ∈ responseSteps P pvm rootOf node responses, step.Linked P ∧ step.Executed P pvm rootOf := by
  induction responses generalizing node with
  | nil => exact nofun
  | cons response responses ih =>
    obtain ⟨hfirst, hrest⟩ := hkept
    exact List.forall_mem_append.mpr ⟨hfirst.steps, ih _ hrest⟩

/-! ### Chains that are not what they should be -/

def bareBlock (slot : U64) (parentHash : Hash256) : SignedBlock where
  block := { blockOf lucid [] [] with header := { (blockOf lucid [] []).header with slot, parentHash } }
  proposerSignature := []

theorem decodeBlock_bareBlock (slot : U64) (parentHash : Hash256) :
    decodeBlock (encodeBlock (bareBlock slot parentHash)) = .ok (bareBlock slot parentHash) := by
  have hempty : QuorumCert.empty.Fits := ⟨by decide, nofun⟩
  refine decodeBlock_encode_iff.mpr ⟨BlockHeader.fits_iff.mpr ⟨hempty, ?_⟩, Nat.two_pow_pos 32, Nat.zero_le _, ?_,
    Nat.zero_le _, ?_, Nat.two_pow_pos 16, ?_, rfl⟩
  · exact (show 152 + 4 + 58 < 2 ^ 32 by decide)
  · exact nofun
  · exact nofun
  · exact nofun

theorem validateSyncedBlockBody_bareBlock (slot : U64) (parentHash : Hash256) (st : StateMap) (chainId : U64) :
    validateSyncedBlockBody lucid (bareBlock slot parentHash).block st chainId = .ok () := by
  have hroot : verifyTxRoot lucid (computeTxRoot lucid [] []) [] [] = true := by decide +kernel
  refine validateSyncedBlockBody_ok.mpr ⟨validateBlockBody_ok.mpr ⟨?_, Nat.zero_le _⟩, .inr ?_⟩
  · rintro (hfalse | hmany | hmany | hduplicate)
    · exact absurd (hroot.symm.trans hfalse) (by decide)
    · exact absurd hmany (Nat.not_lt_zero _)
    · exact absurd hmany (Nat.not_lt_zero _)
    · exact hduplicate rfl
  · exact nofun

/-- A header ahead of the head passes, if there is no checkpoint. -/
theorem validateHeader_of_lt {header : BlockHeader} {chain : ChainState} (h : chain.headSlot < header.slot) :
    validateHeaderWithCheckpoint header chain none = .ok () := by
  unfold validateHeaderWithCheckpoint
  exact rejectIf_ok.mpr fun hbehind => BitVec.not_lt.mpr hbehind.2 h

/-- A block without transactions is followed if its slot is ahead, whatever its parent is. -/
theorem syncEntry_bareBlock {slot : U64} (parentHash : Hash256) (hslot : batch.node.chain.headSlot < slot) :
    ∃ next, syncEntry lucid idlePvm (fun _ => zero32) none batch (encodeBlock (bareBlock slot parentHash)) =
        some next ∧ next.node.chain.headSlot = slot ∧
      next.node.chain.headHeader = some (bareBlock slot parentHash).block.header := by
  have hresult : syncFullBlock lucid idlePvm (fun _ => zero32) batch.node.chain batch.node.state
      (bareBlock slot parentHash).block none = .ok _ :=
    syncFullBlock_ok.mpr ⟨validateSyncedBlockBody_bareBlock slot parentHash _ _, validateHeader_of_lt hslot, rfl⟩
  obtain ⟨next, hnext, hnode⟩ := syncEntry_of_block (decodeBlock_bareBlock slot parentHash) hresult
  refine ⟨next, hnext, ?_⟩
  rw [hnode]
  exact ⟨rfl, headHeader_advance _ _⟩

/-- The header of a block with a transfer, without the block. -/
def loneHeader : BlockHeader := { signedBlock.header with slot := 5 }

def genesisNode : NodeState := ⟨ChainState.genesis zero32 1, layersOf keyedManager⟩

theorem syncEntry_first :
    ∃ next, syncEntry lucid idlePvm (fun _ => zero32) none (.start genesisNode)
        (encodeBlock (bareBlock 1 zero32)) = some next ∧ next.node.chain.headSlot = 1 ∧
      next.node.chain.headHeader = some (bareBlock 1 zero32).block.header :=
  syncEntry_bareBlock zero32 (show genesisNode.chain.headSlot < 1 by decide)

theorem HeadStep.Executed.undoLogs {P : Prims} {pvm : Pvm} {rootOf : StateMap → Hash256} {step : HeadStep}
    (h : step.Executed P pvm rootOf) : step.after.state.blockUndoLogs ≠ [] := by
  obtain ⟨block, -, -, -, -, hstate⟩ := h
  rw [hstate]
  exact cons_ne_nil _ _

/-- A header is followed without its block, and a block whose parent is not the head is followed too. -/
theorem unlinked_and_unexecuted_heads :
    (∃ step ∈ responseSteps lucid idlePvm (fun _ =>
      zero32) genesisNode [⟨none, [encodeBlockHeader loneHeader]⟩],
      ¬ step.Executed lucid idlePvm fun _ => zero32) ∧
    ∃ step ∈ responseSteps lucid idlePvm (fun _ => zero32) genesisNode
        [⟨none, [encodeBlock (bareBlock 1 zero32), encodeBlock (bareBlock 2 zero32)]⟩], ¬ step.Linked lucid := by
  constructor
  · have hblock : (decodeBlock (encodeBlockHeader loneHeader)).map (fun _ => ()) = .error "not a block message" := by
      decide +kernel
    have hheader : decodeBlockHeader (encodeBlockHeader loneHeader) = .ok loneHeader := by decide +kernel
    have hslot : genesisNode.chain.headSlot < loneHeader.slot := by decide
    cases hdecoded : decodeBlock (encodeBlockHeader loneHeader) with
    | ok signed =>
      rw [hdecoded] at hblock
      exact nomatch hblock
    | error e =>
      obtain ⟨next, hnext, hstate⟩ := syncEntry_of_header lucid idlePvm (fun _ => zero32) hdecoded hheader
        (show validateHeaderWithCheckpoint loneHeader (SyncBatch.start genesisNode).node.chain none = .ok () from
          validateHeader_of_lt hslot)
      refine ⟨⟨genesisNode, next.node⟩, ?_, fun hexecuted => hexecuted.undoLogs ?_⟩
      · refine mem_append_left _ ?_
        rw [entrySteps_of_some hnext]
        exact mem_cons_self
      · exact congrArg Layers.blockUndoLogs hstate
  · obtain ⟨first, hfirst, hhead, hparent⟩ := syncEntry_first
    have hslot : first.node.chain.headSlot < 2 := by
      rw [hhead]
      decide
    obtain ⟨second, hsecond, _, hheader⟩ := syncEntry_bareBlock zero32 hslot
    refine ⟨⟨first.node, second.node⟩, ?_, ?_⟩
    · refine mem_append_left _ ?_
      rw [entrySteps_of_some hfirst, entrySteps_of_some hsecond]
      exact mem_cons_of_mem _ mem_cons_self
    · intro hlinked
      have hhash : (bareBlock 2 zero32).block.header.parentHash = (bareBlock 1 zero32).block.header.hash lucid :=
        hlinked _ _ hparent hheader
      exact absurd hhash (by decide +kernel)

theorem headHeader_first {first : SyncBatch} (hfirst : syncEntry lucid idlePvm (fun _ => zero32) none
      (.start genesisNode) (encodeBlock (bareBlock 1 zero32)) = some first) :
    first.node.chain.headHeader = some (bareBlock 1 zero32).block.header := by
  obtain ⟨next, hnext, -, hhead⟩ := syncEntry_first
  have hsame : next = first := Option.some.inj (hnext.symm.trans hfirst)
  rw [← hsame, hhead]

/-- Two blocks, the second on top of the first. -/
theorem linked_blocks_sync :
    {step | step ∈ responseSteps lucid idlePvm (fun _ => zero32) genesisNode
        [⟨none, [encodeBlock (bareBlock 1 zero32),
          encodeBlock (bareBlock 2 ((bareBlock 1 zero32).block.header.hash lucid))]⟩]} ⊆
      {step | step.Linked lucid ∧ step.Executed lucid idlePvm fun _ => zero32} := by
  refine Set.ofPred_subset_ofPred.mpr (synced_heads_linked_and_executed _ _ _ _ _
    ⟨⟨?_, fun first hfirst => ⟨?_, fun second _ => trivial⟩⟩, trivial⟩)
  · rw [EntryKept, decodeBlock_bareBlock]
    have hgenesis : genesisNode.chain.headHeader = none := rfl
    intro parent hparent
    exact nomatch hgenesis.symm.trans hparent
  · rw [EntryKept, decodeBlock_bareBlock]
    intro parent hparent
    rw [headHeader_first hfirst] at hparent
    rw [← Option.some.inj hparent]
    rfl

end Pyde
