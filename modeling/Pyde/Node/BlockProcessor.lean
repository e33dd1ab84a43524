/-
Module: Pyde.Node.BlockProcessor
Purpose: Processing a block: header and body validation with the gas ceiling, the batch signature check, execution on
  one overlay or on one overlay per group, and the fees, rewards and counters settled afterwards.
Trusted boundary: Prims, Pvm
-/
import Pyde.Consensus.Block
import Pyde.Tx.Pipeline
import Pyde.Library.GroupedRun

namespace Pyde

open ByteCodec StateProgram

/-! ### The chain head -/

/-- `ChainState`: the head and the recent headers. The maps are association lists in which no key
stands twice. -/
structure ChainState where
  headSlot : U64
  epoch : U64
  stateRoot : Hash256
  headers : List (U64 × BlockHeader)
  hashToSlot : List (Hash256 × U64)
  baseFee : U128
  chainId : U64

def genesisBaseFee : U128 := 50000000000#128

/-- `HashMap::insert`. -/
def mapInsert {κ ν : Type} [DecidableEq κ] (key : κ) (value : ν) (entries : List (κ × ν)) : List (κ × ν) :=
  (key, value) :: entries.filter fun entry => entry.1 ≠ key

namespace ChainState

def isGenesis (chain : ChainState) : Bool := decide (chain.headSlot = 0 ∧ chain.headers = [])

def genesis (stateRoot : Hash256) (chainId : U64) : ChainState where
  headSlot := 0
  epoch := 0
  stateRoot := stateRoot
  headers := []
  hashToSlot := []
  baseFee := genesisBaseFee
  chainId := chainId

/-- `advance`: from epoch 2 on, headers older than the previous epoch are dropped. -/
def advance (P : Prims) (chain : ChainState) (header : BlockHeader) : ChainState :=
  let epoch := header.slot / epochLength
  let kept : U64 → Bool := fun slot => decide (epoch < 2 ∨ (epoch - 1) * epochLength ≤ slot)
  { chain with
    headSlot := header.slot
    epoch := epoch
    stateRoot := header.stateRoot
    headers := (mapInsert header.slot header chain.headers).filter fun entry => kept entry.1
    hashToSlot := (mapInsert (header.hash P) header.slot chain.hashToSlot).filter fun entry => kept entry.2 }

end ChainState

/-- What a block is processed on: the values that `StateManager::get` answers with, and the root that
was last committed. -/
structure StateManager where
  store : StateMap
  root : Hash256

/-! ### Validation -/

def hexDigit (n : Nat) : Char := "0123456789abcdef".toList.getD n '0'

/-- `hex::encode`. -/
def hexEncode (bytes : Bytes) : String :=
  String.ofList (bytes.flatMap fun b => [hexDigit (b.toNat / 16), hexDigit (b.toNat % 16)])

def validateHeaderWithCheckpoint (header : BlockHeader) (chain : ChainState)
    (wsSlot : Option U64) : Except String Unit := do
  match wsSlot with
  | some checkpoint =>
    rejectIf (header.slot < checkpoint)
      ("block slot " ++ decimal header.slot ++ " is before hard-final checkpoint " ++ decimal checkpoint)
  | none => pure ()
  rejectIf (chain.isGenesis = false ∧ header.slot ≤ chain.headSlot)
    ("block slot " ++ decimal header.slot ++ " is not ahead of head " ++ decimal chain.headSlot)

def maxTxsPerBlock : Nat := 500

section

variable (P : Prims)

/-- The first transaction hash that an earlier transaction has already. -/
def firstDuplicate : List Hash256 → List Hash256 → Option Hash256
  | _, [] => none
  | seen, hash :: hashes => if hash ∈ seen then some hash else firstDuplicate (hash :: seen) hashes

def rejectDuplicates (txs : List Transaction) : Except String Unit :=
  match firstDuplicate [] (txs.map (Transaction.hash P)) with
  | some hash => .error ("duplicate transaction " ++ hexEncode hash.toList ++ " in block")
  | none => .ok ()

/-- The key that the account record of a sender is checked against, if it has one. -/
def registeredKey (st : StateMap) (addr : Address) : Option Bytes :=
  match (st (balanceKey P addr)).bind Account.fromBytes with
  | some account =>
    match account.authKeys with
    | .single pk => some pk
    | .none => none
    | .multiSig _ _ => none
  | none => none

/-- The signature loop of `validate_block_body_inner`, from transaction `i` on. -/
def verifySyncedSignatures (st : StateMap) : Nat → List Transaction → Except String Unit
  | _, [] => .ok ()
  | i, tx :: txs =>
    if tx.signature = [] then .error ("tx " ++ toString i ++ " has empty signature")
    else
      match registeredKey P st tx.fromAddress with
      | some pk =>
        if tx.verifySignature P pk then verifySyncedSignatures st (i + 1) txs
        else .error ("tx " ++ toString i ++ " has invalid signature")
      | none => verifySyncedSignatures st (i + 1) txs

/-- The checks of `validate_block_body_inner` on a body that is not empty. -/
def validateTransactions (txs : List Transaction) (st : StateMap) (chainId : U64)
    (verifySignatures : Bool) : Except String Unit := do
  rejectDuplicates P txs
  let totalGas := (txs.map Transaction.gasLimit).sum
  rejectIf (gasCeiling < totalGas)
    ("block gas " ++ decimal totalGas ++ " exceeds ceiling " ++ decimal gasCeiling)
  if verifySignatures ∧ chainId ≠ devnetChainId then verifySyncedSignatures P st 0 txs else pure ()

def validateBlockBodyInner (block : Block) (st : StateMap) (chainId : U64)
    (verifySignatures : Bool) : Except String Unit := do
  let body := block.body
  rejectIf (verifyTxRoot P block.header.txRoot body.transactions (body.encryptedTxHashes P) = false)
    ("tx_root mismatch: header " ++ hexEncode block.header.txRoot.toList ++
      " — block body has been tampered with or the proposer reordered encrypted txs after QC")
  rejectIf (maxEncryptedTxsPerBlock < body.encryptedTxs.length)
    ("block carries " ++ toString body.encryptedTxs.length ++
      " encrypted txs, exceeds MAX_ENCRYPTED_TXS_PER_BLOCK=" ++ toString maxEncryptedTxsPerBlock)
  rejectIf (maxTxsPerBlock < body.transactions.length)
    ("block carries " ++ toString body.transactions.length ++
      " plaintext txs, exceeds MAX_TXS_PER_BLOCK=" ++ toString maxTxsPerBlock)
  if body.transactions = [] ∧ body.encryptedTxs = [] then pure ()
  else validateTransactions P body.transactions st chainId verifySignatures

/-- `validate_block_body`: signatures are not looked at. -/
def validateBlockBody (block : Block) (st : StateMap) (chainId : U64) : Except String Unit :=
  validateBlockBodyInner P block st chainId false

def validateSyncedBlockBody (block : Block) (st : StateMap) (chainId : U64) : Except String Unit :=
  validateBlockBodyInner P block st chainId true

end

/-! ### Execution -/

section

variable (P : Prims) (pvm : Pvm) (aot : Nat → Bool)

/-- What the batch check says about one transaction. An unsigned transaction and a sender without a
key of their own count as valid. -/
def batchVerdict (st : StateMap) (tx : Transaction) : Bool :=
  if tx.signature = [] then true
  else
    match registeredKey P st tx.fromAddress with
    | some pk => tx.verifySignature P pk
    | none => true

/-- `all_sigs_valid`: no signature of the block was found invalid in the state before the block. -/
def allSigsValid (st : StateMap) (chainId : U64) (txs : List Transaction) : Bool :=
  decide (chainId ≠ devnetChainId) && txs.all (batchVerdict P st)

/-- The base fee after the skipped slots, each of which counts as an empty block. -/
def catchUpBaseFee (chain : ChainState) (slot : U64) : U128 :=
  let slotsToSkip := satSub slot (satAdd chain.headSlot 1)
  (fun baseFee => adjustBaseFee baseFee 0 gasTarget)^[slotsToSkip.toNat] chain.baseFee

/-- `block_ctx`. -/
def blockContext (chain : ChainState) (st : StateMap) (block : Block) : BlockContext where
  height := block.header.slot
  timestamp := block.header.timestamp
  baseFee := catchUpBaseFee chain block.header.slot
  blockGasLimit := gasCeiling
  chainId := chain.chainId
  devSkipSignature := decide (chain.chainId = devnetChainId)
  blockSigsPreVerified := allSigsValid P st chain.chainId block.body.transactions

def refusedReceipt (tx : Transaction) (e : PipelineError) : Receipt where
  txHash := tx.hash P
  success := false
  gasUsed := 0
  gasRefund := 0
  effectiveGas := 0
  feePaid := 0
  feeBurned := 0
  feeValidator := 0
  feeTreasury := 0
  logs := []
  stateRoot := zero32
  returnData := ascii e.debug

/-- The receipt that a block records for the answer of the pipeline. -/
def receiptOf (tx : Transaction) : Except PipelineError Receipt → Receipt
  | .ok receipt => receipt
  | .error e => refusedReceipt P tx e

/-- Transaction `i` of a block. `native i` says whether the cache holds native code for the callee when
the transaction runs; an index beyond the list is passed over. -/
def blockProgram (txs : List Transaction) (ctx : BlockContext) (stateRoot : Hash256) (i : Nat) :
    StateProg (Option Receipt) :=
  match txs[i]? with
  | none => pure none
  | some tx => do
    let answer ← executeTransaction P pvm (aot i) tx ctx stateRoot
    pure (some (receiptOf P tx answer))

theorem run_blockProgram {txs : List Transaction} {i : Nat} {tx : Transaction} (htx : txs[i]? = some tx)
    (ctx : BlockContext) (stateRoot : Hash256) (st : StateMap) :
    runIn P (blockProgram P pvm aot txs ctx stateRoot i) st =
      let answer := runIn P (executeTransaction P pvm (aot i) tx ctx stateRoot) st
      (some (receiptOf P tx answer.1), answer.2) := by
  simp only [blockProgram, htx, run_bind]
  rfl

/-- The single-group path: all transactions in order on one overlay. -/
def executeInOrder (txs : List Transaction) (ctx : BlockContext) (manager : StateManager) :
    List Receipt × StateMap :=
  let run := runEach (Overlay.backend stored) (StateKey.hash P) (blockProgram P pvm aot txs ctx manager.root)
    (List.range txs.length) (Overlay.new manager.store)
  (run.1.filterMap Prod.snd, run.2.commit stored manager.store)

/-- The multi-group path: every group on its own overlay of the state before the block. Receipts are
put in the order of the transactions, writes are merged in the order of the groups. -/
def executeGroups (txs : List Transaction) (ctx : BlockContext) (manager : StateManager)
    (groups : List ExecutionGroup) : List Receipt × StateMap :=
  let run := runGroups stored (StateKey.hash P) (blockProgram P pvm aot txs ctx manager.root) manager.store
    (groups.map ExecutionGroup.txIndices)
  ((run.1.insertionSort fun a b => a.1 ≤ b.1).filterMap Prod.snd, run.2)

def executeBlock (txs : List Transaction) (ctx : BlockContext) (manager : StateManager)
    (groups : List ExecutionGroup) : List Receipt × StateMap :=
  if groups.length ≤ 1 then executeInOrder P pvm aot txs ctx manager
  else executeGroups P pvm aot txs ctx manager groups

end

/-! ### Settlement -/

def serviceSharePct : U128 := 25#128

/-- A step that is skipped for an amount of zero. -/
def whenPositive (amt : U128) (program : StateProg Unit) : StateProg Unit :=
  if 0 < amt then program else pure ()

def creditServiceShare (proposer : Address) (serviceShare : U128) : StateProg Unit := do
  let bytes ← Prog.read (.account proposer .balance)
  match bytes.bind Account.fromBytes with
  | none => pure ()
  | some account =>
    Prog.write (.account proposer .balance)
      { account with balance := account.balance + serviceShare : Account }.toBytes

/-- Add an equal share of `amount` to what every active validator may claim. -/
def accruePerValidator (amt : U128) : StateProg Unit := do
  let activeCount ← readActiveValidatorCount
  if 0 < activeCount then
    let increment := amt / activeCount.setWidth 128
    whenPositive increment do
      let cur ← readRewardsPerValidator
      writeRewardsPerValidator (satAdd cur increment)
  else pure ()

/-- Mint the block reward: a service share for the proposer, the rest for all active validators. -/
def mintReward (slot : U64) (proposer : Address) : StateProg Unit :=
  let totalMint := blockReward slot
  let serviceShare := totalMint * serviceSharePct / 100
  let poolShare := totalMint - serviceShare
  if 0 < totalMint ∧ proposer ≠ zero32 then do
    whenPositive serviceShare (creditServiceShare proposer serviceShare)
    whenPositive poolShare (accruePerValidator poolShare)
    let currentSupply ← readTotalSupply
    writeTotalSupply (satAdd currentSupply totalMint)
  else pure ()

/-- The bootstrap subsidy, while its window is open. -/
def paySubsidy (slot : U64) : StateProg Unit := do
  let subsidy ← readValidatorSubsidy
  match subsidy with
  | some schedule =>
    if slot < schedule.endSlot ∧ 0 < schedule.perBlock then accruePerValidator schedule.perBlock else pure ()
  | none => pure ()

/-- Add the fees burned in the block to the counter. -/
def recordBurn (receipts : List Receipt) : StateProg Unit :=
  let blockBurn := (receipts.map Receipt.feeBurned).sum
  whenPositive blockBurn do
    let currentBurned ← readTotalBurned
    writeTotalBurned (satAdd currentBurned blockBurn)

/-- Everything that is written after the transactions. -/
def settleBlock (P : Prims) (slot : U64) (proposer : Address) (receipts : List Receipt) :
    StateProg Unit := do
  applyBlockFees P proposer receipts
  mintReward slot proposer
  paySubsidy slot
  recordBurn receipts

/-! ### The whole block -/

/-- What a processed block leaves behind: the new head, the state as it now reads, and the triple that
is returned. -/
structure Processed where
  chain : ChainState
  store : StateMap
  txCount : Nat
  totalGas : U64
  receipts : List Receipt

section

variable (P : Prims) (pvm : Pvm) (aot : Nat → Bool) (chain : ChainState) (manager : StateManager)
  (block : Block)

/-- Steps 2 to 7, for a block that passed validation. -/
def applyBlock : Processed :=
  let ctx := blockContext P chain manager.store block
  let executed := executeBlock P pvm aot block.body.transactions ctx manager
    block.body.executionSchedule.groups
  let totalGas := (executed.1.map Receipt.effectiveGas).sum
  let settled := runIn P (settleBlock P block.header.slot block.header.proposer executed.1) executed.2
  { chain := { chain with baseFee := adjustBaseFee ctx.baseFee totalGas gasTarget }.advance P block.header
    store := settled.2
    txCount := block.body.transactions.length
    totalGas := totalGas
    receipts := executed.1 }

/-- `process_full_block_with_aot_and_checkpoint`. A refused block changes nothing. -/
def processFullBlock (wsSlot : Option U64) : Except String Processed := do
  validateHeaderWithCheckpoint block.header chain wsSlot
  validateBlockBody P block manager.store chain.chainId
  pure (applyBlock P pvm aot chain manager block)

/-- The sequences in which the transactions of a block run, each on an overlay of its own. -/
def executionOrders : List (List Nat) :=
  if block.body.executionSchedule.groups.length ≤ 1 then [List.range block.body.transactions.length]
  else block.body.executionSchedule.groups.map ExecutionGroup.txIndices

/-- The overlay on which some transactions of a group have run. -/
def overlayAfter (done : List Nat) : Overlay Hash256 Bytes :=
  (runEach (Overlay.backend stored) (StateKey.hash P)
    (blockProgram P pvm aot block.body.transactions (blockContext P chain manager.store block) manager.root)
    done (Overlay.new manager.store)).2

end

/-- One transaction of a block as it executes, with the state it starts from and the state it leaves. -/
structure BlockStep where
  tx : Transaction
  before : StateMap
  after : StateMap

/-- The transactions of a block as they execute. -/
def blockSteps (P : Prims) (pvm : Pvm) (aot : Nat → Bool) (chain : ChainState)
    (manager : StateManager) (block : Block) : Set BlockStep :=
  {step | ∃ order ∈ executionOrders block, ∃ done i rest, order = done ++ i :: rest ∧
    block.body.transactions[i]? = some step.tx ∧
    step.before = (overlayAfter P pvm aot chain manager block done).view stored ∧
    step.after = (overlayAfter P pvm aot chain manager block (done ++ [i])).view stored}

/-! ### Small blocks for concrete runs -/

def transferOf (chainId : U64) (sender : U8) (nonce : U64) : Transaction where
  fromAddress := fill32 sender
  toAddress := fill32 9
  value := 1000
  data := []
  gasLimit := 21000
  nonce := nonce
  signature := []
  feePayer := .sender
  accessList := []
  deadline := none
  chainId := chainId
  txType := .standard

def fundedAccount (addr : U8) (authKeys : AuthKeys) : Account :=
  { Account.empty (fill32 addr) with balance := 100000000000000000, authKeys }

/-- A state that holds the given accounts and nothing else. -/
def managerOf (P : Prims) (accounts : List Account) : StateManager where
  store := accounts.foldl (fun st account =>
    StateProgram.insert stored st (balanceKey P account.address) account.toBytes) fun _ => none
  root := zero32

/-- The block of slot 1 with these transactions and groups, and a root to match. -/
def blockOf (P : Prims) (txs : List Transaction) (groups : List (List Nat)) : Block where
  header :=
    { slot := 1, epoch := 0, parentHash := zero32, proposer := zero32, vrfProof := [],
      qcPrevious := QuorumCert.empty, txRoot := computeTxRoot P txs [], stateRoot := zero32, timestamp := 0 }
  body :=
    { transactions := txs, encryptedTxs := []
      executionSchedule := { groups := groups.map ExecutionGroup.mk, totalTxs := txs.length } }

/-- The gas limits of a body added up as integers. -/
def BlockBody.totalGasLimits (body : BlockBody) : Nat := (body.transactions.map fun tx => tx.gasLimit.toNat).sum

theorem toNat_sum_gasLimits (body : BlockBody) :
    (body.transactions.map Transaction.gasLimit).sum.toNat = body.totalGasLimits % 2 ^ 64 := by
  rw [toNat_sum, List.map_map]
  rfl

section

variable (P : Prims) (block : Block)

/-- A check of `validate_block_body` other than the one on gas turns the block away: its transaction
root, one of the two caps, or a repeated transaction. -/
def RefusedOtherwise : Prop :=
  verifyTxRoot P block.header.txRoot block.body.transactions (block.body.encryptedTxHashes P) = false ∨
  maxEncryptedTxsPerBlock < block.body.encryptedTxs.length ∨ maxTxsPerBlock < block.body.transactions.length ∨
  rejectDuplicates P block.body.transactions ≠ .ok ()

/-- A block with more gas than the ceiling is rejected. -/
def GasCeilingEnforced (st : StateMap) (chainId : U64) : Prop :=
  gasCeiling.toNat < block.body.totalGasLimits → ∃ e, validateBlockBody P block st chainId = .error e

variable {P block}

/-- A body without plaintext transactions asks for no gas and repeats nothing. -/
theorem validateTransactions_nil (st : StateMap) (chainId : U64) :
    validateTransactions P [] st chainId false = .ok () := by
  simp [validateTransactions, rejectDuplicates, firstDuplicate, rejectIf, gasCeiling, bind, Except.bind,
    pure, Except.pure]

theorem validateTransactions_ok {txs : List Transaction} {st : StateMap} {chainId : U64} :
    validateTransactions P txs st chainId false = .ok () ↔
      rejectDuplicates P txs = .ok () ∧ (txs.map Transaction.gasLimit).sum ≤ gasCeiling := by
  unfold validateTransactions
  rw [checks_ok, checks_ok, rejectIf_ok, BitVec.not_lt]
  simp [pure, Except.pure]

/-- What `validate_block_body` accepts. -/
theorem validateBlockBody_ok {st : StateMap} {chainId : U64} :
    validateBlockBody P block st chainId = .ok () ↔
      ¬ RefusedOtherwise P block ∧ block.body.totalGasLimits % 2 ^ 64 ≤ gasCeiling.toNat := by
  have htransactions : validateTransactions P block.body.transactions st chainId false = .ok () ↔
      rejectDuplicates P block.body.transactions = .ok () ∧
        block.body.totalGasLimits % 2 ^ 64 ≤ gasCeiling.toNat := by
    rw [validateTransactions_ok, BitVec.le_def, toNat_sum_gasLimits]
  unfold validateBlockBody validateBlockBodyInner RefusedOtherwise
  simp only [checks_ok, rejectIf_ok, not_or, not_not, and_assoc]
  have hlast : (if block.body.transactions = [] ∧ block.body.encryptedTxs = [] then pure ()
      else validateTransactions P block.body.transactions st chainId false) = .ok () ↔
      validateTransactions P block.body.transactions st chainId false = .ok () := by
    by_cases hempty : block.body.transactions = [] ∧ block.body.encryptedTxs = []
    · rw [if_pos hempty, hempty.1]
      exact iff_of_true rfl (validateTransactions_nil st chainId)
    · rw [if_neg hempty]
  rw [hlast, htransactions]

/-- The ceiling holds on integers for exactly those blocks whose sum does not wrap to a value below
it, and those that another check turns away. -/
theorem gas_ceiling_enforced_iff (P : Prims) (block : Block) (st : StateMap) (chainId : U64) :
    GasCeilingEnforced P block st chainId ↔ (block.body.totalGasLimits < 2 ^ 64 ∨
        gasCeiling.toNat < block.body.totalGasLimits % 2 ^ 64 ∨ RefusedOtherwise P block) := by
  have hrejected : (∃ e, validateBlockBody P block st chainId = .error e) ↔
      ¬ validateBlockBody P block st chainId = .ok () := by
    cases validateBlockBody P block st chainId with
    | error e => exact iff_of_true ⟨e, rfl⟩ (by simp)
    | ok accepted => exact iff_of_false (by simp) (by simp)
  have hceiling : gasCeiling.toNat = 1600000000 := rfl
  unfold GasCeilingEnforced
  rw [hrejected, validateBlockBody_ok]
  by_cases hother : RefusedOtherwise P block
  · simp [hother]
  · simp only [hother, not_false_eq_true, true_and, or_false, hceiling]
    omega

end

/-- A transfer that asks for 2^63 gas. -/
def halfRangeTx (nonce : U64) : Transaction :=
  { fromAddress := fill32 1, toAddress := zeroAddress, value := 0, data := [], gasLimit := 2 ^ 63
    nonce, signature := [], feePayer := .sender, accessList := [], deadline := none, chainId := 1
    txType := .standard }

/-- Two such transfers wrap the sum to zero, and the block passes. -/
theorem wrapped_gas_passes :
    gasCeiling.toNat < (blockOf lucid [halfRangeTx 0, halfRangeTx 1] [[0], [1]]).body.totalGasLimits ∧
    validateBlockBody lucid (blockOf lucid [halfRangeTx 0, halfRangeTx 1] [[0], [1]])
      (fun _ => none) 1 = .ok () := by
  refine ⟨by decide +kernel, ?_⟩
  rw [validateBlockBody_ok]
  unfold RefusedOtherwise
  decide +kernel

end Pyde
