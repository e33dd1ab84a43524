/-
Module: Pyde.Tx.Pipeline
Purpose: Executing one transaction: the pause gate, validation and the nonce, then charging, transfer, what the
  transaction type does to the state, the refund and the write-back of sender and recipient.
Trusted boundary: Prims, Pvm
-/
import Pyde.Tx.Execution

namespace Pyde

open ByteCodec StateProgram

structure BlockContext where
  height : U64
  timestamp : U64
  baseFee : U128
  blockGasLimit : U64
  chainId : U64
  devSkipSignature : Bool
  blockSigsPreVerified : Bool
deriving DecidableEq

/-- `(success, gas_used, gas_refund, logs, return_data)`. -/
structure Outcome where
  success : Bool
  gasUsed : U64
  gasRefund : U64
  logs : List LogEntry
  returnData : Bytes
deriving DecidableEq

/-- A handler that gave up, with the reason as return data. -/
def Outcome.failed (gas : U64) (reason : String) : Outcome :=
  { success := false, gasUsed := gas, gasRefund := 0, logs := [], returnData := ascii reason }

def Outcome.done (gas : U64) (returnData : Bytes) : Outcome :=
  { success := true, gasUsed := gas, gasRefund := 0, logs := [], returnData := returnData }

/-! ### The virtual machine -/

/-- What the virtual machine is told about the call it executes. -/
structure PvmCall where
  caller : Address
  selfAddress : Address
  callValue : U128
  blockNumber : U64
  timestamp : U64
  gasPrice : U128
  txNonce : U64
  gasLimit : U64
  calldata : Bytes
  accessList : List AccessEntry
deriving DecidableEq

/-- What the virtual machine leaves behind. `storage` holds a value for every slot it read or wrote,
`contracts` the code it loaded or created. -/
structure PvmOutput where
  success : Bool
  gasUsed : U64
  gasRefund : U64
  storage : List ((Address × Bytes) × Bytes)
  contracts : List (Address × Bytes)
  logs : List LogEntry
  returnData : Bytes

/-- The virtual machine: it reads the state while it runs and writes nothing. The first argument says
whether native code for the contract is at hand. -/
abbrev Pvm := Bool → Bytes → PvmCall → Query StateKey Bytes PvmOutput

/-- A virtual machine for states without code. -/
def idlePvm : Pvm := fun _ _ _ =>
  .pure { success := true, gasUsed := 0, gasRefund := 0, storage := [], contracts := [], logs := [], returnData := [] }

def writeStorage : List ((Address × Bytes) × Bytes) → StateProg Unit
  | [] => pure ()
  | ((contract, slot), value) :: rest => do
    Prog.write (.slot contract slot) value
    writeStorage rest

def storeContract (P : Prims) (addr : Address) (code : Bytes) : StateProg Unit := do
  storeCode addr code
  storeAccount (Account.newContract P addr code)

/-- Store the contracts that have no code yet. -/
def persistContracts (P : Prims) : List (Address × Bytes) → StateProg Unit
  | [] => pure ()
  | (addr, code) :: rest => do
    let present ← loadCode addr
    match present with
    | some _ => persistContracts P rest
    | none => do
      storeContract P addr code
      persistContracts P rest

section

variable (P : Prims) (pvm : Pvm) (tx : Transaction) (ctx : BlockContext)

/-- The call that `execute_in_pvm` sets up. -/
def pvmCall : PvmCall where
  caller := tx.fromAddress
  selfAddress := tx.toAddress
  callValue := tx.value
  blockNumber := ctx.height
  timestamp := ctx.timestamp
  gasPrice := ctx.baseFee
  txNonce := tx.nonce
  gasLimit := tx.gasLimit
  calldata := tx.data
  accessList := tx.accessList

def PvmOutput.outcome (out : PvmOutput) : Outcome :=
  { success := out.success, gasUsed := out.gasUsed, gasRefund := out.gasRefund, logs := out.logs,
    returnData := out.returnData }

/-- `execute_in_pvm`. A call that does not succeed leaves no trace in the state. -/
def executeInPvm (aot : Bool) (code : Bytes) : StateProg Outcome := do
  let out ← (pvm aot code (pvmCall tx ctx)).toProg
  if out.success then do
    writeStorage out.storage
    persistContracts P out.contracts
    pure out.outcome
  else pure out.outcome

/-- A call to `tx.to`, or a plain transfer if there is no code. -/
def executeCall (aot : Bool) : StateProg Outcome := do
  let code ← loadCode tx.toAddress
  match code with
  | some code => executeInPvm P pvm tx ctx aot code
  | none => pure (.done 21000 [])

/-- Lengths of constructor and runtime code, if the deployment data starts with a sane header. -/
def deployHeader (data : Bytes) : Option (Nat × Nat) :=
  let constructorLen := ofLeBytes (slice data 0 4)
  let runtimeLen := ofLeBytes (slice data 4 4)
  if 8 ≤ data.length ∧ 0 < constructorLen ∧ 0 < runtimeLen ∧ constructorLen + runtimeLen ≤ data.length ∧
      8 + constructorLen + runtimeLen ≤ data.length then some (constructorLen, runtimeLen)
  else none

/-- Store the code of a deployment and run its constructor; the gas that is charged for it. -/
def deployCode (newAddr : Address) : StateProg U64 :=
  match deployHeader tx.data with
  | none => do
    storeContract P newAddr tx.data
    pure 32000
  | some (constructorLen, runtimeLen) => do
    storeContract P newAddr (slice tx.data (8 + constructorLen) runtimeLen)
    let constructorTx := { tx with toAddress := newAddr, data := tx.data.drop (8 + constructorLen + runtimeLen) }
    let out ← executeInPvm P pvm constructorTx ctx false (slice tx.data 8 constructorLen)
    pure (32000 + out.gasUsed)

/-- The `Deploy` branch. A constructor that fails does not make the deployment fail. -/
def executeDeploy (sender : Account) : StateProg (Outcome × Account) := do
  let newAddr := deriveCreateAddress P tx.fromAddress sender.nonce
  let gasUsed ← deployCode P pvm tx ctx newAddr
  pure (.done gasUsed newAddr.toList, { sender with nonce := sender.nonce + 1 })

/-! ### Staking -/

/-- The entry `StakeDeposit` writes, without a KEM key. -/
def stakeDepositEntry (pk : Bytes) (rewardsPerValidator : U128) : Bytes :=
  toLe (897#32) ++ (pk ++ (toLe validatorStake ++ (statusActive :: toLe rewardsPerValidator)))

/-- Register the sender: the entry, the enumeration index and both counters. -/
def registerValidator (pk : Bytes) : StateProg Unit := do
  let rewards ← readRewardsPerValidator
  Prog.write (.account tx.fromAddress .validator) (stakeDepositEntry pk rewards)
  let count ← readGlobal 64 .validatorCount 0
  writeGlobal .validatorCount (count + 1)
  Prog.write (.indexed .validatorIndex count) tx.fromAddress.toList
  incrementActiveValidatorCount

/-- The `StakeDeposit` branch. -/
def executeStakeDeposit (sender : Account) : StateProg (Outcome × Account) :=
  if sender.balance < validatorStake then
    pure (.failed 21000 "insufficient balance for stake deposit", sender)
  else if tx.data.length < 897 then
    pure (.failed 21000 "tx.data must contain FALCON public key (897 bytes)", sender)
  else if deriveEoaAddress P (tx.data.take 897) ≠ tx.fromAddress then
    pure (.failed 21000 "public key does not match sender address", sender)
  else do
    let existing ← Prog.read (.account tx.fromAddress .validator)
    match existing with
    | some _ => pure (.failed 21000 "already registered as validator", sender)
    | none => do
      registerValidator tx (tx.data.take 897)
      pure (.done 50000 tx.fromAddress.toList, { sender with balance := sender.balance - validatorStake })

/-- The `StakeWithdraw` branch. Validation refuses the type, so only other callers reach it. -/
def executeStakeWithdraw : StateProg Outcome := do
  let valData ← Prog.read (.account tx.fromAddress .validator)
  match valData with
  | none => pure (.failed 21000 "not a registered validator")
  | some data =>
    match ValidatorEntry.decode data with
    | none => pure (.failed 21000 "invalid validator entry")
    | some entry =>
      if entry.status = statusActive then do
        Prog.write (.account tx.fromAddress .validator)
          { entry with status := statusUnbonding, exitBlock := some ctx.height }.encode
        decrementActiveValidatorCount
        pure (.done 50000 [])
      else pure (.failed 21000 "validator is not active")

/-- The `ClaimReward` branch. -/
def executeClaimReward (sender : Account) : StateProg (Outcome × Account) := do
  let valData ← Prog.read (.account tx.fromAddress .validator)
  match valData with
  | none => pure (.failed 21000 "not a registered validator", sender)
  | some data =>
    match ValidatorEntry.decode data with
    | none => pure (.failed 21000 "validator entry corrupt", sender)
    | some entry =>
      if entry.status = statusExited then
        pure (.failed 21000 "validator has exited; no further claims", sender)
      else do
        let cur ← readRewardsPerValidator
        let owed := satSub cur entry.lastClaimedAt
        if 0 < owed then do
          Prog.write (.account tx.fromAddress .validator) { entry with lastClaimedAt := cur }.encode
          pure (.done 21000 (toLe owed), { sender with balance := satAdd sender.balance owed })
        else pure (.done 21000 (toLe owed), sender)

/-! ### Slashing -/

def proposerSignMessageBytes (chainId slot : U64) (blockHash : Hash256) : Bytes :=
  toLe chainId ++ (toLe slot ++ blockHash.toList)

/-- Why the two signatures of some evidence do not count against the holder of `pk`. -/
def slashSignatureFault (chainId : U64) (pk : Bytes) (ev : SlashEvidence) : Option String :=
  match FalconPublicKey.fromBytes pk with
  | none => some "validator public key is malformed"
  | some pk =>
    match FalconSignature.fromBytes ev.signature1 with
    | none => some "signature_1 malformed"
    | some sig1 =>
      match FalconSignature.fromBytes ev.signature2 with
      | none => some "signature_2 malformed"
      | some sig2 =>
        if P.falconVerify pk (proposerSignMessageBytes chainId ev.slot ev.blockHash1) sig1 ∧
            P.falconVerify pk (proposerSignMessageBytes chainId ev.slot ev.blockHash2) sig2 then none
        else some "evidence signatures failed FALCON verification"

/-- Eject the offender; the finder's fee that is paid for it. -/
def applySlash (signer : Address) (entry : ValidatorEntry) : StateProg U128 := do
  let slashAmount := lesser entry.stake validatorStake
  let ejected := { entry with stake := satSub entry.stake slashAmount, status := statusExited, exitBlock := none }
  Prog.write (.account signer .validator) ejected.encode
  let finderFee := slashAmount * 10 / 100
  if entry.status = statusActive then do
    decrementActiveValidatorCount
    pure finderFee
  else pure finderFee

/-- `execute_slash`, with the submitter's balance afterwards. -/
def executeSlash (chainId : U64) (submitterBalance : U128) : StateProg (Outcome × U128) :=
  match decodeSlashEvidence tx.data with
  | .error e => pure (.failed 21000 e, submitterBalance)
  | .ok ev =>
    if ev.blockHash1 = ev.blockHash2 then
      pure (.failed 21000 "evidence blocks must differ", submitterBalance)
    else do
      let valData ← Prog.read (.account ev.signer .validator)
      match valData with
      | none => pure (.failed 21000 "accused signer is not a registered validator", submitterBalance)
      | some data =>
        match ValidatorEntry.decode data with
        | none => pure (.failed 21000 "corrupt validator entry", submitterBalance)
        | some entry =>
          if entry.status = statusExited then
            pure (.failed 21000 "signer already ejected", submitterBalance)
          else
            match slashSignatureFault P chainId entry.pk ev with
            | some fault => pure (.failed 21000 fault, submitterBalance)
            | none => do
              let finderFee ← applySlash ev.signer entry
              pure (.done 100000 ev.signer.toList, satAdd submitterBalance finderFee)

/-! ### Airdrop -/

/-- Gas for a claim: a base and a share per proof level. -/
def airdropClaimGas (payload : ClaimPayload) : U64 :=
  satAdd 30000 (satMul 5000 (BitVec.ofNat 64 payload.proof.length))

def payAirdrop (payload : ClaimPayload) (senderBalance : U128) : StateProg (Outcome × U128) := do
  let gas := airdropClaimGas payload
  let pool ← loadAccount (airdropPoolAddress P)
  if pool.balance < payload.amount then pure (.failed gas "airdrop pool insufficient", senderBalance)
  else do
    storeAccount { pool with balance := pool.balance - payload.amount }
    markAirdropClaimed payload.leafIndex
    pure (.done gas (toLe payload.amount), satAdd senderBalance payload.amount)

/-- `execute_claim_airdrop`, with the sender's balance afterwards. -/
def executeClaimAirdrop (senderBalance : U128) : StateProg (Outcome × U128) :=
  match ClaimPayload.decode tx.data with
  | none => pure (.failed 30000 "airdrop payload malformed", senderBalance)
  | some payload =>
    let gas := airdropClaimGas payload
    if tx.gasLimit < gas then
      pure (.failed tx.gasLimit "airdrop claim gas_limit below required cost", senderBalance)
    else do
      let deadline ← readAirdropDeadline
      match deadline with
      | none => pure (.failed gas "airdrop not configured", senderBalance)
      | some deadline =>
        if deadline < ctx.height then pure (.failed gas "airdrop deadline passed", senderBalance)
        else do
          let root ← readAirdropRoot
          match root with
          | none => pure (.failed gas "airdrop root missing", senderBalance)
          | some root => do
            let claimed ← isAirdropClaimed payload.leafIndex
            if claimed then pure (.failed gas "airdrop leaf already claimed", senderBalance)
            else if verifyProof P payload.leafIndex tx.fromAddress payload.amount payload.proof
                root = false then
              pure (.failed gas "airdrop proof invalid", senderBalance)
            else payAirdrop P payload senderBalance

/-- `execute_sweep_airdrop`: after the deadline the rest of the pool goes to the treasury. -/
def executeSweepAirdrop : StateProg Outcome :=
  if tx.gasLimit < 40000 then pure (.failed tx.gasLimit "sweep gas_limit below required cost")
  else do
    let deadline ← readAirdropDeadline
    match deadline with
    | none => pure (.failed 40000 "airdrop not configured")
    | some deadline =>
      if ctx.height ≤ deadline then pure (.failed 40000 "airdrop still active")
      else do
        let pool ← loadAccount (airdropPoolAddress P)
        if pool.balance = 0 then pure (.done 40000 [])
        else do
          let treasury ← loadAccount (treasuryAddress P)
          storeAccount { pool with balance := 0 }
          storeAccount { treasury with balance := satAdd treasury.balance pool.balance }
          pure (.done 40000 (toLe pool.balance))

/-! ### Multisig governance -/

/-- Gas for an operation: a base and a share per signature. -/
def multisigGas (base : U64) (sigs : List SigEntry) : U64 := satAdd base (satMul 50000 (BitVec.ofNat 64 sigs.length))

/-- The check of all multisig operations (`multisig_ok` for the emergency ones): enough of the
configured signers have signed. `signing` yields what they have to sign and the multisig nonce in it;
the nonce is passed on. -/
def multisigOk (label : String) (sigs : List SigEntry) (gas : U64) (signing : StateProg (Bytes × U64)) :
    StateProg (Except Outcome U64) := do
  let signers ← readMultisigSigners
  match signers with
  | none => pure (.error (.failed gas "multisig not configured"))
  | some signers => do
    let threshold ← readMultisigThreshold
    if threshold = 0 then pure (.error (.failed gas "multisig threshold = 0"))
    else do
      let (msg, nonce) ← signing
      match countValidSigs P sigs signers msg with
      | .error e => pure (.error (.failed gas e))
      | .ok valid =>
        if valid < threshold.toNat then
          pure (.error (.failed gas (label ++ " below threshold: " ++ toString valid ++
            " valid of " ++ decimal threshold ++ " required")))
        else pure (.ok nonce)

/-- Move the amount out of the treasury and use up the nonce. -/
def paySpend (spend : MultisigSpend) (gas nonce : U64) : StateProg Outcome := do
  let treasury ← loadAccount (treasuryAddress P)
  if treasury.balance < spend.value then pure (.failed gas "treasury balance insufficient")
  else do
    let target ← loadAccount spend.target
    storeAccount { treasury with balance := treasury.balance - spend.value }
    storeAccount { target with balance := satAdd target.balance spend.value }
    writeMultisigNonce (satAdd nonce 1)
    pure (.done gas (toLe spend.value))

/-- The checks of a spend that need no state. -/
def spendFault (spend : MultisigSpend) : Option String :=
  if spend.value = 0 then some "multisig value must be > 0"
  else if spend.target = zero32 then some "multisig target must not be zero"
  else if spend.target = treasuryAddress P then some "multisig cannot spend to treasury itself"
  else if spend.target = tx.fromAddress then some "multisig target must not be the submitter"
  else if tx.toAddress ≠ zero32 then some "MultisigTx must set tx.to = ZERO_ADDRESS"
  else none

def executeMultisigSpend : StateProg Outcome :=
  match MultisigPayload.decode tx.data with
  | none => pure (.failed 50000 "multisig payload malformed")
  | some (.rotate _ _) => pure (.failed 50000 "wrong payload tag for MultisigTx")
  | some (.spend spend sigs) =>
    let gas := multisigGas 50000 sigs
    if tx.gasLimit < gas then pure (.failed tx.gasLimit "multisig gas_limit below required cost")
    else
      match spendFault P tx spend with
      | some fault => pure (.failed gas fault)
      | none => do
        let verdict ← multisigOk P "multisig" sigs gas do
          let nonce ← readMultisigNonce
          pure (spend.signingBytes P nonce ctx.chainId, nonce)
        match verdict with
        | .error outcome => pure outcome
        | .ok nonce => paySpend P spend gas nonce

/-- The loop over the new keys: each parses, and none is repeated. -/
def newSignersFault : List Bytes → List Bytes → Option String
  | _, [] => none
  | seen, pk :: rest =>
    if FalconPublicKey.fromBytes pk = none then some "rotate contains malformed pk"
    else if pk ∈ seen then some "rotate contains duplicate pk"
    else newSignersFault (pk :: seen) rest

/-- The checks of a rotation that need no state. -/
def rotateFault (rotate : MultisigRotate) : Option String :=
  if rotate.newSignerPks = [] ∨ maxSigners < rotate.newSignerPks.length then
    some "rotate signer count out of range"
  else if rotate.newThreshold = 0 ∨ rotate.newSignerPks.length < rotate.newThreshold.toNat then
    some "rotate threshold invalid"
  else newSignersFault [] rotate.newSignerPks

def executeRotateMultisig : StateProg Outcome :=
  match MultisigPayload.decode tx.data with
  | none => pure (.failed 60000 "multisig payload malformed")
  | some (.spend _ _) => pure (.failed 60000 "wrong payload tag for RotateMultisig")
  | some (.rotate rotate sigs) =>
    let gas := satAdd (multisigGas 60000 sigs) (satMul 10000 (BitVec.ofNat 64 rotate.newSignerPks.length))
    if tx.gasLimit < gas then pure (.failed tx.gasLimit "multisig rotate gas_limit below required cost")
    else
      match rotateFault rotate with
      | some fault => pure (.failed gas fault)
      | none => do
        let verdict ← multisigOk P "rotate" sigs gas do
          let nonce ← readMultisigNonce
          pure (rotate.signingBytes P nonce ctx.chainId, nonce)
        match verdict with
        | .error outcome => pure outcome
        | .ok nonce => do
          writeMultisigSigners rotate.newSignerPks
          writeMultisigThreshold rotate.newThreshold
          writeMultisigNonce (satAdd nonce 1)
          pure (.done gas [BitVec.ofNat 8 rotate.newSignerPks.length, rotate.newThreshold])

/-! ### Emergency pause -/

def maxPauseDurationSlots : U64 := 6500000#64

def executeEmergencyPause : StateProg Outcome :=
  match EmergencyPausePayload.decode tx.data with
  | none => pure (.failed 40000 "pause payload malformed")
  | some payload =>
    let gas := multisigGas 40000 payload.sigs
    if tx.gasLimit < gas then pure (.failed tx.gasLimit "pause gas_limit below required cost")
    else if payload.durationSlots = 0 ∨ maxPauseDurationSlots < payload.durationSlots then
      pure (.failed gas ("pause duration_slots " ++ decimal payload.durationSlots ++
        " outside 1..=" ++ decimal maxPauseDurationSlots))
    else do
      let paused ← isPaused ctx.height
      if paused then pure (.failed gas "chain already paused")
      else do
        let nonce ← readMultisigNonce
        let verdict ← multisigOk P "emergency" payload.sigs gas
          (pure (payload.signingBytes P nonce ctx.chainId, nonce))
        match verdict with
        | .error outcome => pure outcome
        | .ok nonce => do
          let endSlot := satAdd ctx.height payload.durationSlots
          writeEmergencyPauseEndSlot endSlot
          writeMultisigNonce (satAdd nonce 1)
          pure (.done gas (toLe endSlot))

def executeEmergencyResume : StateProg Outcome :=
  match EmergencyResumePayload.decode tx.data with
  | none => pure (.failed 40000 "resume payload malformed")
  | some payload =>
    let gas := multisigGas 40000 payload.sigs
    if tx.gasLimit < gas then pure (.failed tx.gasLimit "resume gas_limit below required cost")
    else do
      let paused ← isPaused ctx.height
      if paused = false then pure (.failed gas "chain already unpaused")
      else do
        let nonce ← readMultisigNonce
        let verdict ← multisigOk P "emergency" payload.sigs gas
          (pure (EmergencyResumePayload.signingBytes P nonce ctx.chainId, nonce))
        match verdict with
        | .error outcome => pure outcome
        | .ok nonce => do
          writeEmergencyPauseEndSlot 0
          writeMultisigNonce (satAdd nonce 1)
          pure (.done gas [])

end

inductive PipelineError where
  | validation (e : ValidationError)
  | executionFailed (reason : String)
deriving DecidableEq

/-- The `Debug` text of a pipeline error. -/
def PipelineError.debug : PipelineError → String
  | validation e => "Validation(" ++ e.debug ++ ")"
  | executionFailed reason => debugText "ExecutionFailed" reason

def chainPaused : PipelineError := .executionFailed "chain paused: only EmergencyResume accepted"

section

variable (P : Prims) (pvm : Pvm) (aot : Bool) (tx : Transaction) (ctx : BlockContext)
  (stateRoot : Hash256)

/-- What `validate_transaction` is told about the block and the sender's vesting. -/
def validationContext (vesting : Option VestingSchedule) : ValidationContext where
  blockHeight := ctx.height
  baseFee := ctx.baseFee
  blockGasLimit := ctx.blockGasLimit
  chainId := ctx.chainId
  devSkipSignature := ctx.devSkipSignature
  senderLocked := (vesting.map fun s => s.lockedAt ctx.height).getD 0
  sigPreVerified := ctx.blockSigsPreVerified

/-- Steps 1 to 3 of `execute_transaction_inner`: load both accounts, validate, use up the nonce. -/
def validateAndUseNonce : StateProg (Except PipelineError (Account × Account)) := do
  let sender ← loadAccount tx.fromAddress
  let rcpt ← loadAccount tx.toAddress
  let nonceState ← loadNonce tx.fromAddress
  let vesting ← readVestingSchedule tx.fromAddress
  match validateTransaction P tx sender nonceState (validationContext ctx vesting) with
  | .error e => pure (.error (.validation e))
  | .ok () =>
    match nonceState.useNonce tx.nonce with
    | .error e => pure (.error (.executionFailed ("nonce error: " ++ e.debug)))
    | .ok used => do
      storeNonce tx.fromAddress used
      pure (.ok (sender, rcpt))

/-- Steps 0 to 3: the pause gate stands before everything else. -/
def admission : StateProg (Except PipelineError (Account × Account)) := do
  let paused ← isPaused ctx.height
  if paused ∧ tx.txType ≠ .emergencyResume then pure (.error chainPaused)
  else validateAndUseNonce P tx ctx

/-- `emit_failed_execution_receipt`: the sender pays the baseline gas as far as the balance goes. -/
def emitFailedExecutionReceipt (sender : Account) (reason : String) : StateProg Receipt := do
  let baselineCost := minGasLimit.setWidth 128 * ctx.baseFee
  let charged := lesser baselineCost sender.balance
  let effectiveGas := if ctx.baseFee = 0 then minGasLimit else (charged / ctx.baseFee).setWidth 64
  applyAccountDelta tx.fromAddress sender { sender with balance := sender.balance - charged }
  pure (generateReceipt P tx false minGasLimit 0 effectiveGas ctx.baseFee [] stateRoot (ascii reason))

/-- Step 5: only `Standard` and `Deploy` move value. -/
def transferFor (sender rcpt : Account) : Except String (Account × Account) :=
  if tx.txType.carriesValue then
    (transferValue sender.balance rcpt.balance tx.value).map fun balances =>
      ({ sender with balance := balances.1 }, { rcpt with balance := balances.2 })
  else .ok (sender, rcpt)

def Transaction.movedValue : U128 := if tx.txType.carriesValue then tx.value else 0

theorem transferFor_ok {tx : Transaction} {sender rcpt payer payee : Account}
    (h : transferFor tx sender rcpt = .ok (payer, payee)) :
    tx.movedValue ≤ sender.balance ∧ payer = { sender with balance := sender.balance - tx.movedValue } ∧
      payee = { rcpt with balance := rcpt.balance + tx.movedValue } := by
  have hnonneg : 0#128 ≤ sender.balance := by bv_omega
  unfold transferFor at h
  unfold Transaction.movedValue
  split at h
  · rename_i hcarries
    rw [if_pos hcarries]
    unfold transferValue at h
    split at h
    · rename_i hzero
      cases h
      simp [hzero, hnonneg]
    split at h
    · cases h
    rename_i henough
    cases h
    exact ⟨BitVec.not_lt.mp henough, rfl, rfl⟩
  · rename_i hcarries
    rw [if_neg hcarries]
    cases h
    simp [hnonneg]

/-- A handler that leaves the sender's record alone. -/
def keepSender (sender : Account) (handler : StateProg Outcome) : StateProg (Outcome × Account) := do
  let outcome ← handler
  pure (outcome, sender)

/-- A handler that changes at most the sender's balance. -/
def withBalance (sender : Account) (handler : U128 → StateProg (Outcome × U128)) :
    StateProg (Outcome × Account) := do
  let (outcome, balance) ← handler sender.balance
  pure (outcome, { sender with balance := balance })

/-- Step 6: the branch of the transaction's type. -/
def dispatch (sender : Account) : StateProg (Outcome × Account) :=
  match tx.txType with
  | .standard =>
    if tx.toAddress ≠ zeroAddress then keepSender sender (executeCall P pvm tx ctx aot)
    else pure (.done 21000 [], sender)
  | .deploy => executeDeploy P pvm tx ctx sender
  | .stakeDeposit => executeStakeDeposit P tx sender
  | .stakeWithdraw => keepSender sender (executeStakeWithdraw tx ctx)
  | .registerPubkey => pure (.done 0 [], { sender with authKeys := .single tx.data })
  | .slash => withBalance sender (executeSlash P tx ctx.chainId)
  | .claimAirdrop => withBalance sender (executeClaimAirdrop P tx ctx)
  | .sweepAirdrop => keepSender sender (executeSweepAirdrop P tx ctx)
  | .multisigTx => keepSender sender (executeMultisigSpend P tx ctx)
  | .rotateMultisig => keepSender sender (executeRotateMultisig P tx ctx)
  | .emergencyPause => keepSender sender (executeEmergencyPause P tx ctx)
  | .emergencyResume => keepSender sender (executeEmergencyResume P tx ctx)
  | .claimReward => executeClaimReward tx sender

/-- Step 7: the sender after the refund, with the gas that is finally charged and the refund. -/
def refundSender (sender : Account) (outcome : Outcome) : Account × Refund :=
  let refund := fun balance =>
    postExecutionRefund outcome.gasUsed tx.gasLimit outcome.gasRefund balance ctx.baseFee
  match tx.feePayer with
  | .sender => ({ sender with balance := (refund sender.balance).feePayerBalance }, refund sender.balance)
  | .gasTank _ => ({ sender with gasTank := (refund sender.gasTank).feePayerBalance }, refund sender.gasTank)
  | .paymaster _ => (sender, refund 0)

/-- Steps 6 to 10, for a sender who has paid for gas and value. -/
def runHandler (senderInitial recipientInitial sender rcpt : Account) : StateProg Receipt := do
  let (outcome, acted) ← dispatch P pvm aot tx ctx sender
  let (final, refund) := refundSender tx ctx acted outcome
  applyAccountDelta tx.fromAddress senderInitial final
  applyAccountDelta tx.toAddress recipientInitial rcpt
  pure (generateReceipt P tx outcome.success outcome.gasUsed refund.actualRefund refund.effectiveGas
    ctx.baseFee outcome.logs stateRoot outcome.returnData)

/-- Steps 4 to 10 of `execute_transaction_inner`. The nonce is used up already, whatever happens here. -/
def perform (sender rcpt : Account) : StateProg (Except PipelineError Receipt) :=
  match preExecutionCharge tx { balance := sender.balance, gasTank := sender.gasTank } ctx.baseFee with
  | .error reason => do
    let receipt ← emitFailedExecutionReceipt P tx ctx stateRoot sender reason
    pure (.ok receipt)
  | .ok (_, purse) =>
    match transferFor tx { sender with balance := purse.balance, gasTank := purse.gasTank } rcpt with
    | .error reason => pure (.error (.executionFailed reason))
    | .ok (payer, payee) => do
      let receipt ← runHandler P pvm aot tx ctx stateRoot sender rcpt payer payee
      pure (.ok receipt)

/-- `execute_transaction_inner`. `stateRoot` is what `smt.root()` answers at the end; an overlay answers
with the root of the state below it. -/
def executeTransaction : StateProg (Except PipelineError Receipt) := do
  let admitted ← admission P tx ctx
  match admitted with
  | .error e => pure (.error e)
  | .ok (sender, rcpt) => perform P pvm aot tx ctx stateRoot sender rcpt

/-- The receipt says that the transaction succeeded. -/
def takesEffect : Except PipelineError Receipt → Bool
  | .ok receipt => receipt.success
  | .error _ => false

/-- Steps 7 to 10, once the handler has answered. -/
def settle (senderInitial recipientInitial rcpt : Account) (res : Outcome × Account) : StateProg Receipt := do
  applyAccountDelta tx.fromAddress senderInitial (refundSender tx ctx res.2 res.1).1
  applyAccountDelta tx.toAddress recipientInitial rcpt
  pure (generateReceipt P tx res.1.success res.1.gasUsed (refundSender tx ctx res.2 res.1).2.actualRefund
    (refundSender tx ctx res.2 res.1).2.effectiveGas ctx.baseFee res.1.logs stateRoot res.1.returnData)

variable {P pvm aot tx ctx stateRoot}

theorem runHandler_eq (senderInitial recipientInitial sender rcpt : Account) :
    runHandler P pvm aot tx ctx stateRoot senderInitial recipientInitial sender rcpt =
      dispatch P pvm aot tx ctx sender >>= settle P tx ctx stateRoot senderInitial recipientInitial rcpt := rfl

theorem success_settle (senderInitial recipientInitial rcpt : Account) (res : Outcome × Account)
    (st : StateMap) :
    (runIn P (settle P tx ctx stateRoot senderInitial recipientInitial rcpt res) st).1.success =
      res.1.success := rfl

end

/-! ### Admission -/

section

variable {P : Prims} {pvm : Pvm} {aot : Bool} {tx : Transaction} {ctx : BlockContext}
  {stateRoot : Hash256} {st : StateMap}

variable (P tx ctx st) in
/-- A transaction is turned away with the state unchanged, or it passed validation against the sender's
record and nonce window, and its nonce is used up. -/
theorem admission_cases :
    (∃ e, runIn P (admission P tx ctx) st = (.error e, st) ∧ (e = chainPaused ∨ ∃ v, e = .validation v)) ∨
    (∃ used, validateTransaction P tx (acctAt P st tx.fromAddress) (storedNonce P st tx.fromAddress)
        (validationContext ctx (storedVesting P st tx.fromAddress)) = .ok () ∧
      (storedNonce P st tx.fromAddress).useNonce tx.nonce = .ok used ∧ runIn P (admission P tx ctx) st =
        (.ok (acctAt P st tx.fromAddress, acctAt P st tx.toAddress),
          (runIn P (storeNonce tx.fromAddress used) st).2)) := by
  unfold admission validateAndUseNonce
  simp only [run_bind, run_isPaused_snd]
  split
  · exact .inl ⟨chainPaused, rfl, .inl rfl⟩
  simp only [run_bind, run_loadAccount, run_loadNonce, run_readVestingSchedule]
  split
  · rename_i v _
    exact .inl ⟨.validation v, rfl, .inr ⟨v, rfl⟩⟩
  rename_i hvalid
  obtain ⟨bit, hbit⟩ := validateTransaction_nonce hvalid
  -- the same check passes again inside `use_nonce`
  have huse := NonceState.useNonce_of_validate hbit
  simp only [huse]
  exact .inr ⟨_, hvalid, rfl, rfl⟩

theorem run_executeTransaction_of_refused {e : PipelineError}
    (hadmission : runIn P (admission P tx ctx) st = (.error e, st)) :
    runIn P (executeTransaction P pvm aot tx ctx stateRoot) st = (.error e, st) := by
  simp only [executeTransaction, run_bind, hadmission]
  rfl

/-- The state in which a handler starts: the nonce of the transaction is used up. -/
def nonceRecorded (P : Prims) (tx : Transaction) (st : StateMap) : StateMap :=
  match (storedNonce P st tx.fromAddress).useNonce tx.nonce with
  | .ok used => (runIn P (storeNonce tx.fromAddress used) st).2
  | .error _ => st

theorem nonceRecorded_of_ok {used : NonceState}
    (huse : (storedNonce P st tx.fromAddress).useNonce tx.nonce = .ok used) :
    (runIn P (storeNonce tx.fromAddress used) st).2 = nonceRecorded P tx st := by
  rw [nonceRecorded, huse]

variable (P pvm aot tx ctx stateRoot st) in
/-- A transaction is turned away with the state unchanged, or it was valid, and `perform` ran on the state
with its nonce used up. -/
theorem executeTransaction_cases :
    (∃ e, runIn P (executeTransaction P pvm aot tx ctx stateRoot) st = (.error e, st)) ∨
    (validateTransaction P tx (acctAt P st tx.fromAddress) (storedNonce P st tx.fromAddress)
        (validationContext ctx (storedVesting P st tx.fromAddress)) = .ok () ∧
      runIn P (executeTransaction P pvm aot tx ctx stateRoot) st =
        runIn P (perform P pvm aot tx ctx stateRoot (acctAt P st tx.fromAddress)
          (acctAt P st tx.toAddress)) (nonceRecorded P tx st)) := by
  rcases admission_cases P tx ctx st with ⟨e, hrefused, -⟩ | ⟨used, hvalid, huse, hadmission⟩
  · exact .inl ⟨e, run_executeTransaction_of_refused hrefused⟩
  · refine .inr ⟨hvalid, ?_⟩
    simp only [executeTransaction, run_bind, hadmission, nonceRecorded, huse]

theorem receipt_of_perform {receipt : Receipt}
    (h : (runIn P (executeTransaction P pvm aot tx ctx stateRoot) st).1 = .ok receipt) :
    (∃ vesting, validateTransaction P tx (acctAt P st tx.fromAddress)
      (storedNonce P st tx.fromAddress) (validationContext ctx vesting) = .ok ()) ∧
    runIn P (executeTransaction P pvm aot tx ctx stateRoot) st =
      runIn P (perform P pvm aot tx ctx stateRoot (acctAt P st tx.fromAddress)
        (acctAt P st tx.toAddress)) (nonceRecorded P tx st) := by
  rcases executeTransaction_cases P pvm aot tx ctx stateRoot st with
    ⟨e, hrefused⟩ | ⟨hvalid, hperform⟩
  · rw [hrefused] at h
    cases h
  · exact ⟨⟨_, hvalid⟩, hperform⟩

def Account.purse (account : Account) : Purse := { balance := account.balance, gasTank := account.gasTank }

/-- The sender once gas is charged. -/
def Account.charged (account : Account) (purse : Purse) : Account :=
  { account with balance := purse.balance, gasTank := purse.gasTank }

variable (P pvm aot tx ctx stateRoot st) in
/-- What `perform` can come to: the charge fails, the transfer fails, or the handler runs. -/
theorem perform_cases (sender rcpt : Account) :
    (∃ reason, preExecutionCharge tx sender.purse ctx.baseFee = .error reason ∧
      runIn P (perform P pvm aot tx ctx stateRoot sender rcpt) st =
        (.ok (runIn P (emitFailedExecutionReceipt P tx ctx stateRoot sender reason) st).1,
          (runIn P (emitFailedExecutionReceipt P tx ctx stateRoot sender reason) st).2)) ∨
    (∃ charge purse, preExecutionCharge tx sender.purse ctx.baseFee = .ok (charge, purse) ∧
      ((∃ reason, transferFor tx (sender.charged purse) rcpt = .error reason ∧
        runIn P (perform P pvm aot tx ctx stateRoot sender rcpt) st =
          (.error (.executionFailed reason), st)) ∨
      (∃ payer payee, transferFor tx (sender.charged purse) rcpt = .ok (payer, payee) ∧
        runIn P (perform P pvm aot tx ctx stateRoot sender rcpt) st =
          (.ok (runIn P (runHandler P pvm aot tx ctx stateRoot sender rcpt payer payee) st).1,
            (runIn P (runHandler P pvm aot tx ctx stateRoot sender rcpt payer payee) st).2)))) := by
  unfold perform
  split
  · rename_i reason hcharge
    exact .inl ⟨reason, hcharge, by simp only [run_bind, run_pure]⟩
  rename_i charge purse hcharge
  refine .inr ⟨charge, purse, hcharge, ?_⟩
  split
  · rename_i reason htransfer
    exact .inl ⟨reason, htransfer, rfl⟩
  · rename_i payer payee htransfer
    exact .inr ⟨payer, payee, htransfer, by simp only [run_bind, run_pure]⟩

end

/-! ### Block fees -/

/-- Credit an account, unless there is nothing to credit. -/
def creditFees (addr : Address) (amt : U128) : StateProg Unit :=
  if 0 < amt then do
    let account ← loadAccount addr
    storeAccount { account with balance := account.balance + amt }
  else pure ()

/-- `apply_block_fees`: the shares of all receipts in two writes. -/
def applyBlockFees (P : Prims) (proposer : Address) (receipts : List Receipt) : StateProg Unit := do
  creditFees proposer (receipts.map Receipt.feeValidator).sum
  creditFees (treasuryAddress P) (receipts.map Receipt.feeTreasury).sum

end Pyde
