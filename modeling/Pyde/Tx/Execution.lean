/-
Module: Pyde.Tx.Execution
Purpose: Gas, fees, value transfer, receipts and the base fee, and the typed reads and writes of the state by the
  pipeline. What `apply_account_delta` writes is exact clear of the sign bit of a signed 128-bit number.
Trusted boundary: Prims; writes to the store do not fail, as in the overlay that blocks execute on
-/
import Pyde.Library.StateProgram
import Pyde.State
import Pyde.Tx.Validation

namespace Pyde

open ByteCodec BitVec

structure LogEntry where
  address : Address
  topics : List (FixedBytes 32)
  data : Bytes
deriving DecidableEq

structure Receipt where
  txHash : Hash256
  success : Bool
  gasUsed : U64
  gasRefund : U64
  effectiveGas : U64
  feePaid : U128
  feeBurned : U128
  feeValidator : U128
  feeTreasury : U128
  logs : List LogEntry
  stateRoot : Hash256
  returnData : Bytes
deriving DecidableEq

/-! ### Charging -/

/-- The balances of the sender that gas is charged to. -/
structure Purse where
  balance : U128
  gasTank : U128
deriving DecidableEq

/-- `pre_execution_charge`: the amount deducted and the balances after it. -/
def preExecutionCharge (tx : Transaction) (purse : Purse) (baseFee : U128) : Except String (U128 × Purse) :=
  match checkedMul (tx.gasLimit.setWidth 128) baseFee with
  | none =>
    .error ("fee overflow: gas_limit (" ++ decimal tx.gasLimit ++ ") * base_fee (" ++
      decimal baseFee ++ ") > u128::MAX")
  | some maxGasCost =>
    match tx.feePayer with
    | .sender =>
      match checkedAdd maxGasCost tx.value with
      | none =>
        .error ("fee overflow: max_gas_cost (" ++ decimal maxGasCost ++ ") + value (" ++
          decimal tx.value ++ ") > u128::MAX")
      | some total =>
        if purse.balance < total then
          .error ("insufficient balance: need " ++ decimal total ++ ", have " ++ decimal purse.balance)
        else .ok (maxGasCost, { purse with balance := purse.balance - maxGasCost })
    | .gasTank _ =>
      if purse.gasTank < maxGasCost then
        .error ("insufficient gas tank: need " ++ decimal maxGasCost ++ ", have " ++ decimal purse.gasTank)
      else if purse.balance < tx.value then
        .error ("insufficient balance for value: need " ++ decimal tx.value ++ ", have " ++ decimal purse.balance)
      else .ok (maxGasCost, { purse with gasTank := purse.gasTank - maxGasCost })
    | .paymaster _ => .ok (0#128, purse)

variable {tx : Transaction} {purse left : Purse} {baseFee charge : U128}

theorem preExecutionCharge_ok (h : preExecutionCharge tx purse baseFee = .ok (charge, left)) :
    tx.gasLimit.toNat * baseFee.toNat < 2 ^ 128 ∧
    ((tx.feePayer = .sender ∧ charge.toNat = tx.gasLimit.toNat * baseFee.toNat ∧
        charge.toNat + tx.value.toNat ≤ purse.balance.toNat ∧
          left = { purse with balance := purse.balance - charge }) ∨
      (∃ addr, tx.feePayer = .gasTank addr ∧ charge.toNat = tx.gasLimit.toNat * baseFee.toNat ∧
        charge ≤ purse.gasTank ∧ tx.value ≤ purse.balance ∧
          left = { purse with gasTank := purse.gasTank - charge }) ∨
      (∃ addr, tx.feePayer = .paymaster addr ∧ charge = 0 ∧ left = purse)) := by
  unfold preExecutionCharge at h
  split at h
  · cases h
  rename_i maxGasCost hmul
  obtain ⟨hfits, hcost⟩ := checkedMul_some hmul
  rw [tx.toNat_limit] at hfits hcost
  refine ⟨hfits, ?_⟩
  split at h
  · rename_i hpayer
    split at h
    · cases h
    rename_i total hadd
    obtain ⟨_, htotal⟩ := checkedAdd_some hadd
    split at h
    · cases h
    rename_i henough
    cases h
    rw [BitVec.not_lt, le_def, htotal] at henough
    exact .inl ⟨hpayer, hcost, henough, rfl⟩
  · rename_i addr hpayer
    split at h
    · cases h
    rename_i htank
    split at h
    · cases h
    rename_i hvalue
    cases h
    exact .inr (.inl ⟨addr, hpayer, hcost, BitVec.not_lt.mp htank, BitVec.not_lt.mp hvalue, rfl⟩)
  · rename_i addr hpayer
    cases h
    exact .inr (.inr ⟨addr, hpayer, rfl, rfl⟩)

theorem toNat_gasCost (h : tx.gasLimit.toNat * baseFee.toNat < 2 ^ 128) :
    (tx.gasLimit.setWidth 128 * baseFee).toNat = tx.gasLimit.toNat * baseFee.toNat := by
  rw [toNat_mul, tx.toNat_limit, Nat.mod_eq_of_lt h]

theorem charge_ne_error {purse : Purse} {reason : String} (hpayer : tx.feePayer = .sender)
    (henough : tx.gasLimit.toNat * baseFee.toNat + tx.value.toNat ≤ purse.balance.toNat) :
    preExecutionCharge tx purse baseFee ≠ .error reason := by
  have hlt := purse.balance.isLt
  have hproduct := toNat_gasCost (show tx.gasLimit.toNat * baseFee.toNat < 2 ^ 128 by omega)
  intro h
  rw [preExecutionCharge, checkedMul, tx.toNat_limit, if_pos (by omega), hpayer] at h
  dsimp only at h
  rw [checkedAdd, hproduct, if_pos (by omega)] at h
  dsimp only at h
  have hsum : (tx.gasLimit.setWidth 128 * baseFee + tx.value).toNat =
      tx.gasLimit.toNat * baseFee.toNat + tx.value.toNat := by
    rw [toNat_add, hproduct]
    exact Nat.mod_eq_of_lt (by omega)
  rw [if_neg (by rw [lt_def, hsum]; omega)] at h
  cases h

/-- `transfer_value`: the balances of sender and recipient afterwards. -/
def transferValue (senderBalance recipientBalance value : U128) : Except String (U128 × U128) :=
  if value = 0 then .ok (senderBalance, recipientBalance)
  else if senderBalance < value then
    .error ("insufficient balance for transfer: need " ++ decimal value ++ ", have " ++ decimal senderBalance)
  else .ok (senderBalance - value, recipientBalance + value)

/-- What `post_execution_refund` returns, with the fee payer's balance after the refund. -/
structure Refund where
  effectiveGas : U64
  actualRefund : U64
  feePayerBalance : U128
deriving DecidableEq

/-- `post_execution_refund`. Gas beyond the limit is not charged; refunds for deleted slots are capped
at half the gas used. -/
def postExecutionRefund (gasUsed gasLimit gasRefundFromSdelete : U64) (feePayerBalance baseFee : U128) : Refund :=
  let actualRefund := lesser gasRefundFromSdelete (gasUsed / 2)
  let unusedGas := gasLimit - lesser gasUsed gasLimit
  let refundAmount := (unusedGas + actualRefund).setWidth 128 * baseFee
  { effectiveGas := gasUsed - actualRefund
    actualRefund := actualRefund
    feePayerBalance := feePayerBalance + refundAmount }

/-! ### Fees and receipts -/

structure FeeDistribution where
  burned : U128
  validator : U128
  treasury : U128
deriving DecidableEq

/-- `distribute_fee`: 70% burned, 20% to the validator, the rest to the treasury. -/
def distributeFee (effectiveGas : U64) (baseFee : U128) : FeeDistribution :=
  let totalFee := effectiveGas.setWidth 128 * baseFee
  let burned := totalFee * 70 / 100
  let validator := totalFee * 20 / 100
  { burned := burned, validator := validator, treasury := totalFee - burned - validator }

def generateReceipt (P : Prims) (tx : Transaction) (success : Bool)
    (gasUsed gasRefund effectiveGas : U64) (baseFee : U128) (logs : List LogEntry)
    (stateRoot : Hash256) (returnData : Bytes) : Receipt :=
  let fee := distributeFee effectiveGas baseFee
  { txHash := tx.hash P
    success := success
    gasUsed := gasUsed
    gasRefund := gasRefund
    effectiveGas := effectiveGas
    feePaid := effectiveGas.setWidth 128 * baseFee
    feeBurned := fee.burned
    feeValidator := fee.validator
    feeTreasury := fee.treasury
    logs := logs
    stateRoot := stateRoot
    returnData := returnData }

/-! ### Base fee and block reward -/

def gasTarget : U64 := 400000000#64

def gasCeiling : U64 := 1600000000#64

def minBaseFee : U128 := 1#128

/-- `adjust_base_fee`: an eighth of the relative distance from the target, at least one quantum. -/
def adjustBaseFee (parentBaseFee : U128) (parentGasUsed parentGasTarget : U64) : U128 :=
  if parentGasTarget = 0 ∨ parentGasUsed = parentGasTarget then parentBaseFee
  else if parentGasTarget < parentGasUsed then
    let gasDelta := parentGasUsed - parentGasTarget
    let feeDelta := parentBaseFee * gasDelta.setWidth 128 / parentGasTarget.setWidth 128 / 8
    greater (parentBaseFee + greater feeDelta 1) minBaseFee
  else
    let gasDelta := parentGasTarget - parentGasUsed
    let feeDelta := parentBaseFee * gasDelta.setWidth 128 / parentGasTarget.setWidth 128 / 8
    greater (satSub parentBaseFee (if 0 < gasDelta then greater feeDelta 1 else feeDelta)) minBaseFee

def blocksPerYear : U64 := 78892800#64

def genesisTotalSupply : U128 := 1000000000000000000#128

def inflationRateBps (year : U64) : U64 :=
  match year.toNat with
  | 0 => 500
  | 1 => 300
  | 2 => 200
  | _ => 100

def blockReward (slot : U64) : U128 :=
  let rate := (inflationRateBps (slot / blocksPerYear)).setWidth 128
  genesisTotalSupply / blocksPerYear.setWidth 128 * rate / 10000

end Pyde

namespace Pyde

open ByteCodec StateProgram BitVec

/-- A piece of the pipeline that reads and writes state. -/
abbrev StateProg := Prog StateKey Bytes

/-- A stored value reads back unless it is empty, which stands for deletion. -/
def stored (value : Bytes) : Option Bytes := if value = [] then none else some value

/-! ### Fixed-width values -/

/-- The machine integer at a key, if the stored value is long enough. -/
def readInt (w : Nat) (key : StateKey) : StateProg (Option (BitVec w)) := do
  let value ← Prog.read key
  pure (value.bind fun b => if b.length < w / 8 then none else some (ofLe w (slice b 0 (w / 8))))

def writeInt {w : Nat} (key : StateKey) (value : BitVec w) : StateProg Unit := Prog.write key (toLe value)

/-- The integer at a global key, with the default for an absent one. -/
def readGlobal (w : Nat) (field : GlobalField) (default : BitVec w) : StateProg (BitVec w) := do
  let value ← readInt w (.single field)
  pure (value.getD default)

def writeGlobal {w : Nat} (field : GlobalField) (value : BitVec w) : StateProg Unit := writeInt (.single field) value

def readRewardsPerValidator : StateProg U128 := readGlobal 128 .rewardsPerValidator 0

def writeRewardsPerValidator (value : U128) : StateProg Unit := writeGlobal .rewardsPerValidator value

def readTotalSupply : StateProg U128 := readGlobal 128 .supply genesisTotalSupply

def writeTotalSupply (value : U128) : StateProg Unit := writeGlobal .supply value

def readTotalBurned : StateProg U128 := readGlobal 128 .totalBurned 0

def writeTotalBurned (value : U128) : StateProg Unit := writeGlobal .totalBurned value

def readActiveValidatorCount : StateProg U64 := readGlobal 64 .activeValidatorCount 0

def incrementActiveValidatorCount : StateProg Unit := do
  let n ← readActiveValidatorCount
  writeGlobal .activeValidatorCount (satAdd n 1)

def decrementActiveValidatorCount : StateProg Unit := do
  let n ← readActiveValidatorCount
  writeGlobal .activeValidatorCount (satSub n 1)

def readMultisigNonce : StateProg U64 := readGlobal 64 .multisigNonce 0

def writeMultisigNonce (n : U64) : StateProg Unit := writeGlobal .multisigNonce n

def readEmergencyPauseEndSlot : StateProg U64 := readGlobal 64 .emergencyPauseEndSlot 0

def writeEmergencyPauseEndSlot (endSlot : U64) : StateProg Unit := writeGlobal .emergencyPauseEndSlot endSlot

/-- `is_paused`: a pause whose end has passed needs no clearing. -/
def isPaused (currentSlot : U64) : StateProg Bool := do
  let endSlot ← readEmergencyPauseEndSlot
  pure (currentSlot < endSlot)

def readAirdropDeadline : StateProg (Option U64) := readInt 64 (.single .airdropDeadline)

/-! ### Other configuration -/

def readVestingSchedule (addr : Address) : StateProg (Option VestingSchedule) := do
  let bytes ← Prog.read (.account addr .vesting)
  pure (bytes.bind VestingSchedule.decode)

def readValidatorSubsidy : StateProg (Option ValidatorSubsidySchedule) := do
  let bytes ← Prog.read (.single .validatorSubsidy)
  pure (bytes.bind ValidatorSubsidySchedule.decode)

def readMultisigSigners : StateProg (Option (List Bytes)) := do
  let bytes ← Prog.read (.single .multisigSigners)
  pure (bytes.bind decodeSignerSet)

def writeMultisigSigners (pks : List Bytes) : StateProg Unit :=
  Prog.write (.single .multisigSigners) (encodeSignerSet pks)

def readMultisigThreshold : StateProg U8 := do
  let bytes ← Prog.read (.single .multisigThreshold)
  pure ((bytes.bind List.head?).getD 0)

def writeMultisigThreshold (t : U8) : StateProg Unit := Prog.write (.single .multisigThreshold) [t]

def readAirdropRoot : StateProg (Option Hash256) := do
  let bytes ← Prog.read (.single .airdropRoot)
  pure (bytes.bind fun b => if b.length = 32 then fixedAt 32 b 0 else none)

def isAirdropClaimed (leafIndex : U64) : StateProg Bool := do
  let marker ← Prog.read (.indexed .airdropClaimed leafIndex)
  pure marker.isSome

def markAirdropClaimed (leafIndex : U64) : StateProg Unit := Prog.write (.indexed .airdropClaimed leafIndex) [0x01]

/-! ### Accounts -/

def loadAccount (addr : Address) : StateProg Account := do
  let bytes ← Prog.read (.account addr .balance)
  pure ((bytes.bind Account.fromBytes).getD (Account.empty addr))

/-- `store_account`: under the address that the record itself names. -/
def storeAccount (account : Account) : StateProg Unit :=
  Prog.write (.account account.address .balance) account.toBytes

/-- Add the difference `final - initial`, read as a signed number, without wrapping. -/
def applyDelta (cur initial final : U128) : U128 :=
  let delta := final - initial
  if delta.msb then satSub cur (-delta) else satAdd cur delta

/-- `apply_account_delta`: what the pipeline changed in its copy of an account is applied to the record
as it is now. -/
def applyAccountDelta (addr : Address) (initial final : Account) : StateProg Unit := do
  let cur ← loadAccount addr
  storeAccount
    { cur with
      balance := applyDelta cur.balance initial.balance final.balance
      gasTank := applyDelta cur.gasTank initial.gasTank final.gasTank
      authKeys := if final.authKeys ≠ initial.authKeys then final.authKeys else cur.authKeys
      nonce := if final.nonce ≠ initial.nonce then final.nonce else cur.nonce }

def loadNonce (addr : Address) : StateProg NonceState := do
  let bytes ← Prog.read (.account addr .nonce)
  pure ((bytes.bind NonceState.fromBytes).getD NonceState.new)

def storeNonce (addr : Address) (nonce : NonceState) : StateProg Unit :=
  Prog.write (.account addr .nonce) nonce.toBytes

def loadCode (addr : Address) : StateProg (Option Bytes) := Prog.read (.account addr .code)

def storeCode (addr : Address) (code : Bytes) : StateProg Unit := Prog.write (.account addr .code) code

/-! ### What a state holds -/

/-- The state of the chain, under hashed keys. -/
abbrev StateMap := Store Hash256 Bytes

/-- Run a piece of the pipeline on a state. -/
abbrev runIn {α : Type} (P : Prims) (program : StateProg α) (st : StateMap) : α × StateMap :=
  run stored (StateKey.hash P) program st

def acctAt (P : Prims) (st : StateMap) (addr : Address) : Account :=
  ((st (balanceKey P addr)).bind Account.fromBytes).getD (Account.empty addr)

/-- The nonce window of an account. -/
def storedNonce (P : Prims) (st : StateMap) (addr : Address) : NonceState :=
  ((st (nonceKey P addr)).bind NonceState.fromBytes).getD NonceState.new

/-- The vesting schedule of an account, if there is one. -/
def storedVesting (P : Prims) (st : StateMap) (addr : Address) : Option VestingSchedule :=
  (st (vestingKey P addr)).bind VestingSchedule.decode

variable (P : Prims) (addr : Address) (st : StateMap)

@[simp] theorem run_loadAccount :
    runIn P (loadAccount addr) st = (acctAt P st addr, st) := rfl

@[simp] theorem run_loadNonce : runIn P (loadNonce addr) st = (storedNonce P st addr, st) := rfl

@[simp] theorem run_isPaused_snd (slot : U64) (st : StateMap) :
    (runIn P (isPaused slot) st).2 = st := rfl

variable {α : Type} {P : Prims} {st : StateMap} (addr : Address)

theorem run_loadAccount_bind (next : Account → StateProg α) :
    runIn P (loadAccount addr >>= next) st = runIn P (next (acctAt P st addr)) st := rfl

theorem run_isPaused_bind (slot : U64) (next : Bool → StateProg α) :
    runIn P (isPaused slot >>= next) st = runIn P (next (runIn P (isPaused slot) st).1) st := rfl

@[simp] theorem run_readVestingSchedule :
    runIn P (readVestingSchedule addr) st = (storedVesting P st addr, st) := rfl

theorem storedNonce_storeNonce (nonce : NonceState) :
    storedNonce P (runIn P (storeNonce addr nonce) st).2 addr = nonce := by
  have hne : nonce.toBytes ≠ [] := by
    intro h
    have hlen := congrArg List.length h
    simp [NonceState.toBytes] at hlen
  simp [storedNonce, storeNonce, StateProgram.insert, nonceKey, stored, hne, NonceState.fromBytes_toBytes]

end Pyde

namespace Pyde

open ByteCodec StateProgram BitVec

section

variable {P : Prims} {st : StateMap} {addr : Address}

/-! ### Reading back -/

theorem stored_toBytes (account : Account) : stored account.toBytes = some account.toBytes := by
  have hne : account.toBytes ≠ [] := by
    intro h
    have hlen := Account.length_toBytes account
    rw [h, List.length_nil] at hlen
    omega
  rw [stored, if_neg hne]

variable (P st addr) in
theorem storable_acctAt : (acctAt P st addr).authKeys.Storable := by
  unfold acctAt
  cases hread : (st (balanceKey P addr)).bind Account.fromBytes with
  | none => exact AuthKeys.storable_none
  | some account =>
    obtain ⟨bytes, -, hbytes⟩ := Option.bind_eq_some_iff.mp hread
    exact Account.storable_of_fromBytes hbytes

theorem acctAt_of_bytes {account : Account} (hstorable : account.authKeys.Storable)
    (h : st (balanceKey P addr) = some account.toBytes) : acctAt P st addr = account := by
  rw [acctAt, h, Option.bind_some, Account.fromBytes_toBytes hstorable, Option.getD_some]

theorem acctAt_insert_self {account : Account} (hstorable : account.authKeys.Storable) :
    acctAt P (StateProgram.insert stored st (balanceKey P addr) account.toBytes) addr = account := by
  apply acctAt_of_bytes hstorable
  rw [StateProgram.insert, Function.update_self, stored_toBytes]

theorem acctAt_insert_of_ne {location : Hash256} (h : balanceKey P addr ≠ location) (value : Bytes) :
    acctAt P (StateProgram.insert stored st location value) addr = acctAt P st addr := by
  rw [acctAt, StateProgram.insert, Function.update_of_ne h, acctAt]

/-! ### Writing back -/

variable (P st addr) in
/-- The record of the address is stored under the address it names. -/
def Filed : Prop := (acctAt P st addr).address = addr

instance : Decidable (Filed P st addr) :=
  inferInstanceAs (Decidable ((acctAt P st addr).address = addr))

def Account.setBalance (account : Account) (balance : U128) : Account := { account with balance := balance }

theorem run_storeBalance {account : Account} (h : account.address = addr) (balance : U128) (after : StateMap) :
    runIn P (storeAccount { account with balance := balance }) after =
      ((), StateProgram.insert stored after (balanceKey P addr) { account with balance := balance }.toBytes) := by
  subst h
  rfl

/-- The record that `apply_account_delta` stores. -/
def Account.deltaApplied (cur initial final : Account) : Account :=
  { cur with
    balance := applyDelta cur.balance initial.balance final.balance
    gasTank := applyDelta cur.gasTank initial.gasTank final.gasTank
    authKeys := if final.authKeys ≠ initial.authKeys then final.authKeys else cur.authKeys
    nonce := if final.nonce ≠ initial.nonce then final.nonce else cur.nonce }

theorem run_applyAccountDelta (hfiled : Filed P st addr) (initial final : Account) :
    runIn P (applyAccountDelta addr initial final) st =
      ((), StateProgram.insert stored st (balanceKey P addr)
        ((acctAt P st addr).deltaApplied initial final).toBytes) := by
  have hkey : ((acctAt P st addr).deltaApplied initial final).address = addr := hfiled
  simp only [applyAccountDelta, run_bind, run_loadAccount, storeAccount, run_write]
  change ((), StateProgram.insert stored st
    (balanceKey P ((acctAt P st addr).deltaApplied initial final).address) _) = _
  rw [hkey]
  rfl

theorem applyDelta_add {cur gain : U128} (initial : U128) (hsmall : gain.toNat < 2 ^ 127)
    (hfits : cur.toNat + gain.toNat < 2 ^ 128) :
    (applyDelta cur initial (initial + gain)).toNat = cur.toNat + gain.toNat := by
  have hdelta : initial + gain - initial = gain := by bv_omega
  have hsign : gain.msb = false := by
    rw [msb_eq_decide]
    exact decide_eq_false (by omega)
  unfold applyDelta satAdd
  rw [hdelta]
  dsimp only
  rw [hsign, if_neg (by decide), if_pos hfits, toNat_add, Nat.mod_eq_of_lt hfits]

@[simp] theorem applyDelta_same (cur initial : U128) : applyDelta cur initial initial = cur := by
  apply eq_of_toNat_eq
  have hzero : (applyDelta cur initial (initial + 0)).toNat = cur.toNat + (0 : U128).toNat :=
    applyDelta_add initial (by decide) cur.isLt
  have hadd : initial + 0 = initial := by simp
  rw [hadd] at hzero
  exact hzero

theorem applyDelta_sub {cur loss : U128} (initial : U128) (hsmall : loss.toNat ≤ 2 ^ 127)
    (henough : loss ≤ cur) : (applyDelta cur initial (initial - loss)).toNat =
      cur.toNat - loss.toNat := by
  by_cases hzero : loss = 0
  · rw [hzero]
    simp
  have hdelta : initial - loss - initial = -loss := by bv_omega
  have hpos : loss.toNat ≠ 0 := fun h => hzero (eq_of_toNat_eq h)
  have hsign : (-loss).msb = true := by
    rw [msb_eq_decide, toNat_neg]
    exact decide_eq_true (by omega)
  unfold applyDelta satSub
  rw [hdelta]
  dsimp only
  rw [hsign, if_pos rfl, BitVec.neg_neg, if_pos henough, toNat_sub_of_le henough]

/-- Below the sign bit, what was changed in a copy of the amount is applied to the amount. -/
theorem applyDelta_exact {cur initial final : U128} (hinitial : initial.toNat < 2 ^ 127)
    (hfinal : final.toNat < 2 ^ 127) (hlow : initial.toNat ≤ cur.toNat + final.toNat)
    (hhigh : cur.toNat + final.toNat < 2 ^ 128 + initial.toNat) :
    (applyDelta cur initial final).toNat + initial.toNat = cur.toNat + final.toNat := by
  by_cases hle : initial ≤ final
  · have hchange : final = initial + (final - initial) := by bv_omega
    have hgain : (final - initial).toNat = final.toNat - initial.toNat := toNat_sub_of_le hle
    have hnat := BitVec.le_def.mp hle
    rw [hchange, applyDelta_add initial (by omega) (by omega), ← hchange]
    omega
  have hlt : final ≤ initial := by bv_omega
  have hchange : final = initial - (initial - final) := by bv_omega
  have hloss : (initial - final).toNat = initial.toNat - final.toNat := toNat_sub_of_le hlt
  have hnat := BitVec.le_def.mp hlt
  have henough : initial - final ≤ cur := by
    rw [le_def]
    omega
  rw [hchange, applyDelta_sub initial (by omega) henough, ← hchange]
  omega

/-- What was changed in a copy of the record ends up in the record. -/
theorem applyDelta_self {initial final : U128} (hinitial : initial.toNat < 2 ^ 127)
    (hfinal : final.toNat < 2 ^ 127) : applyDelta initial initial final = final := by
  have hexact : (applyDelta initial initial final).toNat + initial.toNat = initial.toNat + final.toNat :=
    applyDelta_exact hinitial hfinal (Nat.le_add_right _ _) (by omega)
  exact eq_of_toNat_eq (by omega)

end

end Pyde
