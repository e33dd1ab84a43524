/-
Module: Pyde.Tx.FailedExecution
Purpose: What a failed transaction leaves behind. A handler that fails has written nothing; what remains
  is the nonce, the gas, and the value, which a failed contract call keeps.
Trusted boundary: Prims, Pvm
-/
import Pyde.Tx.ReplayProtection
import Pyde.Tx.FeeAccounting

namespace Pyde

open ByteCodec StateProgram BitVec Function

variable {sender debited : Account} {addr : Address} {balance charge fee moved : U128}

/-! ### A handler that fails has written nothing -/

/-- A result that says the transaction failed. -/
def Outcome.Failed (outcome : Outcome) : Prop := outcome.success = false

/-- The program writes nothing if it fails, and then hands back what it was given. -/
structure FailsClean {β : Type} (given : β) (program : StateProg (Outcome × β)) : Prop where
  clean : program.CleanWhen fun res => res.1.Failed
  kept : program.Returns fun res => res.1.Failed → res.2 = given

section

variable {P : Prims} {pvm : Pvm} {aot : Bool} {tx : Transaction} {ctx : BlockContext}
  {α β : Type} {given : β}

theorem not_failed_of_success {outcome : Outcome} (h : outcome.success = true) : ¬ outcome.Failed := by
  rw [Outcome.Failed, h]
  exact Bool.noConfusion

theorem FailsClean.giveUp (outcome : Outcome) : FailsClean given (pure (outcome, given)) :=
  ⟨Prog.cleanWhen_pure _, fun _ => rfl⟩

theorem FailsClean.of_success {program : StateProg (Outcome × β)}
    (h : program.Returns fun res => res.1.success = true) : FailsClean given program := by
  have hnot := Prog.Returns.mono (fun res hsuccess => not_failed_of_success (hsuccess : res.1.success = true)) h
  exact ⟨Prog.CleanWhen.of_returns hnot, Prog.Returns.mono (fun _ hnot hfailed => absurd hfailed hnot) hnot⟩

theorem FailsClean.read {reader : StateProg α} {next : α → StateProg (Outcome × β)}
    (hreader : reader.Writes fun _ => False) (hnext : ∀ a, FailsClean given (next a)) :
    FailsClean given (reader >>= next) :=
  ⟨Prog.CleanWhen.bind hreader fun a => (hnext a).clean, Prog.Returns.bind fun a => (hnext a).kept⟩

theorem FailsClean.keepSender {handler : StateProg Outcome} (h : handler.CleanWhen Outcome.Failed) :
    FailsClean sender (keepSender sender handler) :=
  ⟨h.map fun _ hfailed => hfailed, Prog.Returns.bind fun _ _ => rfl⟩

theorem FailsClean.withBalance {handler : U128 → StateProg (Outcome × U128)}
    (h : FailsClean sender.balance (handler sender.balance)) : FailsClean sender (withBalance sender handler) := by
  refine ⟨h.clean.map fun _ hfailed => hfailed, h.kept.bind_of ?_⟩
  rintro ⟨outcome, balance⟩ hkept hfailed
  rw [show balance = sender.balance from hkept hfailed]

/-- The same for a handler that does not touch the sender's record. -/
theorem cleanWhen_of_success {program : StateProg Outcome}
    (h : program.Returns fun outcome => outcome.success = true) : program.CleanWhen Outcome.Failed :=
  Prog.CleanWhen.of_returns (Prog.Returns.mono (fun _ => not_failed_of_success) h)

theorem failsClean_executeInPvm (code : Bytes) : (executeInPvm P pvm tx ctx aot code).CleanWhen Outcome.Failed := by
  refine .bind (Query.writes_toProg _) fun out => ?_
  split
  · rename_i hsuccess
    apply cleanWhen_of_success
    exact .bind fun _ => Prog.Returns.bind fun _ => hsuccess
  · exact Prog.cleanWhen_pure _

theorem failsClean_executeCall : (executeCall P pvm tx ctx aot).CleanWhen Outcome.Failed := by
  refine .bind (Prog.writes_read _) fun code => ?_
  cases code with
  | some code => exact failsClean_executeInPvm code
  | none => exact Prog.cleanWhen_pure _

variable (balance : U128) (sender : Account)

theorem failsClean_executeDeploy : FailsClean sender (executeDeploy P pvm tx ctx sender) :=
  FailsClean.of_success (Prog.Returns.bind fun _ => rfl)

theorem failsClean_executeStakeDeposit : FailsClean sender (executeStakeDeposit P tx sender) := by
  unfold executeStakeDeposit
  split
  · exact .giveUp _
  split
  · exact .giveUp _
  split
  · exact .giveUp _
  refine .read (Prog.writes_read _) fun existing => ?_
  cases existing with
  | some entry => exact .giveUp _
  | none => exact .of_success (Prog.Returns.bind fun _ => rfl)

theorem failsClean_executeStakeWithdraw : (executeStakeWithdraw tx ctx).CleanWhen Outcome.Failed := by
  refine .bind (Prog.writes_read _) fun valData => ?_
  split
  · exact Prog.cleanWhen_pure _
  split
  · exact Prog.cleanWhen_pure _
  split
  · apply cleanWhen_of_success
    exact .bind fun _ => Prog.Returns.bind fun _ => rfl
  · exact Prog.cleanWhen_pure _

theorem failsClean_executeClaimReward : FailsClean sender (executeClaimReward tx sender) := by
  refine .read (Prog.writes_read _) fun valData => ?_
  split
  · exact .giveUp _
  split
  · exact .giveUp _
  split
  · exact .giveUp _
  refine .read (writes_readGlobal 128 _ _) fun cur => ?_
  dsimp only
  split
  · exact .of_success (Prog.Returns.bind fun _ => rfl)
  · exact .giveUp _

theorem failsClean_executeSlash : FailsClean balance (executeSlash P tx ctx.chainId balance) := by
  unfold executeSlash
  split
  · exact .giveUp _
  split
  · exact .giveUp _
  refine .read (Prog.writes_read _) fun valData => ?_
  split
  · exact .giveUp _
  split
  · exact .giveUp _
  split
  · exact .giveUp _
  split
  · exact .giveUp _
  · exact .of_success (Prog.Returns.bind fun _ => rfl)

theorem failsClean_executeClaimAirdrop : FailsClean balance (executeClaimAirdrop P tx ctx balance) := by
  unfold executeClaimAirdrop
  split
  · exact .giveUp _
  dsimp only
  split
  · exact .giveUp _
  refine .read (writes_readInt 64 _) fun deadline => ?_
  split
  · exact .giveUp _
  split
  · exact .giveUp _
  refine .read writes_readAirdropRoot fun root => ?_
  split
  · exact .giveUp _
  refine .read (writes_isAirdropClaimed _) fun claimed => ?_
  split
  · exact .giveUp _
  split
  · exact .giveUp _
  refine .read (writes_loadAccount _) fun pool => ?_
  split
  · exact .giveUp _
  · exact .of_success (Prog.Returns.bind fun _ => Prog.Returns.bind fun _ => rfl)

theorem failsClean_executeSweepAirdrop : (executeSweepAirdrop P tx ctx).CleanWhen Outcome.Failed := by
  unfold executeSweepAirdrop
  split
  · exact Prog.cleanWhen_pure _
  refine .bind (writes_readInt 64 _) fun deadline => ?_
  split
  · exact Prog.cleanWhen_pure _
  split
  · exact Prog.cleanWhen_pure _
  refine .bind (writes_loadAccount _) fun pool => ?_
  split
  · exact Prog.cleanWhen_pure _
  · apply cleanWhen_of_success
    exact .bind fun _ => Prog.Returns.bind fun _ => Prog.Returns.bind fun _ => rfl

theorem cleanWhen_after_multisigOk {label : String} {sigs : List SigEntry} {gas : U64}
    {signing : StateProg (Bytes × U64)} {next : Except Outcome U64 → StateProg Outcome}
    (hsigning : signing.Writes fun _ => False) (herror : ∀ outcome, next (.error outcome) = pure outcome)
    (hok : ∀ nonce, (next (.ok nonce)).CleanWhen Outcome.Failed) :
    (multisigOk P label sigs gas signing >>= next).CleanWhen Outcome.Failed := by
  refine .bind (writes_multisigOk hsigning) fun verdict => ?_
  cases verdict with
  | error outcome =>
    rw [herror]
    exact Prog.cleanWhen_pure _
  | ok nonce => exact hok nonce

theorem failsClean_executeMultisigSpend : (executeMultisigSpend P tx ctx).CleanWhen Outcome.Failed := by
  unfold executeMultisigSpend
  split
  · exact Prog.cleanWhen_pure _
  · exact Prog.cleanWhen_pure _
  dsimp only
  split
  · exact Prog.cleanWhen_pure _
  split
  · exact Prog.cleanWhen_pure _
  refine cleanWhen_after_multisigOk writes_signing (fun _ => rfl) fun nonce => ?_
  refine .bind (writes_loadAccount _) fun treasury => ?_
  split
  · exact Prog.cleanWhen_pure _
  apply cleanWhen_of_success
  exact .bind fun _ => Prog.Returns.bind fun _ => Prog.Returns.bind fun _ =>
    Prog.Returns.bind fun _ => rfl

theorem failsClean_executeRotateMultisig : (executeRotateMultisig P tx ctx).CleanWhen Outcome.Failed := by
  unfold executeRotateMultisig
  split
  · exact Prog.cleanWhen_pure _
  · exact Prog.cleanWhen_pure _
  dsimp only
  split
  · exact Prog.cleanWhen_pure _
  split
  · exact Prog.cleanWhen_pure _
  refine cleanWhen_after_multisigOk writes_signing (fun _ => rfl) fun nonce => ?_
  apply cleanWhen_of_success
  exact .bind fun _ => Prog.Returns.bind fun _ => Prog.Returns.bind fun _ => rfl

theorem failsClean_executeEmergencyPause : (executeEmergencyPause P tx ctx).CleanWhen Outcome.Failed := by
  unfold executeEmergencyPause
  split
  · exact Prog.cleanWhen_pure _
  dsimp only
  split
  · exact Prog.cleanWhen_pure _
  split
  · exact Prog.cleanWhen_pure _
  refine .bind (writes_isPaused _) fun paused => ?_
  split
  · exact Prog.cleanWhen_pure _
  refine .bind (writes_readGlobal 64 _ _) fun nonce => ?_
  refine cleanWhen_after_multisigOk (Prog.writes_pure _) (fun _ => rfl) fun nonce => ?_
  apply cleanWhen_of_success
  exact .bind fun _ => Prog.Returns.bind fun _ => rfl

theorem failsClean_executeEmergencyResume : (executeEmergencyResume P tx ctx).CleanWhen Outcome.Failed := by
  unfold executeEmergencyResume
  split
  · exact Prog.cleanWhen_pure _
  dsimp only
  split
  · exact Prog.cleanWhen_pure _
  refine .bind (writes_isPaused _) fun paused => ?_
  split
  · exact Prog.cleanWhen_pure _
  refine .bind (writes_readGlobal 64 _ _) fun nonce => ?_
  refine cleanWhen_after_multisigOk (Prog.writes_pure _) (fun _ => rfl) fun nonce => ?_
  apply cleanWhen_of_success
  exact .bind fun _ => Prog.Returns.bind fun _ => rfl

variable (P pvm aot tx ctx) in
/-- Whatever its type, a transaction whose handler fails has written nothing by then. -/
theorem failsClean_dispatch : FailsClean sender (dispatch P pvm aot tx ctx sender) := by
  unfold dispatch
  cases tx.txType with
  | standard =>
    dsimp only
    split
    · exact .keepSender failsClean_executeCall
    · exact .giveUp _
  | deploy => exact failsClean_executeDeploy sender
  | stakeDeposit => exact failsClean_executeStakeDeposit sender
  | stakeWithdraw => exact .keepSender failsClean_executeStakeWithdraw
  | registerPubkey => exact .of_success rfl
  | slash => exact .withBalance (failsClean_executeSlash sender.balance)
  | claimAirdrop => exact .withBalance (failsClean_executeClaimAirdrop sender.balance)
  | sweepAirdrop => exact .keepSender failsClean_executeSweepAirdrop
  | multisigTx => exact .keepSender failsClean_executeMultisigSpend
  | rotateMultisig => exact .keepSender failsClean_executeRotateMultisig
  | emergencyPause => exact .keepSender failsClean_executeEmergencyPause
  | emergencyResume => exact .keepSender failsClean_executeEmergencyResume
  | claimReward => exact failsClean_executeClaimReward sender

end

/-! ### What a failed transaction may change -/

section

variable (P : Prims) (pvm : Pvm) (aot : Bool) (tx : Transaction) (ctx : BlockContext)
  (st : StateMap)

/-- The account that is to pay for gas. -/
def payerAddress : Address :=
  match tx.feePayer with
  | .paymaster addr => addr
  | _ => tx.fromAddress

/-- Gas is paid from the sender's gas tank. If the tank is too low, the balance pays the baseline. -/
def paysFromTank (sender : Account) : Bool :=
  match tx.feePayer, preExecutionCharge tx sender.purse ctx.baseFee with
  | .gasTank _, .ok _ => true
  | _, _ => false

/-- The account with a fee taken off, if it has enough. -/
def Account.debit (account : Account) (fromTank : Bool) (fee : U128) : Option Account :=
  if fromTank then
    if fee ≤ account.gasTank then some { account with gasTank := account.gasTank - fee } else none
  else
    if fee ≤ account.balance then some { account with balance := account.balance - fee } else none

/-- The states differ in the sender's nonce window and in the payer's record only, and there by the
fee. -/
def OnlyGasPaid (st' : StateMap) (fee : U128) : Prop :=
  (∀ location, location ≠ nonceKey P tx.fromAddress → location ≠ balanceKey P (payerAddress tx) →
    st' location = st location) ∧ (acctAt P st (payerAddress tx)).debit
    (paysFromTank tx ctx (acctAt P st tx.fromAddress)) fee = some (acctAt P st' (payerAddress tx))

/-- The records a failed transaction has to do with. -/
def recordKeys : Set StateKey :=
  { .account tx.fromAddress .nonce, .account tx.fromAddress .balance, .account tx.toAddress .balance,
    .account (payerAddress tx) .balance }

/-- The records of sender and recipient are stored under their own addresses, and their amounts are
clear of the sign bit. -/
structure SoundRecords : Prop where
  sender : Filed P st tx.fromAddress
  recipient : Filed P st tx.toAddress
  balance : (acctAt P st tx.fromAddress).balance.toNat < 2 ^ 127
  gasTank : (acctAt P st tx.fromAddress).gasTank.toNat < 2 ^ 127
  recipientBalance : (acctAt P st tx.toAddress).balance.toNat < 2 ^ 127

/-- The records that are written back without being the payer's are present already, as they would be
written. -/
def RecordsPresent : Prop :=
  ∀ addr, addr = tx.fromAddress ∨ addr = tx.toAddress → addr ≠ payerAddress tx →
    st (balanceKey P addr) = some (acctAt P st addr).toBytes

end

section

variable {P : Prims} {pvm : Pvm} {aot : Bool} {tx : Transaction} {ctx : BlockContext}
  {st : StateMap}

variable {location stateRoot : Hash256} {cur account rcpt payer payee : Account}

theorem nonceRecorded_of_ne (h : location ≠ nonceKey P tx.fromAddress) :
    nonceRecorded P tx st location = st location := by
  unfold nonceRecorded
  cases (storedNonce P st tx.fromAddress).useNonce tx.nonce with
  | ok used => exact update_of_ne h _ _
  | error e => rfl

theorem acctAt_nonceRecorded (h : balanceKey P addr ≠ nonceKey P tx.fromAddress) :
    acctAt P (nonceRecorded P tx st) addr = acctAt P st addr := by
  rw [acctAt, nonceRecorded_of_ne h, acctAt]

theorem acctAt_noted {keys : Set StateKey} (hinj : HashApart P keys)
    (hnonce : .account tx.fromAddress .nonce ∈ keys) (haddr : .account addr .balance ∈ keys) :
    acctAt P (nonceRecorded P tx st) addr = acctAt P st addr := by
  apply acctAt_nonceRecorded
  intro heq
  cases hinj haddr hnonce heq

theorem balanceKey_ne_nonceKey (hinj : HashApart P (recordKeys tx))
    (haddr : .account addr .balance ∈ recordKeys tx) :
    balanceKey P addr ≠ nonceKey P tx.fromAddress := by
  intro heq
  have hkey := hinj haddr (.inl rfl) heq
  cases hkey

theorem balanceKey_ne (hinj : HashApart P (recordKeys tx)) {other : Address}
    (haddr : .account addr .balance ∈ recordKeys tx)
    (hother : .account other .balance ∈ recordKeys tx) (hne : addr ≠ other) :
    balanceKey P addr ≠ balanceKey P other := by
  intro heq
  have hkey := hinj haddr hother heq
  cases hkey
  exact hne rfl

theorem sender_mem_recordKeys : .account tx.fromAddress .balance ∈ recordKeys tx := Or.inr (.inl rfl)

theorem recipient_mem_recordKeys : .account tx.toAddress .balance ∈ recordKeys tx := Or.inr (.inr (.inl rfl))

theorem payer_mem_recordKeys : .account (payerAddress tx) .balance ∈ recordKeys tx := Or.inr (.inr (.inr rfl))

/-! ### The sender's record -/

/-- The record with an amount paid out. -/
abbrev Account.less (account : Account) (amt : U128) : Account :=
  { account with balance := account.balance - amt }

/-- The record with an amount paid in. -/
abbrev Account.plus (account : Account) (amt : U128) : Account :=
  { account with balance := account.balance + amt }

theorem Account.less_zero (account : Account) : account.less 0 = account := by simp [less]

theorem Account.plus_zero (account : Account) : account.plus 0 = account := by simp [plus]

section

variable {refund : U128} (hsum : fee.toNat + refund.toNat = charge.toNat) (henough : charge ≤ balance)
include hsum henough

theorem refunded_balance : fee ≤ balance ∧ balance - charge + refund = balance - fee := by
  constructor
  · bv_omega
  · bv_omega

theorem refunded_balance_after_transfer (hmoved : moved ≤ balance - charge) :
    moved ≤ balance - fee ∧ balance - charge - moved + refund = balance - fee - moved := by
  constructor
  · bv_omega
  · bv_omega

end

/-- Charge, transfer and refund leave the sender with the fee and the value taken off. -/
theorem refundSender_of_charged {purse : Purse} {outcome : Outcome}
    (hcharge : preExecutionCharge tx sender.purse ctx.baseFee = .ok (charge, purse))
    (htransfer : transferFor tx (sender.charged purse) rcpt = .ok (payer, payee))
    (hused : outcome.gasUsed ≤ tx.gasLimit) (hpaymaster : (∃ addr, tx.feePayer = .paymaster addr) →
      ctx.baseFee = 0 ∨ outcome.gasUsed = 0) :
    let fee := (outcome.gasUsed - lesser outcome.gasRefund (outcome.gasUsed / 2)).setWidth 128 * ctx.baseFee
    ∃ debited, sender.debit (paysFromTank tx ctx sender) fee = some debited ∧ tx.movedValue ≤ debited.balance ∧
      (refundSender tx ctx payer outcome).1 = debited.less tx.movedValue := by
  obtain ⟨hfits, hcases⟩ := preExecutionCharge_ok hcharge
  obtain ⟨hmoved, hpayer, -⟩ := transferFor_ok htransfer
  have hsum := fee_of_gas_within outcome.gasRefund hused hfits
  dsimp only
  generalize hfee : (outcome.gasUsed - lesser outcome.gasRefund (outcome.gasUsed / 2)).setWidth 128 *
    ctx.baseFee = fee at hsum
  generalize hrefund : refundAmount tx ctx outcome.gasUsed
    (lesser outcome.gasRefund (outcome.gasUsed / 2)) = refund at hsum
  have hfinal : ∀ balance, (postExecutionRefund outcome.gasUsed tx.gasLimit outcome.gasRefund balance
      ctx.baseFee).feePayerBalance = balance + refund := fun balance => by rw [← hrefund]; rfl
  subst hpayer
  unfold paysFromTank refundSender Account.debit
  rw [hcharge]
  rcases hcases with ⟨hsender, hamount, henough, rfl⟩ | ⟨addr, htank, hamount, henough, -, rfl⟩ |
    ⟨addr, hpay, -, rfl⟩
  · have hpays : charge ≤ sender.balance := by
      rw [le_def]
      exact (Nat.le_add_right _ _).trans henough
    rw [← hamount] at hsum
    obtain ⟨hfeeLe, -⟩ := refunded_balance hsum hpays
    obtain ⟨hmovedLe, hbalance⟩ := refunded_balance_after_transfer hsum hpays hmoved
    simp only [hsender, hfinal, Bool.false_eq_true, if_false, if_pos hfeeLe]
    refine ⟨_, rfl, hmovedLe, ?_⟩
    simp only [Account.charged, Account.purse, hbalance]
  · rw [← hamount] at hsum
    obtain ⟨hfeeLe, hbalance⟩ := refunded_balance hsum henough
    have hfeeTank : fee ≤ sender.gasTank := hfeeLe
    simp only [htank, hfinal, if_true, if_pos hfeeTank]
    refine ⟨_, rfl, hmoved, ?_⟩
    simp only [Account.charged, Account.purse] at hbalance ⊢
    rw [hbalance]
  · -- nothing was charged, and there is no fee
    have hzero : fee = 0 := by
      rw [← hfee]
      exact fee_eq_zero _ (hpaymaster ⟨addr, hpay⟩)
    have hfeeLe : fee ≤ sender.balance := by
      rw [hzero]
      bv_omega
    simp only [hpay, Bool.false_eq_true, if_false, if_pos hfeeLe]
    refine ⟨_, rfl, ?_, ?_⟩
    · simpa [hzero, Account.charged, Account.purse] using hmoved
    · simp [hzero, Account.charged, Account.purse]

/-! ### The state afterwards -/

theorem run_runHandler_of_failed (hfailed : (runIn P (dispatch P pvm aot tx ctx payer) st).1.1.Failed) :
    (runIn P (runHandler P pvm aot tx ctx stateRoot sender rcpt payer payee) st).2 =
      (runIn P (applyAccountDelta tx.toAddress rcpt payee) (runIn P (applyAccountDelta tx.fromAddress sender
          (refundSender tx ctx payer (runIn P (dispatch P pvm aot tx ctx payer) st).1.1).1) st).2).2 := by
  obtain ⟨hclean, hkept⟩ := failsClean_dispatch P pvm aot tx ctx payer
  have hstate := hclean.run stored (StateKey.hash P) (s := st) hfailed
  have hpayer := hkept.run stored (StateKey.hash P) st hfailed
  simp only [runHandler, run_bind, run_pure]
  rw [hstate, hpayer]

/-- A copy of a record in which only balance and gas tank were changed is written back as it is. -/
theorem deltaApplied_self {gasTank : U128} (hbalance : account.balance.toNat < 2 ^ 127)
    (htank : account.gasTank.toNat < 2 ^ 127) (hbalance' : balance.toNat < 2 ^ 127) (htank' : gasTank.toNat < 2 ^ 127) :
    account.deltaApplied account { account with balance := balance, gasTank := gasTank } =
      { account with balance := balance, gasTank := gasTank } := by
  simp [Account.deltaApplied, applyDelta_self hbalance hbalance', applyDelta_self htank htank']

/-- An account that was debited differs in an amount that got no larger. -/
theorem debit_some {fromTank : Bool} (h : account.debit fromTank fee = some debited) :
    debited = { account with balance := debited.balance, gasTank := debited.gasTank } ∧
      debited.balance.toNat ≤ account.balance.toNat ∧ debited.gasTank.toNat ≤ account.gasTank.toNat := by
  unfold Account.debit at h
  split at h
  · split at h
    · rename_i hle
      cases h
      rw [toNat_sub_of_le hle]
      exact ⟨rfl, le_rfl, Nat.sub_le _ _⟩
    · cases h
  split at h
  · rename_i hle
    cases h
    rw [toNat_sub_of_le hle]
    exact ⟨rfl, Nat.sub_le _ _, le_rfl⟩
  · cases h

theorem deltaApplied_plus (hsmall : moved.toNat < 2 ^ 127) (hfits : cur.balance.toNat + moved.toNat < 2 ^ 128) :
    cur.deltaApplied account (account.plus moved) = cur.plus moved := by
  have hsum : applyDelta cur.balance account.balance (account.balance + moved) = cur.balance + moved := by
    apply eq_of_toNat_eq
    rw [applyDelta_add _ hsmall hfits, toNat_add, Nat.mod_eq_of_lt hfits]
  simp [Account.deltaApplied, hsum]

variable (P) in
/-- The state with another record for an address. -/
abbrev refiled (s : StateMap) (addr : Address) (account : Account) : StateMap :=
  StateProgram.insert stored s (balanceKey P addr) account.toBytes

theorem run_writeBack {s : StateMap} {cur initial final after : Account}
    (hcurrent : acctAt P s addr = cur) (hfiled : cur.address = addr)
    (hafter : cur.deltaApplied initial final = after) :
    (runIn P (applyAccountDelta addr initial final) s).2 = refiled P s addr after := by
  subst hcurrent
  rw [run_applyAccountDelta hfiled, hafter]

/-- Both write-backs, for a sender who was debited and then gave `moved` away. -/
theorem run_writeBacks (hinj : HashApart P (recordKeys tx))
    (hsound : SoundRecords P tx st) (hsender : acctAt P st tx.fromAddress = sender)
    (hrecipient : acctAt P st tx.toAddress = rcpt)
    (hfields : debited = { sender with balance := debited.balance, gasTank := debited.gasTank })
    (hbalance : debited.balance.toNat ≤ sender.balance.toNat) (htank : debited.gasTank.toNat ≤ sender.gasTank.toNat)
    (hmoved : moved ≤ debited.balance) :
    (runIn P (applyAccountDelta tx.toAddress rcpt (rcpt.plus moved))
      (runIn P (applyAccountDelta tx.fromAddress sender (debited.less moved)) (nonceRecorded P tx st)).2).2 =
      if tx.fromAddress = tx.toAddress then refiled P (nonceRecorded P tx st) tx.fromAddress debited
      else
        refiled P (refiled P (nonceRecorded P tx st) tx.fromAddress (debited.less moved)) tx.toAddress
          (rcpt.plus moved) := by
  obtain ⟨hfrom, hto, hsmall, hsmallTank, hsmallTo⟩ := hsound
  rw [Filed, hsender] at hfrom
  rw [Filed, hrecipient] at hto
  rw [hsender] at hsmall hsmallTank
  rw [hrecipient] at hsmallTo
  have hless : (debited.less moved).balance.toNat = debited.balance.toNat - moved.toNat := toNat_sub_of_le hmoved
  have hmovedNat := BitVec.le_def.mp hmoved
  have hsmallMoved : moved.toNat < 2 ^ 127 := by omega
  -- the sender's write-back stores the copy itself
  have hfirst : sender.deltaApplied sender (debited.less moved) = debited.less moved := by
    have hsmallLess : (debited.less moved).balance.toNat < 2 ^ 127 := by omega
    rw [hfields] at hsmallLess ⊢
    exact deltaApplied_self hsmall hsmallTank hsmallLess (htank.trans_lt hsmallTank)
  rw [run_writeBack ((acctAt_noted hinj (.inl rfl) sender_mem_recordKeys).trans hsender) hfrom hfirst]
  by_cases hself : tx.fromAddress = tx.toAddress
  · -- the second write-back finds the first one's record
    have hstorable : (debited.less moved).authKeys.Storable := by
      rw [hfields, ← hsender]
      exact storable_acctAt P st tx.fromAddress
    have hfiled : (debited.less moved).address = tx.fromAddress := by rwa [hfields]
    have hback : (debited.less moved).plus moved = debited := by
      rw [Account.plus, BitVec.sub_add_cancel]
    rw [if_pos hself, ← hself, run_writeBack (acctAt_insert_self hstorable) hfiled
      ((deltaApplied_plus hsmallMoved (by omega)).trans hback)]
    exact update_idem _ _ _
  · have hcurrent : acctAt P (refiled P (nonceRecorded P tx st) tx.fromAddress (debited.less moved))
        tx.toAddress = rcpt := by
      rw [acctAt_insert_of_ne (balanceKey_ne hinj recipient_mem_recordKeys sender_mem_recordKeys
        (Ne.symm hself)), acctAt_noted hinj (.inl rfl) recipient_mem_recordKeys, hrecipient]
    rw [if_neg hself, run_writeBack hcurrent hto (deltaApplied_plus hsmallMoved (by omega))]

/-! ### Only gas was paid, if nothing else moved -/

@[simp] theorem refiled_self (s : StateMap) (account : Account) :
    refiled P s addr account (balanceKey P addr) = some account.toBytes := by
  rw [refiled, StateProgram.insert, update_self, stored_toBytes]

theorem insert_record_of_ne {other : Hash256} (h : other ≠ location) (value : Bytes)
    (s : StateMap) : StateProgram.insert stored s location value other = s other :=
  update_of_ne h _ _

theorem refiled_of_ne (h : location ≠ balanceKey P addr) (account : Account)
    (s : StateMap) : refiled P s addr account location = s location :=
  insert_record_of_ne h _ s

/-- A payer other than the sender pays nothing, and is left alone. -/
theorem sponsored (hpayer : payerAddress tx ≠ tx.fromAddress)
    (hfree : (∃ addr, tx.feePayer = .paymaster addr) → fee = 0)
    (hdebit : sender.debit (paysFromTank tx ctx sender) fee = some debited) :
    debited = sender ∧ ∀ account : Account, account.debit (paysFromTank tx ctx sender) fee = some account := by
  unfold payerAddress at hpayer
  split at hpayer
  · rename_i addr hpaymaster
    have hzero : fee = 0 := hfree ⟨addr, hpaymaster⟩
    have hsame : ∀ account : Account, account.debit (paysFromTank tx ctx sender) fee = some account := by
      intro account
      have hle : 0#128 ≤ account.balance := by bv_omega
      simp [Account.debit, paysFromTank, hpaymaster, hzero, hle]
    refine ⟨?_, hsame⟩
    rw [hsame] at hdebit
    exact (Option.some.inj hdebit).symm
  · exact absurd rfl hpayer

theorem sub_eq_self_iff {x y : U128} : x - y = x ↔ y = 0 := by
  constructor
  · intro h
    bv_omega
  · intro h
    bv_omega

section

variable (hinj : HashApart P (recordKeys tx)) (hstorable : debited.authKeys.Storable)
  (hfree : (∃ addr, tx.feePayer = .paymaster addr) → fee = 0)
  (hdebit : (acctAt P st tx.fromAddress).debit
    (paysFromTank tx ctx (acctAt P st tx.fromAddress)) fee = some debited)

include hinj hstorable hfree hdebit

theorem onlyGasPaid_self_iff (hself : tx.fromAddress = tx.toAddress) :
    OnlyGasPaid P tx ctx st (refiled P (nonceRecorded P tx st) tx.fromAddress debited) fee ↔
      RecordsPresent P tx st := by
  have hnonce := balanceKey_ne_nonceKey hinj sender_mem_recordKeys
  by_cases hpayer : payerAddress tx = tx.fromAddress
  · have hpresent : RecordsPresent P tx st := by
      intro addr haddr hne
      rw [hpayer] at hne
      rcases haddr with rfl | rfl
      · exact absurd rfl hne
      · exact absurd hself.symm hne
    refine iff_of_true ⟨?_, ?_⟩ hpresent
    · intro location hlocation hother
      rw [hpayer] at hother
      rw [refiled_of_ne hother, nonceRecorded_of_ne hlocation]
    · rw [hpayer, acctAt_insert_self hstorable, hdebit]
  · obtain ⟨rfl, hsame⟩ := sponsored hpayer hfree hdebit
    have hkey := balanceKey_ne hinj payer_mem_recordKeys sender_mem_recordKeys hpayer
    constructor
    · intro hpaid addr haddr hne
      have hfrom : addr = tx.fromAddress := by
        rcases haddr with haddr | haddr
        · exact haddr
        · rw [haddr, hself]
      subst hfrom
      rw [← hpaid.1 _ hnonce hkey.symm, refiled_self]
    · intro hpresent
      refine ⟨?_, ?_⟩
      · intro location hlocation hother
        by_cases hfrom : location = balanceKey P tx.fromAddress
        · rw [hfrom, refiled_self]
          exact (hpresent _ (.inl rfl) (Ne.symm hpayer)).symm
        · rw [refiled_of_ne hfrom, nonceRecorded_of_ne hlocation]
      · rw [hsame, acctAt_insert_of_ne hkey, acctAt_noted hinj (.inl rfl) payer_mem_recordKeys]

theorem onlyGasPaid_other_iff (hother : tx.fromAddress ≠ tx.toAddress) :
    OnlyGasPaid P tx ctx st (refiled P (refiled P (nonceRecorded P tx st) tx.fromAddress (debited.less moved))
        tx.toAddress ((acctAt P st tx.toAddress).plus moved)) fee ↔
      moved = 0 ∧ RecordsPresent P tx st := by
  have hnonceFrom := balanceKey_ne_nonceKey hinj sender_mem_recordKeys
  have hnonceTo := balanceKey_ne_nonceKey hinj recipient_mem_recordKeys
  have hkeys := balanceKey_ne hinj sender_mem_recordKeys recipient_mem_recordKeys hother
  have hgiven : (debited.less moved).authKeys.Storable := hstorable
  constructor
  · rintro ⟨hframe, hpaid⟩
    -- the sender's record shows that nothing was given away
    have hzero : moved = 0 := by
      by_cases hpayer : payerAddress tx = tx.fromAddress
      · rw [hpayer, acctAt_insert_of_ne hkeys, acctAt_insert_self hgiven, hdebit] at hpaid
        exact sub_eq_self_iff.mp (congrArg Account.balance (Option.some.inj hpaid)).symm
      obtain ⟨rfl, -⟩ := sponsored hpayer hfree hdebit
      have hkept := hframe _ hnonceFrom
        (balanceKey_ne hinj sender_mem_recordKeys payer_mem_recordKeys (Ne.symm hpayer))
      rw [refiled_of_ne hkeys, refiled_self] at hkept
      have hrecord := acctAt_of_bytes hgiven hkept.symm
      exact sub_eq_self_iff.mp (congrArg Account.balance hrecord).symm
    refine ⟨hzero, ?_⟩
    subst hzero
    intro addr haddr hne
    rcases haddr with rfl | rfl
    · obtain ⟨rfl, -⟩ := sponsored (Ne.symm hne) hfree hdebit
      rw [← hframe _ hnonceFrom (balanceKey_ne hinj sender_mem_recordKeys payer_mem_recordKeys hne),
        refiled_of_ne hkeys, refiled_self, Account.less_zero]
    rw [← hframe _ hnonceTo (balanceKey_ne hinj recipient_mem_recordKeys payer_mem_recordKeys hne),
      refiled_self, Account.plus_zero]
  · rintro ⟨rfl, hpresent⟩
    rw [Account.less_zero, Account.plus_zero]
    refine ⟨?_, ?_⟩
    · intro location hlocation hnotPayer
      by_cases hto : location = balanceKey P tx.toAddress
      · subst hto
        rw [refiled_self]
        exact (hpresent _ (.inr rfl) fun heq => hnotPayer (by rw [heq])).symm
      rw [refiled_of_ne hto]
      by_cases hfrom : location = balanceKey P tx.fromAddress
      · subst hfrom
        have hpayer : payerAddress tx ≠ tx.fromAddress := fun heq => hnotPayer (by rw [heq])
        obtain ⟨rfl, -⟩ := sponsored hpayer hfree hdebit
        rw [refiled_self]
        exact (hpresent _ (.inl rfl) (Ne.symm hpayer)).symm
      · rw [refiled_of_ne hfrom, nonceRecorded_of_ne hlocation]
    · by_cases hpayer : payerAddress tx = tx.fromAddress
      · rw [hpayer, acctAt_insert_of_ne hkeys, acctAt_insert_self hstorable, hdebit]
      · obtain ⟨rfl, hsame⟩ := sponsored hpayer hfree hdebit
        rw [hsame]
        by_cases hpayerTo : payerAddress tx = tx.toAddress
        · rw [hpayerTo, acctAt_insert_self (storable_acctAt P st tx.toAddress)]
        rw [acctAt_insert_of_ne
            (balanceKey_ne hinj payer_mem_recordKeys recipient_mem_recordKeys hpayerTo), acctAt_insert_of_ne
            (balanceKey_ne hinj payer_mem_recordKeys sender_mem_recordKeys hpayer),
          acctAt_noted hinj (.inl rfl) payer_mem_recordKeys]

end

theorem run_emitFailedExecutionReceipt_snd (sender : Account) (reason : String) :
    (runIn P (emitFailedExecutionReceipt P tx ctx stateRoot sender reason) st).2 =
      (runIn P (applyAccountDelta tx.fromAddress sender (sender.less (baselineCharge ctx sender))) st).2 := by
  simp only [emitFailedExecutionReceipt, run_bind, run_pure]
  rfl

/-- A sender who could not be charged pays the baseline, and nothing else happens. -/
theorem onlyGasPaid_of_failed_charge (hinj : HashApart P (recordKeys tx))
    (hsound : SoundRecords P tx st) {reason : String} {stateRoot : Hash256}
    (hcharge : preExecutionCharge tx (acctAt P st tx.fromAddress).purse ctx.baseFee = .error reason)
    (hpayer : payerAddress tx = tx.fromAddress)
    (hfee : fee = baselineCharge ctx (acctAt P st tx.fromAddress)) :
    OnlyGasPaid P tx ctx st (runIn P (emitFailedExecutionReceipt P tx ctx stateRoot
      (acctAt P st tx.fromAddress) reason) (nonceRecorded P tx st)).2 fee := by
  have hle : fee ≤ (acctAt P st tx.fromAddress).balance := by
    rw [hfee, baselineCharge, le_def, lesser_toNat]
    exact min_le_right _ _
  have hbalance : ((acctAt P st tx.fromAddress).balance - fee).toNat < 2 ^ 127 := by
    rw [toNat_sub_of_le hle]
    exact (Nat.sub_le _ _).trans_lt hsound.balance
  rw [run_emitFailedExecutionReceipt_snd, ← hfee,
    run_writeBack (acctAt_noted hinj (.inl rfl) sender_mem_recordKeys) hsound.sender
      (deltaApplied_self hsound.balance hsound.gasTank hbalance hsound.gasTank)]
  refine ⟨?_, ?_⟩
  · intro location hlocation hother
    rw [hpayer] at hother
    rw [refiled_of_ne hother, nonceRecorded_of_ne hlocation]
  · have hstorable : ((acctAt P st tx.fromAddress).less fee).authKeys.Storable :=
      storable_acctAt P st tx.fromAddress
    have htank : paysFromTank tx ctx (acctAt P st tx.fromAddress) = false := by
      unfold paysFromTank
      rw [hcharge]
      cases tx.feePayer <;> rfl
    rw [hpayer, acctAt_insert_self hstorable, htank, Account.debit, if_neg (by decide), if_pos hle]

/-- A paymaster's transaction is never refused for lack of funds. -/
theorem payerAddress_of_failed_charge {purse : Purse} {reason : String}
    (hfits : tx.gasLimit.toNat * ctx.baseFee.toNat < 2 ^ 128)
    (hcharge : preExecutionCharge tx purse ctx.baseFee = .error reason) : payerAddress tx = tx.fromAddress := by
  unfold payerAddress
  split
  · rename_i addr hpay
    rw [preExecutionCharge, checkedMul, tx.toNat_limit, if_pos hfits, hpay] at hcharge
    cases hcharge
  · rfl

variable {stateRoot : Hash256} {receipt : Receipt} {st' : StateMap}

/-- A failed transaction whose gas is accounted for has only paid for gas, exactly if the charge failed
already or no value went to another account and every other record it wrote back was there before. -/
theorem failed_pays_only_gas_iff
    (hrun : runIn P (executeTransaction P pvm aot tx ctx stateRoot) st = (.ok receipt, st'))
    (hfailed : receipt.success = false) (hfree : P.CollisionFreeOn (StateKey.preimage '' recordKeys tx))
    (hsound : SoundRecords P tx st) (hgas : GasAccounted P pvm aot tx ctx st) :
    OnlyGasPaid P tx ctx st st' receipt.feePaid ↔
      (∃ reason, preExecutionCharge tx (acctAt P st tx.fromAddress).purse ctx.baseFee = .error reason) ∨
      ((tx.movedValue = 0 ∨ tx.fromAddress = tx.toAddress) ∧ RecordsPresent P tx st) := by
  have hinj := StateKey.injOn_hash hfree
  have hresult : (runIn P (executeTransaction P pvm aot tx ctx stateRoot) st).1 = .ok receipt := by rw [hrun]
  obtain ⟨⟨vesting, hvalid⟩, hperform⟩ := receipt_of_perform hresult
  rw [hperform] at hrun
  rcases perform_cases P pvm aot tx ctx stateRoot (nonceRecorded P tx st)
      (acctAt P st tx.fromAddress) (acctAt P st tx.toAddress) with
    ⟨reason, hcharge, hdone⟩ | ⟨charge, purse, hcharge,
      ⟨reason, -, hdone⟩ | ⟨payer, payee, htransfer, hdone⟩⟩
  · -- the charge failed
    rw [hdone] at hrun
    obtain ⟨hmade, hstate⟩ := Prod.mk.inj hrun
    obtain ⟨-, hfits, hbaseline⟩ := baseline_of_failed_charge hvalid hcharge
    have hfee : receipt.feePaid = baselineCharge ctx (acctAt P st tx.fromAddress) := by
      unfold GasAccounted at hgas
      simp only [hcharge] at hgas
      rw [← Except.ok.inj hmade]
      exact eq_of_toNat_eq ((fee_of_failed_charge hbaseline _ _).mpr hgas)
    have hpayer := payerAddress_of_failed_charge hfits hcharge
    rw [← hstate]
    exact iff_of_true (onlyGasPaid_of_failed_charge hinj hsound hcharge hpayer hfee) (.inl ⟨reason, hcharge⟩)
  · rw [hdone] at hrun
    cases (Prod.mk.inj hrun).1
  · -- the handler failed
    rw [hdone] at hrun
    obtain ⟨hmade, hstate⟩ := Prod.mk.inj hrun
    have hmade := Except.ok.inj hmade
    obtain ⟨-, -, hfee⟩ := receipt_of_runHandler P pvm aot tx ctx (nonceRecorded P tx st)
      stateRoot (acctAt P st tx.fromAddress) (acctAt P st tx.toAddress) payer payee
    rw [hmade] at hfee
    have houtcome : (runIn P (dispatch P pvm aot tx ctx payer) (nonceRecorded P tx st)).1.1.Failed := by
      rw [Outcome.Failed, ← hfailed, ← hmade]
      simp only [runHandler, run_bind, run_pure, generateReceipt]
    obtain ⟨hwithin, hpaymaster⟩ := (gasAccounted_iff_of_charged hvalid hcharge htransfer rfl).mp hgas
    obtain ⟨debited, hdebit, hmoved, hfinal⟩ := refundSender_of_charged hcharge htransfer hwithin hpaymaster
    obtain ⟨hfields, hbalance, htank⟩ := debit_some hdebit
    obtain ⟨-, -, hpayee⟩ := transferFor_ok htransfer
    have hstorable : debited.authKeys.Storable := by
      rw [hfields]
      exact storable_acctAt P st tx.fromAddress
    have hzero : (∃ addr, tx.feePayer = .paymaster addr) → receipt.feePaid = 0 := by
      intro hpay
      rw [hfee]
      exact fee_eq_zero _ (hpaymaster hpay)
    rw [← hfee] at hdebit
    rw [run_runHandler_of_failed houtcome, hfinal, hpayee,
      run_writeBacks hinj hsound rfl rfl hfields hbalance htank hmoved] at hstate
    have hnotFailed : ¬ ∃ reason, preExecutionCharge tx (acctAt P st tx.fromAddress).purse
        ctx.baseFee = .error reason := by
      rintro ⟨reason, herror⟩
      rw [hcharge] at herror
      cases herror
    rw [← hstate, or_iff_right hnotFailed]
    by_cases hself : tx.fromAddress = tx.toAddress
    · rw [if_pos hself, and_iff_right (.inr hself)]
      exact onlyGasPaid_self_iff hinj hstorable hzero hdebit hself
    · rw [if_neg hself, or_iff_left hself]
      exact onlyGasPaid_other_iff hinj hstorable hzero hdebit hself

end

/-! ### A claim and a call that fail -/

/-- The state of a funded account with a key, in which the zero address has a record as well. -/
def keyedStateWithZero : StateMap :=
  StateProgram.insert stored keyedState (balanceKey lucid zeroAddress) (Account.empty zeroAddress).toBytes

theorem emptyClaim_keys_distinct :
    lucid.CollisionFreeOn (StateKey.preimage '' recordKeys (emptyClaim 30000)) := by
  refine collisionFreeOn_of_listed [.account (fill32 1) .nonce, .account (fill32 1) .balance,
    .account zeroAddress .balance] (by decide +kernel) ?_
  rintro key (rfl | rfl | rfl | rfl) <;> decide

theorem run_emptyClaim_with_zero :
    (runIn lucid (executeTransaction lucid idlePvm false (emptyClaim 30000) mainContext
      zero32) keyedStateWithZero).1 = .ok (emptyClaimReceipt 30000) := by
  decide +kernel

theorem emptyClaim_sound : SoundRecords lucid (emptyClaim 30000) keyedStateWithZero := by
  constructor <;> decide +kernel

/-- A claim without a payload fails, and only gas is paid for it. -/
theorem failed_claim_pays_only_gas :
    (emptyClaimReceipt 30000).success = false ∧
      OnlyGasPaid lucid (emptyClaim 30000) mainContext keyedStateWithZero
        (runIn lucid (executeTransaction lucid idlePvm false (emptyClaim 30000) mainContext
          zero32) keyedStateWithZero).2 (emptyClaimReceipt 30000).feePaid := by
  have hrun : runIn lucid (executeTransaction lucid idlePvm false (emptyClaim 30000)
      mainContext zero32) keyedStateWithZero = (.ok (emptyClaimReceipt 30000),
        (runIn lucid (executeTransaction lucid idlePvm false (emptyClaim 30000) mainContext
          zero32) keyedStateWithZero).2) := by
    rw [← run_emptyClaim_with_zero]
  have hcharge : preExecutionCharge (emptyClaim 30000)
      (acctAt lucid keyedStateWithZero (emptyClaim 30000).fromAddress).purse
        mainContext.baseFee = .ok (30000, { balance := 970000, gasTank := 0 }) := by
    decide +kernel
  have hpresent : RecordsPresent lucid (emptyClaim 30000) keyedStateWithZero := by
    intro addr haddr hne
    rcases haddr with rfl | rfl
    · exact absurd rfl hne
    · decide +kernel
  refine ⟨rfl, (failed_pays_only_gas_iff hrun rfl emptyClaim_keys_distinct emptyClaim_sound ?_).mpr
    (.inr ⟨.inl rfl, hpresent⟩)⟩
  unfold GasAccounted
  simp only [hcharge]
  refine ⟨fun _ => by decide, ?_⟩
  rintro ⟨addr, hpayer⟩
  cases hpayer

/-- A virtual machine on which every call reverts. -/
def revertingPvm : Pvm := fun _ _ _ =>
  .pure { success := false, gasUsed := 21000, gasRefund := 0, storage := [], contracts := [], logs := [],
          returnData := [] }

/-- The state of a funded account with a key, and a contract. -/
def contractState : StateMap := StateProgram.insert stored keyedState (codeKey lucid (fill32 2)) [0x01]

/-- A call of the contract that sends 1000 quanta along. -/
def payingCall : Transaction :=
  signedByKey
    { fromAddress := fill32 1, toAddress := fill32 2, value := 1000, data := [], gasLimit := 21000,
      nonce := 0, signature := [], feePayer := .sender, accessList := [], deadline := none, chainId := 1,
      txType := .standard }

def payingCallState : StateMap :=
  (runIn lucid (executeTransaction lucid revertingPvm false payingCall mainContext zero32)
    contractState).2

/-- The call reverts, and the contract keeps the value. -/
theorem reverted_call_keeps_value :
    ((runIn lucid (executeTransaction lucid revertingPvm false payingCall mainContext zero32)
        contractState).1.toOption.map fun receipt => (receipt.success, receipt.feePaid)) = some (false, 21000) ∧
    (acctAt lucid contractState (fill32 2)).balance = 0 ∧
    (acctAt lucid payingCallState (fill32 2)).balance = 1000 ∧
    (acctAt lucid payingCallState (fill32 1)).balance = 1000000 - 21000 - 1000 ∧
    ¬ OnlyGasPaid lucid payingCall mainContext contractState payingCallState 21000 := by
  refine ⟨by decide +kernel, by decide +kernel, by decide +kernel, by decide +kernel, ?_⟩
  rintro ⟨hframe, -⟩
  have hkept := hframe (balanceKey lucid (fill32 2)) (by decide +kernel) (by decide +kernel)
  have hchanged : payingCallState (balanceKey lucid (fill32 2)) ≠
      contractState (balanceKey lucid (fill32 2)) := by
    decide +kernel
  exact hchanged hkept

end Pyde
