/-
Module: Pyde.Tx.SupplyConservation
Purpose: Plain transfers and the fees of their block move balances around and burn a part of the fees.
Trusted boundary: Prims
-/
import Pyde.Tx.FailedExecution

namespace Pyde

open ByteCodec StateProgram List BitVec

variable {other : Address} {initial : Account}

/-! ### The sum of all balances -/

/-- The sum of the balances of these accounts. -/
def totalBalance (P : Prims) (accounts : Finset Address) (st : StateMap) : Nat :=
  ∑ addr ∈ accounts, (acctAt P st addr).balance.toNat

/-- The keys of the accounts: balance record, nonce window and code. -/
def ledgerKeys (accounts : Finset Address) : Set StateKey :=
  {key | ∃ addr ∈ accounts,
    key = .account addr .balance ∨ key = .account addr .nonce ∨ key = .account addr .code}

/-- Every record is stored under its own address, and there is no code at the addresses in `plain`. -/
structure Ledger (P : Prims) (accounts plain : Finset Address) (st : StateMap) : Prop where
  filed : ∀ addr ∈ accounts, Filed P st addr
  noCode : ∀ addr ∈ plain, st (codeKey P addr) = none

section

variable {P : Prims} {accounts plain : Finset Address} {st : StateMap} {addr : Address}

theorem balance_le_total (P : Prims) (st : StateMap) (haddr : addr ∈ accounts) :
    (acctAt P st addr).balance.toNat ≤ totalBalance P accounts st :=
  Finset.single_le_sum (f := fun addr => (acctAt P st addr).balance.toNat)
    (fun _ _ => Nat.zero_le _) haddr

section Keys

variable (hinj : HashApart P (ledgerKeys accounts))

include hinj

section

variable (haddr : addr ∈ accounts) (hother : other ∈ accounts)
include haddr hother

theorem balanceKey_inj (heq : balanceKey P addr = balanceKey P other) : addr = other := by
  have hkey := hinj ⟨addr, haddr, .inl rfl⟩ ⟨other, hother, .inl rfl⟩ heq
  cases hkey
  rfl

theorem ledger_balanceKey_ne_nonceKey : balanceKey P addr ≠ nonceKey P other := by
  intro heq
  have hkey := hinj ⟨addr, haddr, .inl rfl⟩ ⟨other, hother, .inr (.inl rfl)⟩ heq
  cases hkey

theorem codeKey_ne_balanceKey : codeKey P addr ≠ balanceKey P other := by
  intro heq
  have hkey := hinj ⟨addr, haddr, .inr (.inr rfl)⟩ ⟨other, hother, .inl rfl⟩ heq
  cases hkey

theorem codeKey_ne_nonceKey : codeKey P addr ≠ nonceKey P other := by
  intro heq
  have hkey := hinj ⟨addr, haddr, .inr (.inr rfl)⟩ ⟨other, hother, .inr (.inl rfl)⟩ heq
  cases hkey

end

/-- A record that is stored replaces the balance of its account in the sum. -/
theorem totalBalance_insert (st : StateMap) {account : Account} (haddr : addr ∈ accounts)
    (hstorable : account.authKeys.Storable) :
    totalBalance P accounts (StateProgram.insert stored st (balanceKey P addr) account.toBytes) +
        (acctAt P st addr).balance.toNat = totalBalance P accounts st + account.balance.toNat := by
  unfold totalBalance
  rw [← Finset.add_sum_erase accounts _ haddr, ← Finset.add_sum_erase accounts
    (fun addr => (acctAt P st addr).balance.toNat) haddr, acctAt_insert_self hstorable]
  have hothers : ∑ other ∈ accounts.erase addr, (acctAt P
      (StateProgram.insert stored st (balanceKey P addr) account.toBytes) other).balance.toNat =
      ∑ other ∈ accounts.erase addr, (acctAt P st other).balance.toNat := by
    apply Finset.sum_congr rfl
    intro other hother
    obtain ⟨hne, hmem⟩ := Finset.mem_erase.mp hother
    rw [acctAt_insert_of_ne fun heq => hne (balanceKey_inj hinj hmem haddr heq)]
  rw [hothers]
  omega

variable (hledger : Ledger P accounts plain st) (hplain : plain ⊆ accounts)
include hledger hplain

theorem Ledger.insert {account : Account} (haddr : addr ∈ accounts) (hstorable : account.authKeys.Storable)
    (hown : account.address = addr) :
    Ledger P accounts plain (StateProgram.insert stored st (balanceKey P addr) account.toBytes) where
  filed := by
    intro other hother
    by_cases heq : other = addr
    · subst heq
      rw [Filed, acctAt_insert_self hstorable]
      exact hown
    · rw [Filed, acctAt_insert_of_ne fun hkey => heq (balanceKey_inj hinj hother haddr hkey)]
      exact hledger.filed other hother
  noCode := by
    intro other hother
    rw [insert_record_of_ne (codeKey_ne_balanceKey hinj (hplain hother) haddr)]
    exact hledger.noCode other hother

theorem Ledger.nonceRecorded {tx : Transaction} (hsender : tx.fromAddress ∈ accounts) :
    Ledger P accounts plain (nonceRecorded P tx st) ∧
      totalBalance P accounts (Pyde.nonceRecorded P tx st) = totalBalance P accounts st := by
  have hkept : ∀ other ∈ accounts, acctAt P (Pyde.nonceRecorded P tx st) other =
      acctAt P st other := fun other hother =>
    acctAt_nonceRecorded (ledger_balanceKey_ne_nonceKey hinj hother hsender)
  refine ⟨⟨?_, ?_⟩, ?_⟩
  · intro other hother
    rw [Filed, hkept other hother]
    exact hledger.filed other hother
  · intro other hother
    rw [nonceRecorded_of_ne (codeKey_ne_nonceKey hinj (hplain hother) hsender)]
    exact hledger.noCode other hother
  · exact Finset.sum_congr rfl fun other hother => by rw [hkept other hother]

variable (haddr : addr ∈ accounts) {final : Account}
include haddr

/-- A write-back that keeps the keys changes the sum as it changes the one balance. -/
theorem applyAccountDelta_ledger (initial final : Account) (hkeys : final.authKeys = initial.authKeys) :
    let after := (runIn P (applyAccountDelta addr initial final) st).2
    Ledger P accounts plain after ∧
      totalBalance P accounts after + (acctAt P st addr).balance.toNat = totalBalance P accounts st +
        (applyDelta (acctAt P st addr).balance initial.balance final.balance).toNat := by
  have hstorable : ((acctAt P st addr).deltaApplied initial final).authKeys.Storable := by
    simp only [Account.deltaApplied, hkeys, ne_eq, not_true_eq_false, if_false]
    exact storable_acctAt P st addr
  have hfiled := hledger.filed addr haddr
  dsimp only
  rw [run_applyAccountDelta hfiled]
  exact ⟨hledger.insert hinj hplain haddr hstorable hfiled, totalBalance_insert hinj st haddr hstorable⟩

/-- A write-back that takes off `loss`. -/
theorem applyAccountDelta_loss {loss : U128} (hfinal : final = initial.less loss)
    (hsmall : loss.toNat ≤ 2 ^ 127) (henough : loss ≤ (acctAt P st addr).balance) :
    let after := (runIn P (applyAccountDelta addr initial final) st).2
    Ledger P accounts plain after ∧ totalBalance P accounts after + loss.toNat = totalBalance P accounts st := by
  subst hfinal
  obtain ⟨hafter, hsum⟩ := applyAccountDelta_ledger hinj hledger hplain haddr initial (initial.less loss) rfl
  have hle := BitVec.le_def.mp henough
  rw [applyDelta_sub _ hsmall henough] at hsum
  exact ⟨hafter, by omega⟩

/-- A write-back that adds `gain`. -/
theorem applyAccountDelta_gain {gain : U128} (hfinal : final = initial.plus gain)
    (hsmall : gain.toNat < 2 ^ 127) (hfits : (acctAt P st addr).balance.toNat + gain.toNat < 2 ^ 128) :
    let after := (runIn P (applyAccountDelta addr initial final) st).2
    Ledger P accounts plain after ∧ totalBalance P accounts after = totalBalance P accounts st + gain.toNat := by
  subst hfinal
  obtain ⟨hafter, hsum⟩ := applyAccountDelta_ledger hinj hledger hplain haddr initial (initial.plus gain) rfl
  rw [applyDelta_add _ hsmall hfits] at hsum
  exact ⟨hafter, by omega⟩

end Keys

/-! ### One transfer -/

/-- A `Standard` transaction between the accounts, on a chain other than the devnet. -/
structure PlainTransfer (accounts plain : Finset Address) (sub : Submission) : Prop where
  type : sub.tx.txType = .standard
  chain : sub.ctx.chainId ≠ devnetChainId
  sender : sub.tx.fromAddress ∈ accounts
  recipient : sub.tx.toAddress ∈ plain

/-- Neither the value nor value and fee together reach the sign bit of a signed 128-bit number. -/
def BelowSignBit (sub : Submission) : Prop :=
  sub.tx.value.toNat < 2 ^ 127 ∧ sub.tx.value.toNat + 21000 * sub.ctx.baseFee.toNat ≤ 2 ^ 127

/-- What a result says was charged. -/
def feeOf : Except PipelineError Receipt → Nat
  | .ok receipt => receipt.feePaid.toNat
  | .error _ => 0

section Step

variable {pvm : Pvm} {aot : Bool} {tx : Transaction} {ctx : BlockContext} {stateRoot : Hash256}

/-- Without code at the recipient, the handler of a `Standard` transaction does nothing. -/
theorem run_dispatch_plain (htype : tx.txType = .standard) (hcode : st (codeKey P tx.toAddress) = none)
    (payer : Account) : runIn P (dispatch P pvm aot tx ctx payer) st = ((.done 21000 [], payer), st) := by
  unfold dispatch
  rw [htype]
  dsimp only
  split
  · simp only [keepSender, executeCall, loadCode, run_bind, run_read]
    rw [show st ((StateKey.account tx.toAddress .code).hash P) = none from hcode]
    rfl
  · rfl

/-- The shares of a fee add up to it, also where the products in them wrap. -/
theorem distributeFee_toNat (effectiveGas : U64) (baseFee : U128) :
    (distributeFee effectiveGas baseFee).burned.toNat + (distributeFee effectiveGas baseFee).validator.toNat +
      (distributeFee effectiveGas baseFee).treasury.toNat = (effectiveGas.setWidth 128 * baseFee).toNat := by
  unfold distributeFee
  dsimp only
  generalize effectiveGas.setWidth 128 * baseFee = total
  have hshare : ∀ percent : U128, (total * percent / 100).toNat ≤ total.toNat * percent.toNat / 100 := by
    intro percent
    rw [toNat_udiv, toNat_mul]
    exact Nat.div_le_div_right (Nat.mod_le _ _)
  have hburned : _ ≤ total.toNat * 70 / 100 := hshare 70
  have hvalidator : _ ≤ total.toNat * 20 / 100 := hshare 20
  generalize total * 70 / 100 = burned at hburned
  generalize total * 20 / 100 = validator at hvalidator
  have hfirst : (total - burned).toNat = total.toNat - burned.toNat :=
    toNat_sub_of_le (by rw [le_def]; omega)
  have hsecond : (total - burned - validator).toNat = total.toNat - burned.toNat - validator.toNat := by
    rw [toNat_sub_of_le (by rw [le_def, hfirst]; omega), hfirst]
  rw [hsecond]
  omega

/-- The receipt of a plain transfer splits the fee without a remainder. -/
def SplitsFee (receipt : Receipt) : Prop :=
  receipt.feeBurned.toNat + receipt.feeValidator.toNat + receipt.feeTreasury.toNat = receipt.feePaid.toNat

theorem splitsFee_generateReceipt (success : Bool) (gasUsed gasRefund effectiveGas : U64) (baseFee : U128)
    (logs : List LogEntry) (returnData : Bytes) :
    SplitsFee (generateReceipt P tx success gasUsed gasRefund effectiveGas baseFee logs stateRoot returnData) :=
  distributeFee_toNat effectiveGas baseFee

theorem toNat_plainFee (hlimit : minGasLimit ≤ tx.gasLimit)
    (hfits : tx.gasLimit.toNat * ctx.baseFee.toNat < 2 ^ 128) :
    ((21000 : U64).setWidth 128 * ctx.baseFee).toNat = 21000 * ctx.baseFee.toNat := by
  rw [toNat_mul]
  have hle := Nat.mul_le_mul_right ctx.baseFee.toNat (BitVec.le_def.mp hlimit)
  exact Nat.mod_eq_of_lt (hle.trans_lt hfits)

/-- What is left of the sender's copy once the handler of a plain transfer is done. -/
theorem refundSender_plain {sender rcpt payer payee : Account} {charge : U128} {purse : Purse}
    (htype : tx.txType = .standard) (hpayer : tx.feePayer = .sender) (hlimit : minGasLimit ≤ tx.gasLimit)
    (hfits : tx.gasLimit.toNat * ctx.baseFee.toNat < 2 ^ 128)
    (hcharge : preExecutionCharge tx sender.purse ctx.baseFee = .ok (charge, purse))
    (htransfer : transferFor tx (sender.charged purse) rcpt = .ok (payer, payee)) :
    ∃ loss : U128, loss.toNat = 21000 * ctx.baseFee.toNat + tx.value.toNat ∧ loss ≤ sender.balance ∧
      (refundSender tx ctx payer (.done 21000 [])).1 = sender.less loss ∧ payee = rcpt.plus tx.value := by
  have hmovedValue : tx.movedValue = tx.value := by simp [Transaction.movedValue, TransactionType.carriesValue, htype]
  have hnotPaymaster : (∃ addr, tx.feePayer = .paymaster addr) →
      ctx.baseFee = 0 ∨ (Outcome.done 21000 []).gasUsed = 0 := by
    rintro ⟨addr, hpaymaster⟩
    rw [hpayer] at hpaymaster
    cases hpaymaster
  obtain ⟨debited, hdebit, hmoved, hfinal⟩ :=
    refundSender_of_charged hcharge htransfer (show (Outcome.done 21000 []).gasUsed ≤ _ from hlimit)
      hnotPaymaster
  obtain ⟨-, -, hpayee⟩ := transferFor_ok htransfer
  rw [hmovedValue] at hmoved hfinal hpayee
  have htank : paysFromTank tx ctx sender = false := by
    unfold paysFromTank
    rw [hpayer]
  rw [htank, Account.debit, if_neg (by decide)] at hdebit
  have heffective : (Outcome.done 21000 []).gasUsed - lesser (Outcome.done 21000 []).gasRefund
      ((Outcome.done 21000 []).gasUsed / 2) = 21000 := by
    decide
  rw [heffective] at hdebit
  have hfee := toNat_plainFee hlimit hfits
  generalize (21000 : U64).setWidth 128 * ctx.baseFee = fee at hdebit hfee
  split at hdebit
  · rename_i hfeeLe
    cases hdebit
    have hleft : (sender.balance - fee).toNat = sender.balance.toNat - fee.toNat := toNat_sub_of_le hfeeLe
    have hmovedNat := BitVec.le_def.mp hmoved
    have hfeeNat := BitVec.le_def.mp hfeeLe
    dsimp only at hmovedNat
    have hlt := sender.balance.isLt
    have hloss : (fee + tx.value).toNat = fee.toNat + tx.value.toNat := by
      rw [toNat_add]
      exact Nat.mod_eq_of_lt (by omega)
    refine ⟨fee + tx.value, by omega, ?_, ?_, hpayee⟩
    · rw [le_def]
      omega
    · have hbalance : sender.balance - fee - tx.value = sender.balance - (fee + tx.value) := by bv_omega
      rw [hfinal, Account.less, hbalance]
  · cases hdebit

variable (pvm aot ctx stateRoot) in
/-- Beyond the handler, a plain transfer is its two write-backs and a receipt for 21000 gas. -/
theorem run_runHandler_plain (htype : tx.txType = .standard)
    (hcode : st (codeKey P tx.toAddress) = none) (sender rcpt payer payee : Account) :
    ∃ receipt, runIn P (runHandler P pvm aot tx ctx stateRoot sender rcpt payer payee) st =
        (receipt, (runIn P (applyAccountDelta tx.toAddress rcpt payee)
          (runIn P (applyAccountDelta tx.fromAddress sender
            (refundSender tx ctx payer (.done 21000 [])).1) st).2).2) ∧
      receipt.feePaid = (21000 : U64).setWidth 128 * ctx.baseFee ∧ SplitsFee receipt := by
  simp only [runHandler, run_bind, run_dispatch_plain htype hcode, run_pure]
  refine ⟨_, rfl, ?_, splitsFee_generateReceipt _ _ _ _ _ _ _⟩
  simp only [generateReceipt]
  rw [(refundSender_snd _ _).2]
  rfl

variable (pvm) in
/-- A plain transfer takes its fee out of the sum, and nothing else. -/
theorem transfer_step (hinj : HashApart P (ledgerKeys accounts))
    (hledger : Ledger P accounts plain st) (hplain : plain ⊆ accounts)
    (htotal : totalBalance P accounts st < 2 ^ 128) (sub : Submission)
    (htransfer : PlainTransfer accounts plain sub) (hsmall : BelowSignBit sub) :
    let res := runIn P (sub.program P pvm) st
    Ledger P accounts plain res.2 ∧
      totalBalance P accounts res.2 + feeOf res.1 = totalBalance P accounts st ∧
      ∀ receipt, res.1 = .ok receipt → SplitsFee receipt := by
  obtain ⟨tx, ctx, aot, stateRoot⟩ := sub
  obtain ⟨htype, hchain, hsender, hrecipient⟩ := htransfer
  have hvalue : tx.value.toNat < 2 ^ 127 := hsmall.1
  have hboth : tx.value.toNat + 21000 * ctx.baseFee.toNat ≤ 2 ^ 127 := hsmall.2
  dsimp only [Submission.program] at *
  rcases executeTransaction_cases P pvm aot tx ctx stateRoot st with
    ⟨e, hrefused⟩ | ⟨hvalid, hperform⟩
  · rw [hrefused]
    refine ⟨hledger, rfl, ?_⟩
    intro receipt h
    cases h
  rw [hperform]
  obtain ⟨hledgerNonce, htotalNonce⟩ := hledger.nonceRecorded hinj hplain hsender
  rcases validateTransaction_funds hvalid with ⟨hregister, _⟩ | ⟨_, _, hlimit, _, hpayer, hfits, henough⟩
  · rw [htype] at hregister
    cases hregister
  have hpaysSender : tx.feePayer = .sender := hpayer hchain
  have hproduct : tx.gasLimit.toNat * ctx.baseFee.toNat < 2 ^ 128 := (Nat.le_add_right _ _).trans_lt hfits
  rcases perform_cases P pvm aot tx ctx stateRoot (nonceRecorded P tx st)
      (acctAt P st tx.fromAddress) (acctAt P st tx.toAddress) with
    ⟨reason, hcharge, -⟩ | ⟨charge, purse, hcharge, ⟨reason, -, hrun⟩ | ⟨payer, payee, hmove, hrun⟩⟩
  · exact absurd hcharge (charge_ne_error hpaysSender (henough hpaysSender))
  · rw [hrun]
    refine ⟨hledgerNonce, htotalNonce, ?_⟩
    intro receipt h
    cases h
  -- the transfer goes through
  have hcode : nonceRecorded P tx st (codeKey P tx.toAddress) = none := hledgerNonce.noCode _ hrecipient
  obtain ⟨loss, hloss, hlossLe, hfinal, hpayee⟩ :=
    refundSender_plain htype hpaysSender hlimit hproduct hcharge hmove
  obtain ⟨receipt, hmade, hfee, hsplit⟩ := run_runHandler_plain pvm aot ctx stateRoot htype
    hcode (acctAt P st tx.fromAddress) (acctAt P st tx.toAddress) payer payee
  have hfeeNat := toNat_plainFee hlimit hproduct
  rw [← hfee] at hfeeNat
  have hsenderKept : acctAt P (nonceRecorded P tx st) tx.fromAddress =
      acctAt P st tx.fromAddress :=
    acctAt_nonceRecorded (ledger_balanceKey_ne_nonceKey hinj hsender hsender)
  obtain ⟨hledgerPaid, htotalPaid⟩ := applyAccountDelta_loss hinj hledgerNonce hplain hsender
    hfinal (by omega) (by rwa [hsenderKept])
  -- the recipient's balance and the value were both part of the sum before
  have hbound := balance_le_total P (runIn P (applyAccountDelta tx.fromAddress
    (acctAt P st tx.fromAddress) (refundSender tx ctx payer (.done 21000 [])).1)
    (nonceRecorded P tx st)).2 (hplain hrecipient)
  obtain ⟨hledgerDone, htotalDone⟩ := applyAccountDelta_gain hinj hledgerPaid hplain (hplain hrecipient)
    hpayee hvalue (by omega)
  rw [hrun, hmade]
  refine ⟨hledgerDone, ?_, ?_⟩
  · simp only [feeOf, hfeeNat]
    omega
  · intro receipt' h
    cases h
    exact hsplit

end Step

/-! ### A list of transfers and the fees of the block -/

/-- The receipts among some results. -/
def receiptsOf (results : List (Submission × Except PipelineError Receipt)) : List Receipt :=
  results.filterMap fun res => res.2.toOption

theorem receiptsOf_cons (res : Submission × Except PipelineError Receipt)
    (results : List (Submission × Except PipelineError Receipt)) :
    receiptsOf (res :: results) = res.2.toOption.toList ++ receiptsOf results := by
  rcases res with ⟨sub, e | receipt⟩ <;> rfl

theorem sum_feePaid (res : Except PipelineError Receipt) :
    (res.toOption.toList.map fun r => r.feePaid.toNat).sum = feeOf res := by
  cases res <;> rfl

/-- What the receipts say was burned. -/
def burnedBy (receipts : List Receipt) : Nat := (receipts.map fun receipt => receipt.feeBurned.toNat).sum

/-- A list of transfers takes the fees in its receipts out of the sum. -/
theorem transfers_run (pvm : Pvm) (hinj : HashApart P (ledgerKeys accounts))
    (hplain : plain ⊆ accounts) {subs : List Submission}
    (htransfers : ∀ sub ∈ subs, PlainTransfer accounts plain sub)
    (hsmall : ∀ sub ∈ subs, BelowSignBit sub)
    (hledger : Ledger P accounts plain st) (htotal : totalBalance P accounts st < 2 ^ 128) :
    Ledger P accounts plain (executeAll P pvm subs st).2 ∧
      totalBalance P accounts (executeAll P pvm subs st).2 +
          ((receiptsOf (executeAll P pvm subs st).1).map fun r => r.feePaid.toNat).sum =
        totalBalance P accounts st ∧
      ∀ receipt ∈ receiptsOf (executeAll P pvm subs st).1, SplitsFee receipt := by
  induction subs generalizing st with
  | nil => exact ⟨hledger, rfl, fun _ h => by cases h⟩
  | cons sub rest ih =>
    rw [forall_mem_cons] at htransfers hsmall
    obtain ⟨hledgerStep, htotalStep, hsplit⟩ := transfer_step pvm hinj hledger hplain htotal
      sub htransfers.1 hsmall.1
    obtain ⟨hledgerRest, htotalRest, hsplitRest⟩ := ih htransfers.2 hsmall.2 hledgerStep (by omega)
    refine ⟨hledgerRest, ?_, ?_⟩
    · rw [executeAll, receiptsOf_cons, map_append, sum_append, sum_feePaid]
      dsimp only
      omega
    · intro receipt hreceipt
      rw [executeAll, receiptsOf_cons, mem_append, Option.mem_toList] at hreceipt
      rcases hreceipt with hfirst | hrest
      · refine hsplit receipt ?_
        revert hfirst
        cases (runIn P (sub.program P pvm) st).1 <;> simp [Except.toOption]
      · exact hsplitRest receipt hrest

theorem toNat_list_sum {amounts : List U128} (hfits : (amounts.map BitVec.toNat).sum < 2 ^ 128) :
    amounts.sum.toNat = (amounts.map BitVec.toNat).sum := by
  rw [toNat_sum]
  exact Nat.mod_eq_of_lt hfits

theorem run_creditFees (hfiled : Filed P st addr) (amt : U128) :
    (runIn P (creditFees addr amt) st).2 = if 0 < amt then
        StateProgram.insert stored st (balanceKey P addr) { acctAt P st addr with
            balance := (acctAt P st addr).balance + amt }.toBytes else st := by
  unfold creditFees
  split
  · simp only [run_bind, run_loadAccount, storeAccount, run_write]
    change StateProgram.insert stored st (balanceKey P (acctAt P st addr).address) _ = _
    rw [show (acctAt P st addr).address = addr from hfiled]
  · rfl

theorem creditFees_total (hinj : HashApart P (ledgerKeys accounts))
    (hplain : plain ⊆ accounts) (hledger : Ledger P accounts plain st) (haddr : addr ∈ accounts)
    (amt : U128) (hfits : totalBalance P accounts st + amt.toNat < 2 ^ 128) :
    Ledger P accounts plain (runIn P (creditFees addr amt) st).2 ∧
      totalBalance P accounts (runIn P (creditFees addr amt) st).2 =
        totalBalance P accounts st + amt.toNat := by
  have hfiled := hledger.filed addr haddr
  rw [run_creditFees hfiled]
  split
  · have hbound := balance_le_total P st haddr
    have hstorable : ({ acctAt P st addr with
        balance := (acctAt P st addr).balance + amt } : Account).authKeys.Storable :=
      storable_acctAt P st addr
    have hsum := totalBalance_insert hinj st haddr hstorable
    have hbalance : ((acctAt P st addr).balance + amt).toNat =
        (acctAt P st addr).balance.toNat + amt.toNat := by
      rw [toNat_add]
      exact Nat.mod_eq_of_lt (by omega)
    refine ⟨hledger.insert hinj hplain haddr hstorable hfiled, ?_⟩
    dsimp only at hsum ⊢
    omega
  · rename_i hzero
    have hnothing : amt.toNat = 0 := by bv_omega
    exact ⟨hledger, by rw [hnothing]; rfl⟩

theorem shares_sum {receipts : List Receipt} (hsplit : ∀ receipt ∈ receipts, SplitsFee receipt) :
    (receipts.map fun r => r.feeBurned.toNat).sum + (receipts.map fun r => r.feeValidator.toNat).sum +
        (receipts.map fun r => r.feeTreasury.toNat).sum = (receipts.map fun r => r.feePaid.toNat).sum := by
  rw [← sum_map_add, ← sum_map_add]
  exact congrArg sum (map_congr_left hsplit)

theorem toNat_share_sum (share : Receipt → U128) (receipts : List Receipt)
    (hfits : (receipts.map fun r => (share r).toNat).sum < 2 ^ 128) :
    (receipts.map share).sum.toNat = (receipts.map fun r => (share r).toNat).sum := by
  have hmap : (receipts.map share).map BitVec.toNat = receipts.map fun r => (share r).toNat := map_map
  rw [← hmap] at hfits ⊢
  exact toNat_list_sum hfits

theorem run_applyBlockFees (st : StateMap) (proposer : Address) (receipts : List Receipt) :
    (runIn P (applyBlockFees P proposer receipts) st).2 =
      (runIn P (creditFees (treasuryAddress P) (receipts.map Receipt.feeTreasury).sum)
        (runIn P (creditFees proposer (receipts.map Receipt.feeValidator).sum) st).2).2 := by
  simp only [applyBlockFees, run_bind]

/-- `apply_block_fees` adds the shares of proposer and treasury to the sum. -/
theorem applyBlockFees_total (hinj : HashApart P (ledgerKeys accounts))
    (hplain : plain ⊆ accounts) (hledger : Ledger P accounts plain st) {proposer : Address}
    (hproposer : proposer ∈ accounts) (htreasury : treasuryAddress P ∈ accounts) (receipts : List Receipt)
    (hfits : totalBalance P accounts st + (receipts.map fun r => r.feeValidator.toNat).sum +
      (receipts.map fun r => r.feeTreasury.toNat).sum < 2 ^ 128) :
    Ledger P accounts plain (runIn P (applyBlockFees P proposer receipts) st).2 ∧
      totalBalance P accounts (runIn P (applyBlockFees P proposer receipts) st).2 =
        totalBalance P accounts st + (receipts.map fun r => r.feeValidator.toNat).sum +
          (receipts.map fun r => r.feeTreasury.toNat).sum := by
  have hvalidator := toNat_share_sum Receipt.feeValidator receipts (by omega)
  have htreasuryShare := toNat_share_sum Receipt.feeTreasury receipts (by omega)
  obtain ⟨hledgerProposer, htotalProposer⟩ := creditFees_total hinj hplain hledger hproposer
    (receipts.map Receipt.feeValidator).sum (by omega)
  obtain ⟨hledgerTreasury, htotalTreasury⟩ := creditFees_total hinj hplain hledgerProposer htreasury
    (receipts.map Receipt.feeTreasury).sum (by omega)
  rw [run_applyBlockFees]
  exact ⟨hledgerTreasury, by omega⟩

variable {pvm : Pvm} {subs : List Submission} {proposer : Address}

/-- The state after the transfers and `apply_block_fees`. -/
def settleTransfers (P : Prims) (pvm : Pvm) (proposer : Address) (subs : List Submission)
    (st : StateMap) : StateMap :=
  (runIn P (applyBlockFees P proposer (receiptsOf (executeAll P pvm subs st).1))
    (executeAll P pvm subs st).2).2

/-- Plain transfers and the fees of their block change the sum of all balances by what is burned. -/
theorem transfers_conserve_supply (htransfers : ∀ sub ∈ subs, PlainTransfer accounts plain sub)
    (hplain : plain ⊆ accounts) (hproposer : proposer ∈ accounts) (htreasury : treasuryAddress P ∈ accounts)
    (hfree : P.CollisionFreeOn (StateKey.preimage '' ledgerKeys accounts))
    (hledger : Ledger P accounts plain st) (htotal : totalBalance P accounts st < 2 ^ 128)
    (hsmall : ∀ sub ∈ subs, BelowSignBit sub) :
    totalBalance P accounts (settleTransfers P pvm proposer subs st) +
        burnedBy (receiptsOf (executeAll P pvm subs st).1) = totalBalance P accounts st := by
  have hinj := StateKey.injOn_hash hfree
  obtain ⟨hledgerRun, htotalRun, hsplit⟩ := transfers_run pvm hinj hplain htransfers hsmall hledger htotal
  have hshares := shares_sum hsplit
  unfold settleTransfers burnedBy
  generalize receiptsOf (executeAll P pvm subs st).1 = receipts at *
  obtain ⟨-, htotalFees⟩ := applyBlockFees_total hinj hplain hledgerRun hproposer htreasury receipts (by omega)
  rw [htotalFees]
  omega

end

/-! ### Small and large transfers -/

/-- A signed transfer from account 1 on the chain with id 1. -/
def transferBetween (rcpt : U8) (value : U128) (nonce : U64) : Submission where
  tx :=
    signedByKey
      { fromAddress := fill32 1, toAddress := fill32 rcpt, value, data := [],
        gasLimit := 30000, nonce, signature := [], feePayer := .sender, accessList := [], deadline := none,
        chainId := 1, txType := .standard }
  ctx := mainContext
  native := false
  stateRoot := zero32

def threeAccounts : Finset Address := {fill32 1, fill32 2, treasuryAddress lucid}

def twoRecipients : Finset Address := {fill32 1, fill32 2}

/-- A transfer to the sender itself, and one to another account. -/
def smallTransfers : List Submission := [transferBetween 1 500 0, transferBetween 2 1000 1]

theorem mem_threeAccounts {addr : Address} : addr ∈ threeAccounts ↔
    addr = fill32 1 ∨ addr = fill32 2 ∨ addr = treasuryAddress lucid := by
  simp [threeAccounts]

/-- The records of the three accounts. They are compared as keys: addresses form a finite type, and a
decision over all of them would list it. -/
def threeAccountKeys : List StateKey :=
  [fill32 1, fill32 2, treasuryAddress lucid].flatMap fun addr =>
    [.account addr .balance, .account addr .nonce, .account addr .code]

theorem threeAccounts_keys_distinct : lucid.CollisionFreeOn (StateKey.preimage '' ledgerKeys threeAccounts) := by
  refine collisionFreeOn_of_listed threeAccountKeys (by decide +kernel) ?_
  rintro key ⟨addr, haddr, hkey⟩
  rcases mem_threeAccounts.mp haddr with rfl | rfl | rfl <;>
    rcases hkey with rfl | rfl | rfl <;> simp [threeAccountKeys]

theorem keyedState_ledger : Ledger lucid threeAccounts twoRecipients keyedState where
  filed addr haddr := by rcases mem_threeAccounts.mp haddr with rfl | rfl | rfl <;> decide +kernel
  noCode addr haddr := by
    have hrecipient : addr = fill32 1 ∨ addr = fill32 2 := by simpa [twoRecipients] using haddr
    rcases hrecipient with rfl | rfl <;> decide +kernel

/-- Both transfers are executed, with account 1 as the proposer, and 29400 quanta are burned. -/
theorem transfers_conserve_supply_small :
    totalBalance lucid threeAccounts (settleTransfers lucid idlePvm (fill32 1) smallTransfers
        keyedState) + burnedBy (receiptsOf (executeAll lucid idlePvm smallTransfers keyedState).1) =
      totalBalance lucid threeAccounts keyedState ∧
    burnedBy (receiptsOf (executeAll lucid idlePvm smallTransfers keyedState).1) = 29400 := by
  have htransfers : ∀ sub ∈ smallTransfers, PlainTransfer threeAccounts twoRecipients sub := by
    refine List.forall_mem_cons.mpr ⟨?_, List.forall_mem_singleton.mpr ?_⟩
    · constructor <;> decide
    · constructor <;> decide
  have hsmall : ∀ sub ∈ smallTransfers, BelowSignBit sub := by
    refine List.forall_mem_cons.mpr ⟨?_, List.forall_mem_singleton.mpr ?_⟩
    · constructor <;> decide
    · constructor <;> decide
  have hplain : twoRecipients ⊆ threeAccounts := by decide
  have htotal : totalBalance lucid threeAccounts keyedState < 2 ^ 128 := by decide +kernel
  have hburned : burnedBy (receiptsOf (executeAll lucid idlePvm smallTransfers keyedState).1) = 29400 := by
    decide +kernel
  exact ⟨transfers_conserve_supply htransfers hplain (by decide) (by decide) threeAccounts_keys_distinct
    keyedState_ledger htotal hsmall, hburned⟩

/-- A state in which account 1 holds more than half of what a balance can be. -/
def richState : StateMap :=
  StateProgram.insert stored (fun _ => none) (balanceKey lucid (fill32 1))
    { Account.empty (fill32 1) with
      balance := 170141183460469231731687303715885105728, authKeys := .single (lucidKey 7) }.toBytes

/-- A transfer of `2 ^ 127` quanta from it. The sender ends up with the largest balance there is, and the
recipient with nothing. -/
theorem large_transfer_creates_supply :
    ((executeAll lucid idlePvm [transferBetween 2 (2 ^ 127) 0] richState).1.map fun res =>
        res.2.toOption.map Receipt.success) = [some true] ∧
    totalBalance lucid threeAccounts richState = 2 ^ 127 + 1000000 ∧
    burnedBy (receiptsOf (executeAll lucid idlePvm [transferBetween 2 (2 ^ 127) 0] richState).1) = 14700 ∧
    (acctAt lucid (settleTransfers lucid idlePvm (fill32 3)
      [transferBetween 2 (2 ^ 127) 0] richState) (fill32 1)).balance = BitVec.allOnes 128 ∧
    (acctAt lucid (settleTransfers lucid idlePvm (fill32 3)
      [transferBetween 2 (2 ^ 127) 0] richState) (fill32 2)).balance = 0 := by
  decide +kernel

end Pyde
