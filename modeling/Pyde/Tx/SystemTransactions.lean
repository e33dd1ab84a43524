/-
Module: Pyde.Tx.SystemTransactions
Purpose: Transactions that carry no value. What the pipeline does before and after their handler touches nonce
  windows and account records only, so everything else in the state is as the handler leaves it; and the records
  are changed by the write-back of the sender alone.
Trusted boundary: Prims, Pvm
-/
import Pyde.Tx.FailedExecution

namespace Pyde

open ByteCodec StateProgram List

variable {charge : U128} {purse : Purse} {addr other : Address}

/-! ### Everything but records -/

def IsRecord (key : StateKey) : Prop := ∃ addr, key = .account addr .nonce ∨ key = .account addr .balance

def underKeys (P : Prims) (st : StateMap) : Store StateKey Bytes := fun key => st (key.hash P)

/-- The states agree on the keys in play, nonce windows and account records apart. -/
def SameSystem (P : Prims) (keys : Set StateKey) (st st' : StateMap) : Prop :=
  ∀ key ∈ keys, ¬ IsRecord key → st' (key.hash P) = st (key.hash P)

section

variable {P : Prims} {keys : Set StateKey} {st st' state'' : StateMap}

theorem SameSystem.refl (P : Prims) (keys : Set StateKey) (st : StateMap) : SameSystem P keys st st :=
  fun _ _ _ => rfl

theorem SameSystem.trans (h : SameSystem P keys st st') (h' : SameSystem P keys st' state'') :
    SameSystem P keys st state'' :=
  fun key hkey hsystem => (h' key hkey hsystem).trans (h key hkey hsystem)

theorem sameSystem_of_writes {α : Type} {program : StateProg α} (hprogram : program.Writes IsRecord)
    (hinj : HashApart P keys) (hwritten : ∀ key ∈ writtenKeys P program st, key ∈ keys) :
    SameSystem P keys st (runIn P program st).2 := by
  intro key hkey hsystem
  apply run_frame
  intro w hw heq
  have hsame := hinj (hwritten w.1 (mem_map_of_mem hw)) hkey heq
  exact hsystem (hsame ▸ hprogram.mem stored (StateKey.hash P) st w hw)

theorem isRecord_nonce (addr : Address) : IsRecord (.account addr .nonce) := ⟨addr, .inl rfl⟩

theorem isRecord_balance (addr : Address) : IsRecord (.account addr .balance) := ⟨addr, .inr rfl⟩

theorem writesRecord_applyAccountDelta (addr : Address) (initial final : Account) :
    (applyAccountDelta addr initial final).Writes IsRecord :=
  (writes_loadAccount addr).bind fun _ => Prog.writes_write.mpr (isRecord_balance _)

variable {tx : Transaction} {ctx : BlockContext} {stateRoot : Hash256}

theorem writesRecord_settle (senderInitial recipientInitial rcpt : Account) (res : Outcome × Account) :
    (settle P tx ctx stateRoot senderInitial recipientInitial rcpt res).Writes IsRecord :=
  (writesRecord_applyAccountDelta _ _ _).bind fun _ => (writesRecord_applyAccountDelta _ _ _).bind fun _ =>
    Prog.writes_pure _

theorem writesRecord_emitFailedExecutionReceipt (sender : Account) (reason : String) :
    (emitFailedExecutionReceipt P tx ctx stateRoot sender reason).Writes IsRecord :=
  (writesRecord_applyAccountDelta _ _ _).bind fun _ => Prog.writes_pure _

end

/-! ### Around the handler -/

section

variable (P : Prims) (pvm : Pvm) (sub : Submission) (st : StateMap)

/-- What the handler of a transaction answers, if it is reached: the transaction is admitted, and its sender can be
charged. -/
def handlerRun : Option ((Outcome × Account) × StateMap) :=
  match runIn P (admission P sub.tx sub.ctx) st with
  | (.error _, _) => none
  | (.ok (sender, _), noted) =>
    match preExecutionCharge sub.tx sender.purse sub.ctx.baseFee with
    | .error _ => none
    | .ok (_, purse) =>
      some (runIn P (dispatch P pvm sub.native sub.tx sub.ctx (sender.charged purse)) noted)

/-- What the handler does for a sender with this much left. -/
def Submission.handler (purse : Purse) : StateProg (Outcome × Account) :=
  dispatch P pvm sub.native sub.tx sub.ctx
    ((acctAt P st sub.tx.fromAddress).charged purse)

/-- The handler on the state in which the nonce is used up, for a sender with this much left. -/
def handled (purse : Purse) : (Outcome × Account) × StateMap :=
  runIn P (sub.handler P pvm st purse) (nonceRecorded P sub.tx st)

/-- The write-back of a transaction that moves no value: the recipient's record has not changed. -/
def settleSystem (answer : Outcome × Account) : StateProg Receipt :=
  settle P sub.tx sub.ctx sub.stateRoot (acctAt P st sub.tx.fromAddress)
    (acctAt P st sub.tx.toAddress) (acctAt P st sub.tx.toAddress) answer

/-- The receipt of a sender who could not be charged. -/
def settleUncharged (reason : String) : StateProg Receipt :=
  emitFailedExecutionReceipt P sub.tx sub.ctx sub.stateRoot
    (acctAt P st sub.tx.fromAddress) reason

/-- After `before`, the rest of the run is the given program, and its receipt is the result. -/
structure EndsWith (program : StateProg Receipt) (before : StateMap) : Prop where
  run : runIn P (sub.program P pvm) st = (.ok (runIn P program before).1, (runIn P program before).2)
  written : ∀ key ∈ writtenKeys P program before, key ∈ writtenKeys P (sub.program P pvm) st

end

section

variable {P : Prims} {pvm : Pvm} {sub : Submission} {st : StateMap}

theorem transferFor_valueless {tx : Transaction} (hvalue : tx.txType.carriesValue = false)
    (sender rcpt : Account) : transferFor tx sender rcpt = .ok (sender, rcpt) := by
  unfold transferFor
  rw [hvalue]
  rfl

variable (pvm) in
/-- Once the sender is charged, the handler runs and its answer is written back. -/
theorem perform_charged (hvalue : sub.tx.txType.carriesValue = false)
    (hcharge : preExecutionCharge sub.tx (acctAt P st sub.tx.fromAddress).purse
      sub.ctx.baseFee = .ok (charge, purse)) :
    perform P pvm sub.native sub.tx sub.ctx sub.stateRoot
        (acctAt P st sub.tx.fromAddress) (acctAt P st sub.tx.toAddress) =
      (dispatch P pvm sub.native sub.tx sub.ctx
        ((acctAt P st sub.tx.fromAddress).charged purse) >>=
          settleSystem P sub st) >>= fun receipt => pure (.ok receipt) := by
  unfold perform
  unfold Account.purse at hcharge
  rw [hcharge]
  dsimp only
  rw [transferFor_valueless hvalue]
  rfl

variable (P pvm sub st) in
/-- What a transaction without value comes to: it is turned away, its sender cannot be charged, or its handler
runs. -/
theorem execute_valueless_cases (hvalue : sub.tx.txType.carriesValue = false) :
    (handlerRun P pvm sub st = none ∧ ∃ e, runIn P (sub.program P pvm) st = (.error e, st)) ∨
    (handlerRun P pvm sub st = none ∧ ∃ reason,
      EndsWith P pvm sub st (settleUncharged P sub st reason)
        (nonceRecorded P sub.tx st)) ∨
    (∃ charge purse, preExecutionCharge sub.tx (acctAt P st sub.tx.fromAddress).purse
        sub.ctx.baseFee = .ok (charge, purse) ∧
      handlerRun P pvm sub st = some (handled P pvm sub st purse) ∧
      EndsWith P pvm sub st (settleSystem P sub st (handled P pvm sub st purse).1)
        (handled P pvm sub st purse).2) := by
  rcases admission_cases P sub.tx sub.ctx st with ⟨e, hadmission, -⟩ | ⟨used, -, huse, hadmission⟩
  · refine .inl ⟨?_, e, run_executeTransaction_of_refused hadmission⟩
    unfold handlerRun
    rw [hadmission]
  rw [nonceRecorded_of_ok huse] at hadmission
  obtain ⟨hrun, hsub⟩ := run_of_admitted pvm hadmission
  cases hcharge : preExecutionCharge sub.tx (acctAt P st sub.tx.fromAddress).purse
    sub.ctx.baseFee with
  | error reason =>
    have hperform : perform P pvm sub.native sub.tx sub.ctx sub.stateRoot
        (acctAt P st sub.tx.fromAddress) (acctAt P st sub.tx.toAddress) =
        settleUncharged P sub st reason >>= fun receipt => pure (.ok receipt) := by
      unfold perform
      unfold Account.purse at hcharge
      rw [hcharge]
      rfl
    refine .inr (.inl ⟨?_, reason, ?_, ?_⟩)
    · unfold handlerRun
      rw [hadmission]
      dsimp only
      rw [hcharge]
    · rw [hrun, hperform]
      simp only [run_bind, run_pure]
    · intro key hkey
      apply hsub
      rw [hperform, writtenKeys_bind]
      exact mem_append_left _ hkey
  | ok charged =>
    obtain ⟨charge, purse⟩ := charged
    have hperform := perform_charged pvm hvalue hcharge
    refine .inr (.inr ⟨charge, purse, rfl, ?_, ?_, ?_⟩)
    · unfold handlerRun
      rw [hadmission]
      dsimp only
      rw [hcharge]
      rfl
    · rw [hrun, hperform]
      simp only [run_bind, run_pure]
      rfl
    · intro key hkey
      apply hsub
      rw [hperform, writtenKeys_bind, writtenKeys_bind]
      exact mem_append_left _ (mem_append_right _ hkey)

theorem written_handler (hvalue : sub.tx.txType.carriesValue = false)
    (hcharge : preExecutionCharge sub.tx (acctAt P st sub.tx.fromAddress).purse
      sub.ctx.baseFee = .ok (charge, purse))
    (hhandler : handlerRun P pvm sub st = some (handled P pvm sub st purse)) :
    ∀ key ∈ writtenKeys P (sub.handler P pvm st purse) (nonceRecorded P sub.tx st),
      key ∈ writtenKeys P (sub.program P pvm) st := by
  intro key hkey
  rcases admission_cases P sub.tx sub.ctx st with ⟨e, hadmission, -⟩ | ⟨used, -, huse, hadmission⟩
  · unfold handlerRun at hhandler
    rw [hadmission] at hhandler
    cases hhandler
  rw [nonceRecorded_of_ok huse] at hadmission
  apply (run_of_admitted pvm hadmission).2
  rw [perform_charged pvm hvalue hcharge, writtenKeys_bind, writtenKeys_bind]
  exact mem_append_left _ (mem_append_left _ hkey)

/-! ### What is not a record -/

section

variable {keys : Set StateKey}

theorem sameSystem_nonceRecorded (hinj : HashApart P keys) {tx : Transaction}
    (hsender : .account tx.fromAddress .nonce ∈ keys) : SameSystem P keys st (nonceRecorded P tx st) := by
  intro key hkey hsystem
  apply nonceRecorded_of_ne
  intro heq
  have hnonce := hinj hkey hsender heq
  exact hsystem (hnonce ▸ isRecord_nonce _)

/-- Beyond the records, the writes of the handler are the writes of the transaction. -/
theorem execute_replayed (hvalue : sub.tx.txType.carriesValue = false)
    (hinj : HashApart P keys) (hsender : .account sub.tx.fromAddress .nonce ∈ keys)
    (hwritten : ∀ key ∈ writtenKeys P (sub.program P pvm) st, key ∈ keys) :
    (takesEffect (runIn P (sub.program P pvm) st).1 = false ∧
      SameSystem P keys st (runIn P (sub.program P pvm) st).2) ∨
    (∃ purse receipt, (runIn P (sub.program P pvm) st).1 = .ok receipt ∧
      receipt.success = (handled P pvm sub st purse).1.1.success ∧
      receipt.returnData = (handled P pvm sub st purse).1.1.returnData ∧
      (∀ w ∈ writes stored (StateKey.hash P) (sub.handler P pvm st purse)
        (nonceRecorded P sub.tx st), w.1 ∈ keys) ∧
      ∀ key ∈ keys, ¬ IsRecord key → (runIn P (sub.program P pvm) st).2 (key.hash P) =
        replay stored id (writes stored (StateKey.hash P) (sub.handler P pvm st purse)
          (nonceRecorded P sub.tx st)) (underKeys P st) key) := by
  rcases execute_valueless_cases P pvm sub st hvalue with
    ⟨-, e, hrun⟩ | ⟨-, reason, hend⟩ | ⟨charge, purse, hcharge, hhandler, hend⟩
  · rw [hrun]
    exact .inl ⟨rfl, SameSystem.refl P keys st⟩
  · have hsame := sameSystem_of_writes (writesRecord_emitFailedExecutionReceipt _ reason) hinj
      (fun key hkey => hwritten key (hend.written key hkey))
    rw [hend.run]
    exact .inl ⟨rfl, (sameSystem_nonceRecorded hinj hsender).trans hsame⟩
  have hsame := sameSystem_of_writes (writesRecord_settle _ _ _ (handled P pvm sub st purse).1) hinj
    (fun key hkey => hwritten key (hend.written key hkey))
  have hlog : ∀ w ∈ writes stored (StateKey.hash P) (sub.handler P pvm st purse)
      (nonceRecorded P sub.tx st), w.1 ∈ keys := fun w hw =>
    hwritten w.1 (written_handler hvalue hcharge hhandler w.1 (mem_map_of_mem hw))
  rw [hend.run]
  refine .inr ⟨purse, _, rfl, rfl, rfl, hlog, fun key hkey hsystem => ?_⟩
  have hnoted : underKeys P (nonceRecorded P sub.tx st) key = underKeys P st key :=
    sameSystem_nonceRecorded hinj hsender key hkey hsystem
  calc
    _ = (handled P pvm sub st purse).2 (key.hash P) := hsame key hkey hsystem
    _ = replay stored (StateKey.hash P) _ (nonceRecorded P sub.tx st) (key.hash P) :=
        congrFun (run_snd stored (StateKey.hash P) (sub.handler P pvm st purse) _) _
    _ = replay stored id _ (underKeys P (nonceRecorded P sub.tx st)) key :=
        replay_of_injOn stored (StateKey.hash P) hinj hlog (fun _ _ => rfl) key hkey
    _ = _ := replay_congr stored id hnoted _

end

/-! ### Records -/

section

variable {keys : Set StateKey} (hinj : HashApart P keys) (haddr : .account addr .balance ∈ keys)
  (hother : .account other .balance ∈ keys)
include hinj haddr hother

theorem balanceKey_eq_iff : balanceKey P other = balanceKey P addr ↔ other = addr := by
  constructor
  · intro h
    have hkey := hinj hother haddr h
    cases hkey
    rfl
  · rintro rfl
    rfl

theorem acctAt_insert {account : Account} (hstorable : account.authKeys.Storable) :
    acctAt P (StateProgram.insert stored st (balanceKey P addr) account.toBytes) other =
      if other = addr then account else acctAt P st other := by
  split
  next h =>
    subst h
    exact acctAt_insert_self hstorable
  next h =>
    exact acctAt_insert_of_ne (fun heq => h ((balanceKey_eq_iff hinj haddr hother).mp heq)) _

theorem acctAt_applyAccountDelta {initial final : Account} (hfiled : Filed P st addr)
    (hkeys : final.authKeys = initial.authKeys) :
    acctAt P (runIn P (applyAccountDelta addr initial final) st).2 other =
      if other = addr then (acctAt P st addr).deltaApplied initial final
      else acctAt P st other := by
  have hstorable : ((acctAt P st addr).deltaApplied initial final).authKeys.Storable := by
    simp only [Account.deltaApplied, hkeys, ne_eq, not_true_eq_false, if_false]
    exact storable_acctAt P st addr
  rw [run_applyAccountDelta hfiled]
  exact acctAt_insert hinj haddr hother hstorable

end

/-- A transaction whose handler is not reached changes at most its sender's records. -/
theorem execute_unhandled {keys : Set StateKey} (hvalue : sub.tx.txType.carriesValue = false)
    (hinj : HashApart P keys) (hnonce : .account sub.tx.fromAddress .nonce ∈ keys)
    (hsender : .account sub.tx.fromAddress .balance ∈ keys)
    (hwritten : ∀ key ∈ writtenKeys P (sub.program P pvm) st, key ∈ keys)
    (hfiled : Filed P st sub.tx.fromAddress) (hnone : handlerRun P pvm sub st = none) :
    takesEffect (runIn P (sub.program P pvm) st).1 = false ∧
      SameSystem P keys st (runIn P (sub.program P pvm) st).2 ∧
      ∀ other, .account other .balance ∈ keys → other ≠ sub.tx.fromAddress →
        acctAt P (runIn P (sub.program P pvm) st).2 other = acctAt P st other := by
  rcases execute_valueless_cases P pvm sub st hvalue with
    ⟨-, e, hrun⟩ | ⟨-, reason, hend⟩ | ⟨charge, purse, -, hhandler, -⟩
  · rw [hrun]
    exact ⟨rfl, SameSystem.refl P keys st, fun _ _ _ => rfl⟩
  · have hsame := sameSystem_of_writes (writesRecord_emitFailedExecutionReceipt _ reason) hinj
      (fun key hkey => hwritten key (hend.written key hkey))
    rw [hend.run]
    refine ⟨rfl, (sameSystem_nonceRecorded hinj hnonce).trans hsame, fun other hother hne => ?_⟩
    have hfiledNoted : Filed P (nonceRecorded P sub.tx st) sub.tx.fromAddress := by
      unfold Filed
      rw [acctAt_noted hinj hnonce hsender]
      exact hfiled
    unfold settleUncharged
    rw [run_emitFailedExecutionReceipt_snd, acctAt_applyAccountDelta hinj hsender hother hfiledNoted (by rfl),
      if_neg hne, acctAt_noted hinj hnonce hother]
  · rw [hnone] at hhandler
    cases hhandler

theorem deltaApplied_same (cur initial : Account) : cur.deltaApplied initial initial = cur := by
  simp [Account.deltaApplied]

theorem authKeys_refundSender (tx : Transaction) (ctx : BlockContext) (sender : Account) (outcome : Outcome) :
    (refundSender tx ctx sender outcome).1.authKeys = sender.authKeys := by
  unfold refundSender
  split <;> rfl

theorem acctAt_settleSystem {keys : Set StateKey} (hinj : HashApart P keys)
    {answer : Outcome × Account} {after : StateMap}
    (hsender : .account sub.tx.fromAddress .balance ∈ keys)
    (hrecipient : .account sub.tx.toAddress .balance ∈ keys)
    (hother : .account other .balance ∈ keys) (hfiled : Filed P after sub.tx.fromAddress)
    (hfiledTo : Filed P after sub.tx.toAddress)
    (hkeys : answer.2.authKeys = (acctAt P st sub.tx.fromAddress).authKeys) :
    acctAt P (runIn P (settleSystem P sub st answer) after).2 other =
      if other = sub.tx.fromAddress then (acctAt P after sub.tx.fromAddress).deltaApplied
          (acctAt P st sub.tx.fromAddress)
          (refundSender sub.tx sub.ctx answer.2 answer.1).1 else acctAt P after other := by
  have hfinal : (refundSender sub.tx sub.ctx answer.2 answer.1).1.authKeys =
      (acctAt P st sub.tx.fromAddress).authKeys := (authKeys_refundSender _ _ _ _).trans hkeys
  -- the second write-back puts the recipient's record back as it is
  have hsecond : ∀ middle : StateMap, Filed P middle sub.tx.toAddress →
      acctAt P (runIn P (applyAccountDelta sub.tx.toAddress
        (acctAt P st sub.tx.toAddress) (acctAt P st sub.tx.toAddress)) middle).2
        other = acctAt P middle other := by
    intro middle hmiddle
    rw [acctAt_applyAccountDelta hinj hrecipient hother hmiddle rfl, deltaApplied_same]
    split
    next h => rw [h]
    next => rfl
  have hkept : Filed P (runIn P (applyAccountDelta sub.tx.fromAddress
      (acctAt P st sub.tx.fromAddress)
      (refundSender sub.tx sub.ctx answer.2 answer.1).1) after).2 sub.tx.toAddress := by
    unfold Filed
    rw [acctAt_applyAccountDelta hinj hsender hrecipient hfiled hfinal]
    split
    next h =>
      rw [h]
      exact hfiled
    next => exact hfiledTo
  have hrun : (runIn P (settleSystem P sub st answer) after).2 =
      (runIn P (applyAccountDelta sub.tx.toAddress (acctAt P st sub.tx.toAddress)
        (acctAt P st sub.tx.toAddress)) (runIn P (applyAccountDelta sub.tx.fromAddress
        (acctAt P st sub.tx.fromAddress)
        (refundSender sub.tx sub.ctx answer.2 answer.1).1) after).2).2 := by
    unfold settleSystem settle
    simp only [run_bind, run_pure]
  rw [hrun, hsecond _ hkept, acctAt_applyAccountDelta hinj hsender hother hfiled hfinal]

/-- The fee in the receipt of a transaction whose handler ran. -/
def feeFor (ctx : BlockContext) (outcome : Outcome) : U128 :=
  (outcome.gasUsed - lesser outcome.gasRefund (outcome.gasUsed / 2)).setWidth 128 * ctx.baseFee

theorem feePaid_settleSystem (answer : Outcome × Account) (after : StateMap) :
    (runIn P (settleSystem P sub st answer) after).1.feePaid = feeFor sub.ctx answer.1 := by
  unfold settleSystem settle feeFor
  simp only [run_bind, run_pure, generateReceipt]
  rw [(refundSender_snd _ _).2]

section

variable {tx : Transaction} {ctx : BlockContext} {sender : Account} {outcome : Outcome}

/-- The sender's copy after charge, credit and refund, if the gas is within the limit. -/
theorem refundSender_credited (credit : U128)
    (hcharge : preExecutionCharge tx sender.purse ctx.baseFee = .ok (charge, purse))
    (hused : outcome.gasUsed ≤ tx.gasLimit) (hfits : sender.balance.toNat + credit.toNat < 2 ^ 128) :
    (refundSender tx ctx ((sender.charged purse).setBalance (satAdd purse.balance credit)) outcome).1.balance.toNat +
        (if tx.feePayer = .sender then (feeFor ctx outcome).toNat else 0) = sender.balance.toNat + credit.toNat := by
  obtain ⟨hlimit, hcases⟩ := preExecutionCharge_ok hcharge
  have hsum := fee_of_gas_within outcome.gasRefund hused hlimit
  have hadd : ∀ balance : U128, balance.toNat + credit.toNat < 2 ^ 128 →
      (satAdd balance credit).toNat = balance.toNat + credit.toNat := by
    intro balance h
    rw [satAdd, if_pos h, BitVec.toNat_add, Nat.mod_eq_of_lt h]
  unfold feeFor refundSender Account.setBalance
  rcases hcases with ⟨hpayer, hamount, henough, rfl⟩ | ⟨addr, hpayer, -, -, -, rfl⟩ | ⟨addr, hpayer, -, rfl⟩
  · have hbalance : (sender.purse.balance - charge).toNat = sender.balance.toNat - charge.toNat :=
      BitVec.toNat_sub_of_le (BitVec.le_def.mpr (by omega))
    have hleft : charge.toNat ≤ sender.balance.toNat := (Nat.le_add_right _ _).trans henough
    have hcredited := hadd (sender.purse.balance - charge) (by omega)
    rw [hpayer, if_pos rfl]
    dsimp only
    rw [postExecutionRefund, BitVec.toNat_add]
    change ((satAdd (sender.purse.balance - charge) credit).toNat +
      (refundAmount tx ctx outcome.gasUsed (lesser outcome.gasRefund (outcome.gasUsed / 2))).toNat) % 2 ^ 128 + _ = _
    rw [Nat.mod_eq_of_lt (by omega)]
    omega
  · rw [hpayer, if_neg (by simp)]
    exact hadd sender.balance hfits
  · rw [hpayer, if_neg (by simp)]
    exact hadd sender.balance hfits

theorem refundSender_uncredited (hcharge : preExecutionCharge tx sender.purse ctx.baseFee = .ok (charge, purse))
    (hused : outcome.gasUsed ≤ tx.gasLimit) :
    (refundSender tx ctx (sender.charged purse) outcome).1.balance.toNat +
        (if tx.feePayer = .sender then (feeFor ctx outcome).toNat else 0) = sender.balance.toNat := by
  have hzero : satAdd purse.balance 0#128 = purse.balance := by
    rw [satAdd, if_pos (by simpa using purse.balance.isLt), BitVec.add_zero]
  have hrefund := refundSender_credited 0#128 hcharge hused (by simpa using sender.balance.isLt)
  rw [hzero] at hrefund
  exact hrefund

end

end

end Pyde
