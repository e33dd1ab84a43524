/-
Module: Pyde.Node.Decryption
Purpose: Executing the decrypted transactions of a block, and what becomes of the fees they pay.
Trusted boundary: Prims, Pvm, Threshold, the root of the tree
-/
import Pyde.Node.StateLayers
import Pyde.Tx.SupplyConservation

namespace Pyde

open ByteCodec StateProgram

/-! ### Decrypting and executing -/

inductive DecryptOutcome where
  | executed (txCount : Nat) (receipts : List Receipt)
  | headerMissing
  | txRootMismatch
  | decryptFailed (e : String)

/-- What `try_decrypt_and_execute` is called with: what the block store holds for the slot, the decryptor,
and the parameters of the block. -/
structure DecryptionCall where
  slot : U64
  header : Option BlockHeader
  plaintextTxs : List Transaction
  decryptor : BlockDecryptor
  blockGasLimit : U64
  baseFee : U128
  chainId : U64

def verifyDecryptorAgainstCommittedRoot (P : Prims) (committedTxRoot : Hash256)
    (plaintextTxs : List Transaction) (encryptedTxs : List EncryptedTx) : Bool :=
  verifyTxRoot P committedTxRoot plaintextTxs (encryptedTxs.map (EncryptedTx.hash P))

/-- One entry of `verify_results`: a sender without a key of their own is turned away. -/
def encryptedVerdict (P : Prims) (store : StateMap) (etx : EncryptedTx) : Bool :=
  match registeredKey P store etx.sender with
  | some pk => etx.verifySignatureWithKey P pk
  | none => false

namespace DecryptionCall

/-- The block context of decrypted transactions. Their signatures have been checked in another domain. -/
def context (call : DecryptionCall) (header : BlockHeader) : BlockContext where
  height := call.slot
  timestamp := header.timestamp
  baseFee := call.baseFee
  blockGasLimit := call.blockGasLimit
  chainId := call.chainId
  devSkipSignature := true
  blockSigsPreVerified := false

/-- Everything before the first transaction: the decrypted transactions, each with the verdict on its
signature. -/
def batch (P : Prims) (T : Threshold) (call : DecryptionCall) (store : StateMap) :
    Except DecryptOutcome (BlockContext × List (Transaction × Bool)) :=
  match call.header with
  | none => .error .headerMissing
  | some header =>
    if verifyDecryptorAgainstCommittedRoot P header.txRoot call.plaintextTxs call.decryptor.encryptedTxs then
      let verifyResults := call.decryptor.encryptedTxs.map (encryptedVerdict P store)
      match call.decryptor.decryptAll T with
      | .error e => .error (.decryptFailed e)
      | .ok decryptedTxs => .ok (call.context header, decryptedTxs.zip verifyResults)
    else .error .txRootMismatch

end DecryptionCall

section

variable (P : Prims) (pvm : Pvm)

/-- Turn `i` of the loop; a transaction that did not verify is passed over. -/
def decryptedProgram (txs : List (Transaction × Bool)) (ctx : BlockContext) (stateRoot : Hash256) (i : Nat) :
    StateProg (Option (Except PipelineError Receipt)) :=
  match txs[i]? with
  | some (tx, true) => do
    let answer ← executeTransaction P pvm false tx ctx stateRoot
    pure (some answer)
  | _ => pure none

def decryptedRun (txs : List (Transaction × Bool)) (ctx : BlockContext) (st : Layers) :
    List (Nat × Option (Except PipelineError Receipt)) × ListedOverlay Hash256 Bytes :=
  runEach (ListedOverlay.backend stored) (StateKey.hash P) (decryptedProgram P pvm txs ctx st.root)
    (List.range txs.length) (ListedOverlay.new st.get)

/-- `try_decrypt_and_execute`. A transaction that the pipeline refused leaves no receipt. -/
def tryDecryptAndExecute (T : Threshold) (rootOf : StateMap → Hash256) (call : DecryptionCall)
    (st : Layers) : DecryptOutcome × Layers :=
  match call.batch P T st.get with
  | .error outcome => (outcome, st)
  | .ok (ctx, txs) =>
    let run := decryptedRun P pvm txs ctx st
    let deferred := deferWrites st run.2.writes
    let recorded := if undoOf run.2 = [] then deferred else deferred.recordBlockUndo call.slot (undoOf run.2)
    (.executed (txs.countP Prod.snd) (run.1.filterMap fun r => r.2.bind Except.toOption),
      (recorded.flushPending rootOf).refreshRoot rootOf)

end

/-! ### The state afterwards -/

namespace Layers

/-- What is deferred is cached. Only `revert_to` can break this. -/
def Covered (st : Layers) : Prop := ∀ w ∈ st.pendingWrites, (st.cache w.1).isSome

theorem Covered.deferWrites {st : Layers} (h : st.Covered) (entries : List (Hash256 × Bytes)) :
    (deferWrites st entries).Covered := by
  unfold Pyde.deferWrites
  split
  · exact h
  intro w hw
  rcases List.mem_append.mp hw with hw | hw
  · exact WriteBehind.isSome_fill entries (h w hw)
  · exact WriteBehind.isSome_fill_of_mem hw st.cache

theorem Covered.get_flushPending {st : Layers} (h : st.Covered)
    (rootOf : StateMap → Hash256) : (st.flushPending rootOf).get = st.get := by
  unfold flushPending
  split
  · rfl
  funext key
  change WriteBehind.lookup stored st.cache (updateAll st.pendingWrites st.smt) key = _
  unfold get WriteBehind.lookup
  cases hkey : st.cache key with
  | some value => rfl
  | none =>
    have huntouched : ∀ w ∈ st.pendingWrites, id w.1 ≠ key := by
      rintro w hw rfl
      have hcached := h w hw
      rw [id] at hkey
      rw [hkey] at hcached
      exact Bool.false_ne_true hcached
    exact replay_of_untouched stored id huntouched st.smt

end Layers

section

variable {P : Prims} {pvm : Pvm} {T : Threshold} {rootOf : StateMap → Hash256}
  {call : DecryptionCall} {st : Layers} {ctx : BlockContext} {txs : List (Transaction × Bool)}

/-- The state in which decrypted transaction `i` starts. -/
def decryptedBefore (P : Prims) (pvm : Pvm) (txs : List (Transaction × Bool)) (ctx : BlockContext)
    (st : Layers) (i : Nat) : StateMap :=
  stateBefore stored (StateKey.hash P) (decryptedProgram P pvm txs ctx st.root) st.get i

theorem get_tryDecryptAndExecute (hbatch : call.batch P T st.get = .ok (ctx, txs)) (hcovered : st.Covered) :
    (tryDecryptAndExecute P pvm T rootOf call st).2.get = decryptedBefore P pvm txs ctx st txs.length := by
  have hdeferred := hcovered.deferWrites (decryptedRun P pvm txs ctx st).2.writes
  have hwritten : (deferWrites st (decryptedRun P pvm txs ctx st).2.writes).get =
      decryptedBefore P pvm txs ctx st txs.length := by
    rw [get_deferWrites, decryptedRun, ListedOverlay.replay_runEach]
    exact (runEach_snd stored (StateKey.hash P) (decryptedProgram P pvm txs ctx st.root)
      (List.range txs.length) st.get).symm
  simp only [tryDecryptAndExecute, hbatch]
  split
  · exact (hdeferred.get_flushPending rootOf).trans hwritten
  have hrecorded : ((deferWrites st (decryptedRun P pvm txs ctx st).2.writes).recordBlockUndo call.slot
      (undoOf (decryptedRun P pvm txs ctx st).2)).Covered := hdeferred
  exact (hrecorded.get_flushPending rootOf).trans hwritten

theorem tryDecryptAndExecute_of_error {outcome : DecryptOutcome} (hbatch : call.batch P T st.get = .error outcome) :
    tryDecryptAndExecute P pvm T rootOf call st = (outcome, st) := by
  simp only [tryDecryptAndExecute, hbatch]

/-- Decrypted transactions run at the base fee of the call. They are `Standard` ones that the sender pays
for. -/
theorem batch_ok (hbatch : call.batch P T st.get = .ok (ctx, txs)) :
    ctx.baseFee = call.baseFee ∧
      ∀ tx verified, (tx, verified) ∈ txs → tx.feePayer = .sender ∧ tx.txType = .standard := by
  unfold DecryptionCall.batch at hbatch
  split at hbatch
  · cases hbatch
  split at hbatch
  · cases hdecrypt : call.decryptor.decryptAll T with
    | error e =>
      rw [hdecrypt] at hbatch
      cases hbatch
    | ok decryptedTxs =>
      rw [hdecrypt] at hbatch
      cases hbatch
      refine ⟨rfl, fun tx verified htx => ?_⟩
      exact BlockDecryptor.decryptAll_ok hdecrypt tx (List.of_mem_zip htx).1
  · cases hbatch

end

/-! ### What becomes of the fees -/

def burnedRecord (P : Prims) (store : StateMap) : Nat := (runIn P readTotalBurned store).1.toNat

/-- What was debited equals what proposer and treasury gained since the last transaction ended, and what
was added to the counter of burned fees. -/
def FeesAccounted (P : Prims) (proposer : Address) (debited : Int) (executed settled : StateMap) : Prop :=
  debited =
    (totalBalance P {proposer, treasuryAddress P} settled - totalBalance P {proposer, treasuryAddress P} executed)
      + (burnedRecord P settled - burnedRecord P executed)

section

variable (P : Prims) (pvm : Pvm) (tx : Transaction) (ctx : BlockContext) (stateRoot : Hash256)
  (store : StateMap)

/-- What the sender of a transaction is debited for gas. A transaction without a receipt costs nothing. -/
def gasDebitedBy : Int :=
  match (runIn P (executeTransaction P pvm false tx ctx stateRoot) store).1 with
  | .ok receipt => gasDebited tx ctx (acctAt P store tx.fromAddress) receipt
  | .error _ => 0

/-- The transaction is turned away, or its gas costs nothing. -/
def ChargesNothing : Prop :=
  (∃ e, (runIn P (admission P tx ctx) store).1 = .error e) ∨ ctx.baseFee = 0 ∨
    callGas P pvm false tx ctx (nonceRecorded P tx store) = some 0

/-- The virtual machine reports no more gas than the limit. -/
def CallWithinLimit : Prop :=
  ∀ gas, callGas P pvm false tx ctx (nonceRecorded P tx store) = some gas → gas ≤ tx.gasLimit

variable {P tx ctx store} in
theorem transferFor_ne_error {sender rcpt : Account} {reason : String}
    (henough : tx.value ≤ sender.balance) : transferFor tx sender rcpt ≠ .error reason := by
  intro h
  unfold transferFor at h
  split at h
  · unfold transferValue at h
    split at h
    · cases h
    · rw [if_neg (BitVec.not_lt.mpr henough)] at h
      cases h
  · cases h

variable {P tx ctx store} in
/-- A valid transaction that its sender pays for is charged, and its value is moved. -/
theorem runs_handler {vesting : Option VestingSchedule} {nonceState : NonceState} {sender : Account}
    (hpayer : tx.feePayer = .sender) (htype : tx.txType = .standard)
    (hvalid : validateTransaction P tx sender nonceState (validationContext ctx vesting) = .ok ())
    (rcpt : Account) :
    ∃ charge purse payer payee, preExecutionCharge tx sender.purse ctx.baseFee = .ok (charge, purse) ∧
      transferFor tx (sender.charged purse) rcpt = .ok (payer, payee) := by
  rcases validateTransaction_funds hvalid with ⟨hregister, _⟩ | ⟨_, _, _, _, _, _, henough⟩
  · rw [htype] at hregister
    cases hregister
  cases hcharge : preExecutionCharge tx sender.purse ctx.baseFee with
  | error reason => exact absurd hcharge (charge_ne_error hpayer (henough hpayer))
  | ok charged =>
    obtain ⟨charge, purse⟩ := charged
    obtain ⟨-, ⟨-, -, hfunds, hleft⟩ | ⟨addr, hother, -⟩ | ⟨addr, hother, -⟩⟩ :=
      preExecutionCharge_ok hcharge
    · have hvalue : tx.value ≤ (sender.charged purse).balance := by
        rw [hleft]
        change tx.value ≤ sender.balance - charge
        change charge.toNat + tx.value.toNat ≤ sender.balance.toNat at hfunds
        have hsub : (sender.balance - charge).toNat = sender.balance.toNat - charge.toNat :=
          BitVec.toNat_sub_of_le (by rw [BitVec.le_def]; omega)
        rw [BitVec.le_def, hsub]
        omega
      cases htransfer : transferFor tx (sender.charged purse) rcpt with
      | error reason => exact absurd htransfer (transferFor_ne_error hvalue)
      | ok moved => exact ⟨charge, purse, moved.1, moved.2, rfl, htransfer⟩
    · rw [hpayer] at hother
      cases hother
    · rw [hpayer] at hother
      cases hother

variable {P pvm tx ctx stateRoot} in
/-- The answer for a sender who has been charged, once the value is moved. -/
theorem perform_of_transfer {sender rcpt payer payee : Account} {charge : U128} {purse : Purse}
    (hcharge : preExecutionCharge tx sender.purse ctx.baseFee = .ok (charge, purse))
    (htransfer : transferFor tx (sender.charged purse) rcpt = .ok (payer, payee)) (store : StateMap) :
    (runIn P (perform P pvm false tx ctx stateRoot sender rcpt) store).1 =
      .ok (runIn P (runHandler P pvm false tx ctx stateRoot sender rcpt payer payee) store).1 := by
  rcases perform_cases P pvm false tx ctx stateRoot store sender rcpt with
    ⟨reason, hfailed, -⟩ | ⟨charge', purse', hcharge',
      ⟨reason, hfailed, -⟩ | ⟨payer', payee', hmoved, hrun⟩⟩
  · rw [hcharge] at hfailed
    cases hfailed
  · rw [hcharge] at hcharge'
    cases hcharge'
    rw [htransfer] at hfailed
    cases hfailed
  rw [hcharge] at hcharge'
  cases hcharge'
  rw [htransfer] at hmoved
  cases hmoved
  rw [hrun]

/-- A decrypted transaction costs nothing if it charges nothing, and within the gas limit only then. -/
theorem gasDebitedBy_eq_zero (hpayer : tx.feePayer = .sender) (htype : tx.txType = .standard) :
    (ChargesNothing P pvm tx ctx store → gasDebitedBy P pvm tx ctx stateRoot store = 0) ∧
      (CallWithinLimit P pvm tx ctx store → 0 ≤ gasDebitedBy P pvm tx ctx stateRoot store ∧
          (gasDebitedBy P pvm tx ctx stateRoot store = 0 → ChargesNothing P pvm tx ctx store)) := by
  rcases admission_cases P tx ctx store with ⟨e, hrefused, -⟩ | ⟨used, hvalid, huse, hadmission⟩
  · have hzero : gasDebitedBy P pvm tx ctx stateRoot store = 0 := by
      unfold gasDebitedBy
      rw [run_executeTransaction_of_refused hrefused]
    rw [hzero]
    exact ⟨fun _ => rfl, fun _ => ⟨le_rfl, fun _ => Or.inl ⟨e, by rw [hrefused]⟩⟩⟩
  obtain ⟨charge, purse, payer, payee, hcharge, htransfer⟩ :=
    runs_handler hpayer htype hvalid (acctAt P store tx.toAddress)
  have hperform : runIn P (executeTransaction P pvm false tx ctx stateRoot) store =
      runIn P (perform P pvm false tx ctx stateRoot (acctAt P store tx.fromAddress)
        (acctAt P store tx.toAddress)) (nonceRecorded P tx store) := by
    simp only [executeTransaction, run_bind, hadmission, nonceRecorded, huse]
  have hadmitted : ¬ ∃ e, (runIn P (admission P tx ctx) store).1 = .error e := by
    rintro ⟨e, he⟩
    rw [hadmission] at he
    cases he
  -- the receipt has the gas figure of the handler, which is that of the call
  obtain ⟨hgas, hrefund, -⟩ := receipt_of_runHandler P pvm false tx ctx (nonceRecorded P tx store) stateRoot
    (acctAt P store tx.fromAddress) (acctAt P store tx.toAddress) payer payee
  have hlimit : tx.txType ≠ .registerPubkey → minGasLimit ≤ tx.gasLimit := by
    intro hregister
    rcases validateTransaction_funds hvalid with ⟨hother, _⟩ | ⟨_, _, hmin, _⟩
    · exact absurd hother hregister
    · exact hmin
  obtain ⟨hcovers, hnone⟩ := gas_dispatch P pvm false ctx (nonceRecorded P tx store) (by simp [htype]) hlimit payer
  generalize (runIn P (dispatch P pvm false tx ctx payer) (nonceRecorded P tx store)).1.1 = outcome
    at hgas hrefund hcovers hnone
  obtain ⟨hfree, hwithin⟩ := debit_eq_zero outcome.gasUsed outcome.gasRefund hcharge hpayer
  have hdebit : gasDebitedBy P pvm tx ctx stateRoot store = charge.toNat - (refundAmount tx ctx outcome.gasUsed
      (lesser outcome.gasRefund (outcome.gasUsed / 2))).toNat := by
    unfold gasDebitedBy
    rw [hperform, perform_of_transfer hcharge htransfer]
    simp only [gasDebited, hcharge, hpayer, hgas, hrefund]
  have hzero : ChargesNothing P pvm tx ctx store ↔ ctx.baseFee = 0 ∨ outcome.gasUsed = 0 := by
    rw [hnone]
    simp only [ChargesNothing, hadmitted, false_or, AsksNoGas, htype]
  have hunder : CallWithinLimit P pvm tx ctx store ↔ outcome.gasUsed ≤ tx.gasLimit := by
    rw [hcovers]
    simp only [CallWithinLimit, GasLimitCovers, htype]
  rw [hdebit, hzero, hunder]
  exact ⟨hfree, hwithin⟩

end

section

variable (P : Prims) (pvm : Pvm) (T : Threshold) (call : DecryptionCall) (st : Layers)

/-- What decrypted transaction `i` costs its sender. -/
def debitAt (ctx : BlockContext) (txs : List (Transaction × Bool)) (i : Nat) : Int :=
  match txs[i]? with
  | some (tx, true) => gasDebitedBy P pvm tx ctx st.root (decryptedBefore P pvm txs ctx st i)
  | _ => 0

/-- What the decrypted transactions of a call cost their senders. -/
def decryptedDebits : Int :=
  match call.batch P T st.get with
  | .error _ => 0
  | .ok (ctx, txs) => ∑ i ∈ Finset.range txs.length, debitAt P pvm st ctx txs i

/-- The state that the last decrypted transaction of a call leaves. -/
def decryptedStore : StateMap :=
  match call.batch P T st.get with
  | .error _ => st.get
  | .ok (ctx, txs) => decryptedBefore P pvm txs ctx st txs.length

/-- Every decrypted transaction that is executed has the property in the state in which it starts. -/
def EveryDecrypted (property : Transaction → BlockContext → StateMap → Prop) : Prop :=
  ∀ ctx txs, call.batch P T st.get = .ok (ctx, txs) → ∀ i tx, txs[i]? = some (tx, true) →
    property tx ctx (decryptedBefore P pvm txs ctx st i)

end

section

variable {P : Prims} {pvm : Pvm} {T : Threshold} {call : DecryptionCall} {st : Layers}
  {ctx : BlockContext} {txs : List (Transaction × Bool)}

theorem debitAt_eq_zero (hbatch : call.batch P T st.get = .ok (ctx, txs))
    (hfree : EveryDecrypted P pvm T call st (ChargesNothing P pvm)) (i : Nat) :
    debitAt P pvm st ctx txs i = 0 := by
  unfold debitAt
  split
  next tx htx =>
    obtain ⟨hpayer, htype⟩ := (batch_ok hbatch).2 tx true (List.mem_of_getElem? htx)
    exact (gasDebitedBy_eq_zero P pvm tx ctx st.root _ hpayer htype).1 (hfree ctx txs hbatch i tx htx)
  next => rfl

theorem debitAt_nonneg (hbatch : call.batch P T st.get = .ok (ctx, txs))
    (hwithin : EveryDecrypted P pvm T call st (CallWithinLimit P pvm)) (i : Nat) :
    0 ≤ debitAt P pvm st ctx txs i := by
  unfold debitAt
  split
  next tx htx =>
    obtain ⟨hpayer, htype⟩ := (batch_ok hbatch).2 tx true (List.mem_of_getElem? htx)
    exact ((gasDebitedBy_eq_zero P pvm tx ctx st.root _ hpayer htype).2 (hwithin ctx txs hbatch i tx htx)).1
  next => exact le_rfl

/-- Nothing is debited if no decrypted transaction charges anything, and with every call within its gas
limit only then. -/
theorem decryptedDebits_eq_zero :
    (EveryDecrypted P pvm T call st (ChargesNothing P pvm) → decryptedDebits P pvm T call st = 0) ∧
      (EveryDecrypted P pvm T call st (CallWithinLimit P pvm) → decryptedDebits P pvm T call st = 0 →
        EveryDecrypted P pvm T call st (ChargesNothing P pvm)) := by
  unfold decryptedDebits
  cases hbatch : call.batch P T st.get with
  | error outcome =>
    refine ⟨fun _ => rfl, fun _ _ ctx txs hother => ?_⟩
    rw [hbatch] at hother
    cases hother
  | ok batch =>
    obtain ⟨ctx, txs⟩ := batch
    constructor
    · intro hfree
      exact Finset.sum_eq_zero fun i _ => debitAt_eq_zero hbatch hfree i
    · intro hwithin hsum ctx' txs' hother i tx htx
      rw [hbatch] at hother
      cases hother
      -- a sum of amounts that are not negative
      have hzero := (Finset.sum_eq_zero_iff_of_nonneg fun i _ => debitAt_nonneg hbatch hwithin i).mp hsum i
        (Finset.mem_range.mpr (List.getElem?_eq_some_iff.mp htx).1)
      obtain ⟨hpayer, htype⟩ := (batch_ok hbatch).2 tx true (List.mem_of_getElem? htx)
      apply ((gasDebitedBy_eq_zero P pvm tx ctx st.root _ hpayer htype).2 (hwithin ctx txs hbatch i tx htx)).2
      simpa only [debitAt, htx] using hzero

theorem get_eq_decryptedStore (rootOf : StateMap → Hash256) (hcovered : st.Covered) :
    (tryDecryptAndExecute P pvm T rootOf call st).2.get = decryptedStore P pvm T call st := by
  unfold decryptedStore
  cases hbatch : call.batch P T st.get with
  | error outcome => rw [tryDecryptAndExecute_of_error hbatch]
  | ok batch => exact get_tryDecryptAndExecute hbatch hcovered

/-- The fees of decrypted transactions are accounted for if there are none. With every call within its gas
limit, that is the only case. -/
theorem decrypted_fees_accounted_iff (rootOf : StateMap → Hash256) (proposer : Address)
    (hcovered : st.Covered) :
    (EveryDecrypted P pvm T call st (ChargesNothing P pvm) →
        FeesAccounted P proposer (decryptedDebits P pvm T call st) (decryptedStore P pvm T call st)
          (tryDecryptAndExecute P pvm T rootOf call st).2.get) ∧
      (EveryDecrypted P pvm T call st (CallWithinLimit P pvm) →
        FeesAccounted P proposer (decryptedDebits P pvm T call st) (decryptedStore P pvm T call st)
          (tryDecryptAndExecute P pvm T rootOf call st).2.get →
        EveryDecrypted P pvm T call st (ChargesNothing P pvm)) := by
  rw [get_eq_decryptedStore rootOf hcovered, FeesAccounted, sub_self, sub_self, add_zero]
  exact decryptedDebits_eq_zero

end

/-! ### An encrypted transfer -/

/-- A threshold scheme that keeps the payload in the clear. -/
def openThreshold : Threshold where
  combineShares _ _ ciphertext _ := .ok ciphertext.encryptedMsg

/-- An encrypted transfer of 1000 quanta from account 1 to account 2, signed by the sender. -/
def encryptedTransfer : EncryptedTx :=
  let etx : EncryptedTx :=
    { sender := fill32 1, nonce := 0, gasLimit := 21000, accessList := [], deadline := none, chainId := 1,
      signature := []
      ciphertext :=
        { kyberCt := List.Vector.replicate 1088 0
          encryptedMsg := (fill32 2).toList ++ toLe (1000 : U128)
          mac := zero32 } }
  { etx with signature := (lucidSignature [7] (etx.hash lucid).toList).bytes }

/-- A decryptor that holds one share and needs one. -/
def oneTransferDecryptor : BlockDecryptor where
  encryptedTxs := [encryptedTransfer]
  shares := [[⟨1, [], []⟩]]
  threshold := 1
  committeeKeys := []

/-- The call for a block of slot 1 that holds this transfer. -/
def oneTransferCall (baseFee : U128) : DecryptionCall where
  slot := 1
  header := some
    { slot := 1, epoch := 0, parentHash := zero32, proposer := fill32 3, vrfProof := [],
      qcPrevious := QuorumCert.empty,
      txRoot := computeTxRoot lucid [] [encryptedTransfer.hash lucid], stateRoot := zero32, timestamp := 0 }
  plaintextTxs := []
  decryptor := oneTransferDecryptor
  blockGasLimit := gasTarget
  baseFee := baseFee
  chainId := 1

def keyedLayers : Layers := Layers.opened oneKeyRoot keyedState

theorem keyedLayers_covered : keyedLayers.Covered := nofun

/-- Without a base fee the transfer goes through and nothing has to be accounted for. -/
theorem decrypted_fees_accounted_without_base_fee :
    (acctAt lucid (tryDecryptAndExecute lucid idlePvm openThreshold oneKeyRoot
        (oneTransferCall 0) keyedLayers).2.get (fill32 2)).balance = 1000 ∧ FeesAccounted lucid (fill32 3)
        (decryptedDebits lucid idlePvm openThreshold (oneTransferCall 0) keyedLayers)
        (decryptedStore lucid idlePvm openThreshold (oneTransferCall 0) keyedLayers)
        (tryDecryptAndExecute lucid idlePvm openThreshold oneKeyRoot (oneTransferCall 0) keyedLayers).2.get := by
  refine ⟨by decide +kernel, ?_⟩
  apply (decrypted_fees_accounted_iff oneKeyRoot (fill32 3) keyedLayers_covered).1
  intro ctx txs hbatch i tx _
  exact .inr (.inl (batch_ok hbatch).1)

/-- With a base fee of one, 21000 quanta are taken from the sender and credited or burned nowhere. -/
theorem decrypted_fees_vanish :
    decryptedDebits lucid idlePvm openThreshold (oneTransferCall 1) keyedLayers = 21000 ∧
      (acctAt lucid (tryDecryptAndExecute lucid idlePvm openThreshold oneKeyRoot
        (oneTransferCall 1) keyedLayers).2.get (fill32 1)).balance = 1000000 - 1000 - 21000 ∧
      ¬ FeesAccounted lucid (fill32 3)
        (decryptedDebits lucid idlePvm openThreshold (oneTransferCall 1) keyedLayers)
        (decryptedStore lucid idlePvm openThreshold (oneTransferCall 1) keyedLayers)
        (tryDecryptAndExecute lucid idlePvm openThreshold oneKeyRoot (oneTransferCall 1) keyedLayers).2.get := by
  unfold FeesAccounted
  decide +kernel

end Pyde
