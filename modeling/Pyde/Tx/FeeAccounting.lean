/-
Module: Pyde.Tx.FeeAccounting
Purpose: What a sender is debited for gas, against the fee and the gas in the receipt.
Trusted boundary: Prims, Pvm
-/
import Pyde.Tx.Pipeline

namespace Pyde

open ByteCodec StateProgram Nat

/-! ### What the payer is debited -/

section

variable (P : Prims) (pvm : Pvm) (aot : Bool) (tx : Transaction) (ctx : BlockContext)

/-- What `post_execution_refund` gives back, for the gas used and the refund it reports. -/
def refundAmount (gasUsed actualRefund : U64) : U128 :=
  (tx.gasLimit - lesser gasUsed tx.gasLimit + actualRefund).setWidth 128 * ctx.baseFee

/-- What `emit_failed_execution_receipt` takes. -/
def baselineCharge (sender : Account) : U128 := lesser (minGasLimit.setWidth 128 * ctx.baseFee) sender.balance

/-- What the payer is debited for gas: the charge before execution minus the refund after it. A sender
who cannot be charged pays the baseline, without a refund; a paymaster is neither charged nor refunded. -/
def gasDebited (sender : Account) (receipt : Receipt) : Int :=
  match preExecutionCharge tx sender.purse ctx.baseFee with
  | .error _ => (baselineCharge ctx sender).toNat
  | .ok (charge, _) =>
    match tx.feePayer with
    | .paymaster _ => charge.toNat
    | _ => charge.toNat - (refundAmount tx ctx receipt.gasUsed receipt.gasRefund).toNat

/-! ### What each type asks for -/

/-- What the virtual machine answers for the call of a transaction. -/
def vmOutput (code : Bytes) (st : StateMap) : PvmOutput :=
  (runIn P (pvm aot code (pvmCall tx ctx)).toProg st).1

/-- The gas the virtual machine reports, if there is code to call. -/
def callGas (st : StateMap) : Option U64 :=
  if tx.toAddress ≠ zeroAddress then
    (st (codeKey P tx.toAddress)).map fun code => (vmOutput P pvm aot tx ctx code st).gasUsed
  else none

/-- The gas the virtual machine reports for the constructor of a deployment; it runs after the code is
stored. -/
def constructorGas (senderNonce : U64) (st : StateMap) : U64 :=
  match deployHeader tx.data with
  | none => 0
  | some (constructorLen, runtimeLen) =>
    let newAddr := deriveCreateAddress P tx.fromAddress senderNonce
    let deployed := (runIn P (storeContract P newAddr (slice tx.data (8 + constructorLen) runtimeLen))
      st).2
    let constructorTx := { tx with toAddress := newAddr, data := tx.data.drop (8 + constructorLen + runtimeLen) }
    (vmOutput P pvm false constructorTx ctx (slice tx.data 8 constructorLen) deployed).gasUsed

/-- A stake deposit that goes through. -/
def StakeAccepted (balance : U128) (st : StateMap) : Prop :=
  validatorStake ≤ balance ∧ 897 ≤ tx.data.length ∧
    deriveEoaAddress P (tx.data.take 897) = tx.fromAddress ∧ st (validatorKey P tx.fromAddress) = none

/-- Evidence against a validator that has not been ejected, with two valid signatures. -/
def EvidenceAccepted (st : StateMap) : Prop :=
  ∃ ev data entry, decodeSlashEvidence tx.data = .ok ev ∧ ev.blockHash1 ≠ ev.blockHash2 ∧
    st (validatorKey P ev.signer) = some data ∧ ValidatorEntry.decode data = some entry ∧
    entry.status ≠ statusExited ∧ slashSignatureFault P ctx.chainId entry.pk ev = none

def IsSpend : Prop := ∃ spend sigs, MultisigPayload.decode tx.data = some (.spend spend sigs)

/-- The data is a rotation of the multisig. -/
def IsRotate : Prop := ∃ rotate sigs, MultisigPayload.decode tx.data = some (.rotate rotate sigs)

/-- The gas limit is enough for what the type of the transaction asks for. `payer` is the sender once
gas and value are paid. -/
def GasLimitCovers (payer : Account) (st : StateMap) : Prop :=
  match tx.txType with
  | .standard => ∀ gas, callGas P pvm aot tx ctx st = some gas → gas ≤ tx.gasLimit
  | .deploy => 32000 + constructorGas P pvm tx ctx payer.nonce st ≤ tx.gasLimit
  | .stakeDeposit => StakeAccepted P tx payer.balance st → 50000 ≤ tx.gasLimit
  | .slash => EvidenceAccepted P tx ctx st → 100000 ≤ tx.gasLimit
  | .claimAirdrop => ClaimPayload.decode tx.data = none → 30000 ≤ tx.gasLimit
  | .multisigTx => ¬ IsSpend tx → 50000 ≤ tx.gasLimit
  | .rotateMultisig => ¬ IsRotate tx → 60000 ≤ tx.gasLimit
  | .emergencyPause => EmergencyPausePayload.decode tx.data = none → 40000 ≤ tx.gasLimit
  | .emergencyResume => EmergencyResumePayload.decode tx.data = none → 40000 ≤ tx.gasLimit
  | .stakeWithdraw | .registerPubkey | .sweepAirdrop | .claimReward => True

/-- The transaction uses no gas at all. -/
def AsksNoGas (payer : Account) (st : StateMap) : Prop :=
  match tx.txType with
  | .standard => callGas P pvm aot tx ctx st = some 0
  | .deploy => 32000 + constructorGas P pvm tx ctx payer.nonce st = 0
  | .registerPubkey => True
  | _ => False

/-- The gas limit covers what the type asks for, and nobody leaves the bill to a paymaster. A sender
whose gas tank is too low for the limit has the baseline in the balance, or a whole number of base
fees. -/
def GasAccounted (st : StateMap) : Prop :=
  let sender := acctAt P st tx.fromAddress
  match preExecutionCharge tx sender.purse ctx.baseFee with
  | .error _ => minGasLimit.setWidth 128 * ctx.baseFee ≤ sender.balance ∨ ctx.baseFee.toNat ∣ sender.balance.toNat
  | .ok (_, purse) =>
    GasLimitCovers P pvm aot tx ctx (sender.charged purse) (nonceRecorded P tx st) ∧
      ((∃ addr, tx.feePayer = .paymaster addr) → ctx.baseFee = 0 ∨
          AsksNoGas P pvm aot tx ctx (sender.charged purse) (nonceRecorded P tx st))

end

/-! ### The gas figure of each handler -/

section

variable {P : Prims} {pvm : Pvm} {aot : Bool} {tx : Transaction} {ctx : BlockContext}
  {st : StateMap}

/-- A handler that asks for some gas, within the limit exactly if `covers`. -/
def AsksGas (limit gas : U64) (covers : Prop) : Prop := 0 < gas ∧ (gas ≤ limit ↔ covers)

theorem asksGas_of_covered {limit gas : U64} (hpos : 0 < gas) (hle : gas ≤ limit) {covers : Prop}
    (hcovers : covers) : AsksGas limit gas covers :=
  ⟨hpos, iff_of_true hle hcovers⟩

theorem asksGas_flat {limit gas : U64} {accepted : Prop} (hpos : 0 < gas) (haccepted : accepted) :
    AsksGas limit gas (accepted → gas ≤ limit) :=
  ⟨hpos, fun h _ => h, fun h => h haccepted⟩

theorem pos_of_le {a gas : U64} (h : a ≤ gas) (ha : 0 < a) : 0 < gas := by
  bv_omega

theorem airdropClaimGas_pos (payload : ClaimPayload) : 0 < airdropClaimGas payload :=
  pos_of_le (le_satAdd _ _) (by decide)

theorem multisigGas_pos {base : U64} (hbase : 0 < base) (sigs : List SigEntry) : 0 < multisigGas base sigs :=
  pos_of_le (le_satAdd _ _) hbase

theorem run_executeInPvm_fst (code : Bytes) :
    (runIn P (executeInPvm P pvm tx ctx aot code) st).1 =
      (vmOutput P pvm aot tx ctx code st).outcome := by
  simp only [executeInPvm, run_bind]
  change (runIn P (if (vmOutput P pvm aot tx ctx code st).success then _ else _) _).1 = _
  split
  · simp only [run_bind, run_pure]
    rfl
  · rfl

theorem gas_executeCall :
    (runIn P (executeCall P pvm tx ctx aot) st).1.gasUsed = ((st (codeKey P tx.toAddress)).map fun code =>
        (vmOutput P pvm aot tx ctx code st).gasUsed).getD 21000 := by
  have hread : runIn P (loadCode tx.toAddress) st = (st (codeKey P tx.toAddress), st) := rfl
  simp only [executeCall, run_bind, hread]
  cases st (codeKey P tx.toAddress) with
  | none => rfl
  | some code =>
    rw [run_executeInPvm_fst]
    rfl

theorem gas_deployCode (senderNonce : U64) :
    (runIn P (deployCode P pvm tx ctx (deriveCreateAddress P tx.fromAddress senderNonce)) st).1 =
      32000 + constructorGas P pvm tx ctx senderNonce st := by
  unfold deployCode constructorGas
  cases deployHeader tx.data with
  | none => rfl
  | some lengths =>
    simp only [run_bind, run_executeInPvm_fst, run_pure]
    rfl

section

variable (hlimit : minGasLimit ≤ tx.gasLimit)
include hlimit

theorem gas_executeStakeDeposit (payer : Account) :
    AsksGas tx.gasLimit (runIn P (executeStakeDeposit P tx payer) st).1.1.gasUsed
      (StakeAccepted P tx payer.balance st → 50000 ≤ tx.gasLimit) := by
  -- a deposit that is turned down costs the minimum
  have hfailed : ∀ reason, ¬ StakeAccepted P tx payer.balance st →
      AsksGas tx.gasLimit (Outcome.failed 21000 reason).gasUsed
        (StakeAccepted P tx payer.balance st → 50000 ≤ tx.gasLimit) := by
    intro reason hnot
    exact asksGas_of_covered (by decide) hlimit fun h => absurd h hnot
  unfold executeStakeDeposit
  split
  · rename_i hpoor
    exact hfailed _ fun h => absurd h.1 (by bv_omega)
  rename_i hrich
  split
  · rename_i hshort
    exact hfailed _ fun h => absurd h.2.1 (by omega)
  rename_i hlong
  split
  · rename_i hkey
    exact hfailed _ fun h => hkey h.2.2.1
  rename_i hkey
  simp only [run_bind, run_read]
  cases hentry : st ((StateKey.account tx.fromAddress .validator).hash P) with
  | some entry =>
    refine hfailed _ fun h => ?_
    have hnone := h.2.2.2
    rw [validatorKey, hentry] at hnone
    cases hnone
  | none =>
    have haccepted : StakeAccepted P tx payer.balance st :=
      ⟨by bv_omega, by omega, Decidable.not_not.mp hkey, hentry⟩
    simp only [run_bind, run_pure, Outcome.done]
    exact asksGas_flat (by decide) haccepted

theorem gas_executeClaimReward (payer : Account) :
    (executeClaimReward tx payer).Returns fun res => AsksGas tx.gasLimit res.1.gasUsed True := by
  have hbase : AsksGas tx.gasLimit 21000 True := asksGas_of_covered (by decide) hlimit trivial
  unfold executeClaimReward
  with_reducible repeat' first | split | refine .bind fun _ => ?_ | dsimp only
  all_goals exact hbase

theorem gas_executeSlash (balance : U128) :
    AsksGas tx.gasLimit (runIn P (executeSlash P tx ctx.chainId balance) st).1.1.gasUsed
      (EvidenceAccepted P tx ctx st → 100000 ≤ tx.gasLimit) := by
  have hfailed : ∀ reason, ¬ EvidenceAccepted P tx ctx st →
      AsksGas tx.gasLimit (Outcome.failed 21000 reason).gasUsed
        (EvidenceAccepted P tx ctx st → 100000 ≤ tx.gasLimit) := by
    intro reason hnot
    exact asksGas_of_covered (by decide) hlimit fun h => absurd h hnot
  unfold executeSlash
  cases hev : decodeSlashEvidence tx.data with
  | error e =>
    refine hfailed _ ?_
    rintro ⟨ev, _, _, hok, _⟩
    rw [hev] at hok
    cases hok
  | ok ev =>
    -- from here on the evidence in the claim is the evidence decoded here
    have heq : ∀ {ev'}, decodeSlashEvidence tx.data = .ok ev' → ev' = ev := by
      intro ev' hok
      rw [hev] at hok
      exact (Except.ok.inj hok).symm
    dsimp only
    split
    · rename_i hsame
      refine hfailed _ ?_
      rintro ⟨ev', _, _, hok, hdiffer, _⟩
      rw [heq hok] at hdiffer
      exact hdiffer hsame
    rename_i hdiffer
    simp only [run_bind, run_read]
    cases hdata : st ((StateKey.account ev.signer .validator).hash P) with
    | none =>
      refine hfailed _ ?_
      rintro ⟨ev', _, _, hok, _, hstored, _⟩
      rw [heq hok, validatorKey, hdata] at hstored
      cases hstored
    | some data =>
      dsimp only
      cases hentry : ValidatorEntry.decode data with
      | none =>
        refine hfailed _ ?_
        rintro ⟨ev', _, _, hok, _, hstored, hdecoded, _⟩
        rw [heq hok, validatorKey, hdata, Option.some.injEq] at hstored
        rw [← hstored, hentry] at hdecoded
        cases hdecoded
      | some entry =>
        have hentryEq : ∀ {ev' data' entry'}, decodeSlashEvidence tx.data = .ok ev' →
            st (validatorKey P ev'.signer) = some data' →
            ValidatorEntry.decode data' = some entry' → entry' = entry := by
          intro ev' data' entry' hok hstored hdecoded
          rw [heq hok, validatorKey, hdata, Option.some.injEq] at hstored
          rw [← hstored, hentry, Option.some.injEq] at hdecoded
          exact hdecoded.symm
        dsimp only
        split
        · rename_i hexited
          refine hfailed _ ?_
          rintro ⟨ev', _, _, hok, _, hstored, hdecoded, hstatus, _⟩
          rw [hentryEq hok hstored hdecoded] at hstatus
          exact hstatus hexited
        rename_i hstatus
        cases hfault : slashSignatureFault P ctx.chainId entry.pk ev with
        | some fault =>
          refine hfailed _ ?_
          rintro ⟨ev', _, _, hok, _, hstored, hdecoded, _, hnone⟩
          rw [hentryEq hok hstored hdecoded, heq hok, hfault] at hnone
          cases hnone
        | none =>
          have haccepted : EvidenceAccepted P tx ctx st :=
            ⟨ev, data, entry, hev, hdiffer, hdata, hentry, hstatus, hfault⟩
          simp only [run_bind, run_pure, Outcome.done]
          exact asksGas_flat (by decide) haccepted

theorem gas_executeClaimAirdrop (balance : U128) :
    (executeClaimAirdrop P tx ctx balance).Returns fun res => AsksGas tx.gasLimit res.1.gasUsed
      (ClaimPayload.decode tx.data = none → 30000 ≤ tx.gasLimit) := by
  unfold executeClaimAirdrop
  cases ClaimPayload.decode tx.data with
  | none =>
    have hmalformed : AsksGas tx.gasLimit 30000 ((none : Option ClaimPayload) = none → _) :=
      asksGas_flat (by decide) rfl
    exact hmalformed
  | some payload =>
    dsimp only
    split
    · exact asksGas_of_covered (pos_of_le hlimit (by decide)) (BitVec.le_refl _) (by simp)
    rename_i hle
    -- every further path reports the same figure
    have hgas : AsksGas tx.gasLimit (airdropClaimGas payload)
        (some payload = none → 30000 ≤ tx.gasLimit) :=
      asksGas_of_covered (airdropClaimGas_pos payload) (BitVec.not_lt.mp hle) (by simp)
    unfold payAirdrop
    with_reducible repeat' first | split | refine .bind fun _ => ?_ | dsimp only
    all_goals exact hgas

end

/-- The limit is compared with the figure before anything else is done. -/
theorem gas_of_compared {gas : U64} {covers : Prop} {reason : String} {rest : StateProg Outcome}
    (hlimit : minGasLimit ≤ tx.gasLimit) (hpos : 0 < gas) (hcovers : covers)
    (hrest : AsksGas tx.gasLimit gas covers →
      rest.Returns fun outcome => AsksGas tx.gasLimit outcome.gasUsed covers) :
    (if tx.gasLimit < gas then pure (.failed tx.gasLimit reason) else rest).Returns fun outcome =>
      AsksGas tx.gasLimit outcome.gasUsed covers := by
  split
  · exact asksGas_of_covered (pos_of_le hlimit (by decide)) (BitVec.le_refl _) hcovers
  · rename_i hle
    exact hrest (asksGas_of_covered hpos (BitVec.not_lt.mp hle) hcovers)

theorem gas_executeSweepAirdrop (hlimit : minGasLimit ≤ tx.gasLimit) :
    (executeSweepAirdrop P tx ctx).Returns fun outcome => AsksGas tx.gasLimit outcome.gasUsed True := by
  refine gas_of_compared hlimit (by decide) trivial fun hgas => ?_
  with_reducible repeat' first | split | refine .bind fun _ => ?_ | dsimp only
  all_goals exact hgas

theorem gas_multisigOk (label : String) (sigs : List SigEntry) (gas : U64) (signing : StateProg (Bytes × U64)) :
    (multisigOk P label sigs gas signing).Returns fun verdict =>
      ∀ outcome, verdict = .error outcome → outcome.gasUsed = gas := by
  unfold multisigOk
  with_reducible repeat' first | split | refine .bind fun _ => ?_ | dsimp only
  all_goals
    simp only [Prog.returns_pure]
    intro outcome h
    cases h <;> rfl

/-- What follows the shared check passes a failure on, or reports the figure itself. -/
theorem gas_after_multisigOk {label : String} {sigs : List SigEntry} {limit gas : U64} {covers : Prop}
    {signing : StateProg (Bytes × U64)} {next : Except Outcome U64 → StateProg Outcome}
    (hgas : AsksGas limit gas covers) (herror : ∀ outcome, next (.error outcome) = pure outcome)
    (hok : ∀ nonce, (next (.ok nonce)).Returns fun outcome => AsksGas limit outcome.gasUsed covers) :
    (multisigOk P label sigs gas signing >>= next).Returns fun outcome => AsksGas limit outcome.gasUsed covers := by
  refine (gas_multisigOk label sigs gas signing).bind_of fun verdict hverdict => ?_
  cases verdict with
  | error outcome =>
    rw [herror, Prog.returns_pure, hverdict outcome rfl]
    exact hgas
  | ok nonce => exact hok nonce

section

variable (hlimit : minGasLimit ≤ tx.gasLimit)
include hlimit

theorem gas_executeMultisigSpend :
    (executeMultisigSpend P tx ctx).Returns fun outcome => AsksGas tx.gasLimit outcome.gasUsed
      (¬ IsSpend tx → 50000 ≤ tx.gasLimit) := by
  unfold executeMultisigSpend
  have hother : ¬ IsSpend tx → AsksGas tx.gasLimit 50000 (¬ IsSpend tx → _) := asksGas_flat (by decide)
  cases hdecode : MultisigPayload.decode tx.data with
  | none => exact hother (by simp [IsSpend, hdecode])
  | some payload =>
    cases payload with
    | rotate rotate sigs => exact hother (by simp [IsSpend, hdecode])
    | spend spend sigs =>
      refine gas_of_compared hlimit (multisigGas_pos (by decide) sigs) (absurd ⟨spend, sigs, hdecode⟩) fun hgas => ?_
      split
      · exact hgas
      refine gas_after_multisigOk hgas (fun _ => rfl) fun nonce => ?_
      dsimp only
      unfold paySpend
      with_reducible repeat' first | split | refine .bind fun _ => ?_
      all_goals exact hgas

theorem gas_executeRotateMultisig :
    (executeRotateMultisig P tx ctx).Returns fun outcome => AsksGas tx.gasLimit outcome.gasUsed
      (¬ IsRotate tx → 60000 ≤ tx.gasLimit) := by
  unfold executeRotateMultisig
  have hother : ¬ IsRotate tx → AsksGas tx.gasLimit 60000 (¬ IsRotate tx → _) := asksGas_flat (by decide)
  cases hdecode : MultisigPayload.decode tx.data with
  | none => exact hother (by simp [IsRotate, hdecode])
  | some payload =>
    cases payload with
    | spend spend sigs => exact hother (by simp [IsRotate, hdecode])
    | rotate rotate sigs =>
      have hpos := pos_of_le
        (le_satAdd (multisigGas 60000 sigs) (satMul 10000 (BitVec.ofNat 64 rotate.newSignerPks.length)))
        (multisigGas_pos (by decide) sigs)
      refine gas_of_compared hlimit hpos (absurd ⟨rotate, sigs, hdecode⟩) fun hgas => ?_
      split
      · exact hgas
      refine gas_after_multisigOk hgas (fun _ => rfl) fun nonce => ?_
      with_reducible repeat' refine .bind fun _ => ?_
      exact hgas

theorem gas_executeEmergencyPause :
    (executeEmergencyPause P tx ctx).Returns fun outcome => AsksGas tx.gasLimit outcome.gasUsed
      (EmergencyPausePayload.decode tx.data = none → 40000 ≤ tx.gasLimit) := by
  unfold executeEmergencyPause
  cases EmergencyPausePayload.decode tx.data with
  | none => exact (asksGas_flat (by decide) rfl : AsksGas tx.gasLimit 40000 (none = none → _))
  | some payload =>
    refine gas_of_compared hlimit (multisigGas_pos (by decide) payload.sigs) nofun fun hgas => ?_
    split
    · exact hgas
    refine .bind fun paused => ?_
    split
    · exact hgas
    refine .bind fun nonce => gas_after_multisigOk hgas (fun _ => rfl) fun nonce => ?_
    with_reducible repeat' refine .bind fun _ => ?_
    exact hgas

theorem gas_executeEmergencyResume :
    (executeEmergencyResume P tx ctx).Returns fun outcome => AsksGas tx.gasLimit outcome.gasUsed
      (EmergencyResumePayload.decode tx.data = none → 40000 ≤ tx.gasLimit) := by
  unfold executeEmergencyResume
  cases EmergencyResumePayload.decode tx.data with
  | none => exact (asksGas_flat (by decide) rfl : AsksGas tx.gasLimit 40000 (none = none → _))
  | some payload =>
    refine gas_of_compared hlimit (multisigGas_pos (by decide) payload.sigs) nofun fun hgas => ?_
    refine .bind fun paused => ?_
    split
    · exact hgas
    refine .bind fun nonce => gas_after_multisigOk hgas (fun _ => rfl) fun nonce => ?_
    with_reducible repeat' refine .bind fun _ => ?_
    exact hgas

end

variable (P pvm aot ctx st) in
/-- The gas figure of a transaction is within its limit, or zero, exactly if its type says so. -/
theorem gas_dispatch (hdisabled : tx.txType ≠ .stakeWithdraw)
    (hlimit : tx.txType ≠ .registerPubkey → minGasLimit ≤ tx.gasLimit) (payer : Account) :
    ((runIn P (dispatch P pvm aot tx ctx payer) st).1.1.gasUsed ≤ tx.gasLimit ↔
        GasLimitCovers P pvm aot tx ctx payer st) ∧
      ((runIn P (dispatch P pvm aot tx ctx payer) st).1.1.gasUsed = 0 ↔
        AsksNoGas P pvm aot tx ctx payer st) := by
  -- the types that always ask for something
  have hasks : ∀ {gas : U64} {covers : Prop}, AsksGas tx.gasLimit gas covers →
      (gas ≤ tx.gasLimit ↔ covers) ∧ (gas = 0 ↔ False) := by
    intro gas covers h
    refine ⟨h.2, iff_false_intro ?_⟩
    have hpos := h.1
    bv_omega
  unfold dispatch GasLimitCovers AsksNoGas keepSender withBalance
  cases htype : tx.txType with
  | standard =>
    have hmin : (21000 : U64) ≤ tx.gasLimit := hlimit (by simp [htype])
    have hplain : (21000 : U64) ≤ tx.gasLimit ∧ ¬ (21000 : U64) = 0 := ⟨hmin, by decide⟩
    dsimp only
    unfold callGas
    split
    · simp only [run_bind, run_pure, gas_executeCall]
      cases st (codeKey P tx.toAddress) with
      | none => simpa using hplain
      | some code => simp
    · simpa [Outcome.done] using hplain
  | deploy => simp only [executeDeploy, run_bind, run_pure, Outcome.done, gas_deployCode, and_self]
  | stakeDeposit => exact hasks (gas_executeStakeDeposit (hlimit (by simp [htype])) payer)
  | stakeWithdraw => exact absurd htype hdisabled
  | registerPubkey =>
    simp only [run_pure, Outcome.done, iff_true, and_true]
    bv_omega
  | slash =>
    simp only [run_bind, run_pure]
    exact hasks (gas_executeSlash (hlimit (by simp [htype])) payer.balance)
  | claimAirdrop =>
    simp only [run_bind, run_pure]
    exact hasks ((gas_executeClaimAirdrop (hlimit (by simp [htype])) payer.balance).run _ _ st)
  | sweepAirdrop =>
    simp only [run_bind, run_pure]
    exact hasks ((gas_executeSweepAirdrop (hlimit (by simp [htype]))).run _ _ st)
  | multisigTx =>
    simp only [run_bind, run_pure]
    exact hasks ((gas_executeMultisigSpend (hlimit (by simp [htype]))).run _ _ st)
  | rotateMultisig =>
    simp only [run_bind, run_pure]
    exact hasks ((gas_executeRotateMultisig (hlimit (by simp [htype]))).run _ _ st)
  | emergencyPause =>
    simp only [run_bind, run_pure]
    exact hasks ((gas_executeEmergencyPause (hlimit (by simp [htype]))).run _ _ st)
  | emergencyResume =>
    simp only [run_bind, run_pure]
    exact hasks ((gas_executeEmergencyResume (hlimit (by simp [htype]))).run _ _ st)
  | claimReward => exact hasks ((gas_executeClaimReward (hlimit (by simp [htype])) payer).run _ _ st)

/-! ### The fee of a receipt -/

variable (P pvm aot ctx st) in
/-- Charging gas and moving value leaves the rest of the sender's record alone, so the type asks for
the same as before the value was moved. -/
theorem gasLimitCovers_transferFor {charged rcpt payer payee : Account}
    (h : transferFor tx charged rcpt = .ok (payer, payee)) :
    (GasLimitCovers P pvm aot tx ctx payer st ↔ GasLimitCovers P pvm aot tx ctx charged st) ∧
      (AsksNoGas P pvm aot tx ctx payer st ↔ AsksNoGas P pvm aot tx ctx charged st) := by
  obtain ⟨-, rfl, -⟩ := transferFor_ok h
  unfold GasLimitCovers AsksNoGas
  cases htype : tx.txType with
  | stakeDeposit =>
    have hnothing : tx.movedValue = 0 := by simp [Transaction.movedValue, htype, TransactionType.carriesValue]
    simp [hnothing]
  | _ => exact ⟨Iff.rfl, Iff.rfl⟩

/-- The gas that is finally charged, and the refund in the receipt, do not depend on who pays. -/
theorem refundSender_snd (account : Account) (outcome : Outcome) :
    (refundSender tx ctx account outcome).2.actualRefund = lesser outcome.gasRefund (outcome.gasUsed / 2) ∧
      (refundSender tx ctx account outcome).2.effectiveGas =
        outcome.gasUsed - lesser outcome.gasRefund (outcome.gasUsed / 2) := by
  unfold refundSender
  split <;> exact ⟨rfl, rfl⟩

variable {nonceState : NonceState} {vesting : Option VestingSchedule} {charge : U128} {purse left : Purse}
  {gasUsed : U64} (gasRefund : U64)

/-- Within the limit, the fee for the gas that is charged is the charge minus the refund. -/
theorem fee_of_gas_within (hused : gasUsed ≤ tx.gasLimit) (hfits : tx.gasLimit.toNat * ctx.baseFee.toNat < 2 ^ 128) :
    ((gasUsed - lesser gasRefund (gasUsed / 2)).setWidth 128 * ctx.baseFee).toNat +
        (refundAmount tx ctx gasUsed (lesser gasRefund (gasUsed / 2))).toNat =
      tx.gasLimit.toNat * ctx.baseFee.toNat := by
  have hhalf : (lesser gasRefund (gasUsed / 2)).toNat ≤ gasUsed.toNat := by
    rw [lesser_toNat, BitVec.toNat_udiv]
    exact (min_le_right _ _).trans (Nat.div_le_self _ _)
  rw [BitVec.le_def] at hused
  have hlesser : (lesser gasUsed tx.gasLimit).toNat = gasUsed.toNat := by rw [lesser_toNat, min_eq_left hused]
  have hlimit := tx.gasLimit.isLt
  generalize lesser gasRefund (gasUsed / 2) = refund at hhalf
  have heffective : (gasUsed - refund).toNat = gasUsed.toNat - refund.toNat :=
    BitVec.toNat_sub_of_le (BitVec.le_def.mpr hhalf)
  have hback : (tx.gasLimit - lesser gasUsed tx.gasLimit + refund).toNat =
      tx.gasLimit.toNat - gasUsed.toNat + refund.toNat := by
    have hunused : (tx.gasLimit - lesser gasUsed tx.gasLimit).toNat = tx.gasLimit.toNat - gasUsed.toNat := by
      rw [BitVec.toNat_sub_of_le (by rw [BitVec.le_def, hlesser]; exact hused), hlesser]
    rw [BitVec.toNat_add, hunused]
    exact mod_eq_of_lt (by omega)
  -- a product with at most the gas limit does not wrap
  have hproduct : ∀ gas : U64, gas.toNat ≤ tx.gasLimit.toNat →
      (gas.setWidth 128 * ctx.baseFee).toNat = gas.toNat * ctx.baseFee.toNat := by
    intro gas hgas
    rw [BitVec.toNat_mul, BitVec.toNat_setWidth_of_le (by decide)]
    exact mod_eq_of_lt ((Nat.mul_le_mul_right _ hgas).trans_lt hfits)
  unfold refundAmount
  rw [hproduct _ (by omega), hproduct _ (by omega), heffective, hback, ← Nat.add_mul]
  congr 1
  omega

variable {stateRoot : Hash256} {receipt : Receipt}

/-- The receipt of a sender who could not be charged is exact if the balance covers the baseline, or is
a whole number of base fees. -/
theorem fee_of_failed_charge (hfits : minGasLimit.toNat * ctx.baseFee.toNat < 2 ^ 128) (sender : Account)
    (reason : String) :
    ((runIn P (emitFailedExecutionReceipt P tx ctx stateRoot sender reason) st).1.feePaid.toNat =
        (baselineCharge ctx sender).toNat) ↔ minGasLimit.setWidth 128 * ctx.baseFee ≤ sender.balance ∨
        ctx.baseFee.toNat ∣ sender.balance.toNat := by
  have hbaseline : (minGasLimit.setWidth 128 * ctx.baseFee).toNat = 21000 * ctx.baseFee.toNat := by
    rw [BitVec.toNat_mul, BitVec.toNat_setWidth_of_le (by decide)]
    exact mod_eq_of_lt hfits
  have hfee : (runIn P (emitFailedExecutionReceipt P tx ctx stateRoot sender reason) st).1.feePaid =
      (if ctx.baseFee = 0 then minGasLimit
        else (baselineCharge ctx sender / ctx.baseFee).setWidth 64).setWidth 128 * ctx.baseFee := rfl
  have hcharge : (baselineCharge ctx sender).toNat = min (21000 * ctx.baseFee.toNat) sender.balance.toNat := by
    rw [baselineCharge, lesser_toNat, hbaseline]
  rw [hfee, BitVec.le_def, hbaseline]
  by_cases hzero : ctx.baseFee = 0
  · -- nothing costs nothing
    rw [hcharge, hzero]
    simp
  rw [if_neg hzero]
  have hpos : 0 < ctx.baseFee.toNat := by
    have hne : ctx.baseFee.toNat ≠ 0 := fun h => hzero (BitVec.eq_of_toNat_eq (by simpa using h))
    omega
  have hquotient : (baselineCharge ctx sender).toNat / ctx.baseFee.toNat ≤ 21000 := by
    rw [hcharge]
    exact Nat.div_le_of_le_mul ((min_le_left _ _).trans (Nat.mul_comm _ _).le)
  have hproduct : (((baselineCharge ctx sender / ctx.baseFee).setWidth 64).setWidth 128 *
      ctx.baseFee).toNat = (baselineCharge ctx sender).toNat / ctx.baseFee.toNat * ctx.baseFee.toNat := by
    rw [BitVec.toNat_mul, BitVec.toNat_setWidth, BitVec.toNat_setWidth, BitVec.toNat_udiv]
    rw [mod_eq_of_lt (a := _ / _) (by omega), mod_eq_of_lt (a := _ / _) (by omega)]
    exact mod_eq_of_lt ((div_mul_le_self _ _).trans_lt (baselineCharge ctx sender).isLt)
  rw [hproduct]
  constructor
  · intro hexact
    by_cases hcovered : 21000 * ctx.baseFee.toNat ≤ sender.balance.toNat
    · exact .inl hcovered
    · rw [hcharge, min_eq_right (by omega)] at hexact
      exact .inr ⟨_, by rw [Nat.mul_comm]; exact hexact.symm⟩
  · intro hcovered
    apply Nat.div_mul_cancel
    rw [hcharge]
    rcases hcovered with hcovered | hdvd
    · rw [min_eq_left hcovered]
      exact ⟨21000, Nat.mul_comm _ _⟩
    rcases min_choice (21000 * ctx.baseFee.toNat) sender.balance.toNat with hmin | hmin
    · rw [hmin]
      exact ⟨21000, Nat.mul_comm _ _⟩
    · rw [hmin]
      exact hdvd

variable (P pvm aot tx ctx st stateRoot) in
/-- The receipt of a transaction that went through its handler. -/
theorem receipt_of_runHandler (sender rcpt payer payee : Account) :
    let outcome := (runIn P (dispatch P pvm aot tx ctx payer) st).1.1
    let made := (runIn P (runHandler P pvm aot tx ctx stateRoot sender rcpt payer payee) st).1
    made.gasUsed = outcome.gasUsed ∧ made.gasRefund = lesser outcome.gasRefund (outcome.gasUsed / 2) ∧
      made.feePaid =
        (outcome.gasUsed - lesser outcome.gasRefund (outcome.gasUsed / 2)).setWidth 128 * ctx.baseFee := by
  simp only [runHandler, run_bind, run_pure, generateReceipt]
  rw [(refundSender_snd _ _).1, (refundSender_snd _ _).2]
  exact ⟨trivial, rfl, rfl⟩

theorem refund_le_half (gasUsed gasRefund : U64) : (lesser gasRefund (gasUsed / 2)).toNat ≤ gasUsed.toNat / 2 := by
  rw [lesser_toNat, BitVec.toNat_udiv]
  exact min_le_right _ _

theorem effective_eq_zero (gasUsed gasRefund : U64) :
    (gasUsed - lesser gasRefund (gasUsed / 2)).toNat = 0 ↔ gasUsed = 0 := by
  have hhalf := refund_le_half gasUsed gasRefund
  generalize lesser gasRefund (gasUsed / 2) = refund at hhalf
  constructor
  · intro h
    bv_omega
  · intro h
    bv_omega

theorem fee_eq_zero {baseFee : U128} (gasRefund : U64) (h : baseFee = 0 ∨ gasUsed = 0) :
    (gasUsed - lesser gasRefund (gasUsed / 2)).setWidth 128 * baseFee = 0 := by
  rcases h with hbase | hgas
  · simp [hbase]
  have hzero := (effective_eq_zero gasUsed gasRefund).mpr hgas
  rw [BitVec.eq_of_toNat_eq (hzero.trans (BitVec.toNat_ofNat 0 64).symm)]
  simp

/-- Within the limit the product does not wrap, so the fee is zero only if a factor is. -/
theorem fee_eq_zero_iff (hused : gasUsed ≤ tx.gasLimit) (hfits : tx.gasLimit.toNat * ctx.baseFee.toNat < 2 ^ 128) :
    ((gasUsed - lesser gasRefund (gasUsed / 2)).setWidth 128 * ctx.baseFee).toNat = 0 ↔
      ctx.baseFee = 0 ∨ gasUsed = 0 := by
  have hbound : (gasUsed - lesser gasRefund (gasUsed / 2)).toNat ≤ tx.gasLimit.toNat := by
    have hhalf := refund_le_half gasUsed gasRefund
    generalize lesser gasRefund (gasUsed / 2) = refund at hhalf
    bv_omega
  have hproduct := (Nat.mul_le_mul_right ctx.baseFee.toNat hbound).trans_lt hfits
  have hfee : ctx.baseFee = 0 ↔ ctx.baseFee.toNat = 0 := BitVec.toNat_eq
  rw [← effective_eq_zero gasUsed gasRefund, hfee, BitVec.toNat_mul,
    BitVec.toNat_setWidth_of_le (by decide), mod_eq_of_lt hproduct]
  exact Nat.mul_eq_zero.trans or_comm

/-- What a sender is debited for a gas figure: nothing if a factor is zero, and within the limit only
then. -/
theorem debit_eq_zero (gasUsed gasRefund : U64)
    (hcharge : preExecutionCharge tx purse ctx.baseFee = .ok (charge, left)) (hpayer : tx.feePayer = .sender) :
    let debit : Int := charge.toNat - (refundAmount tx ctx gasUsed (lesser gasRefund (gasUsed / 2))).toNat
    (ctx.baseFee = 0 ∨ gasUsed = 0 → debit = 0) ∧
      (gasUsed ≤ tx.gasLimit → 0 ≤ debit ∧ (debit = 0 → ctx.baseFee = 0 ∨ gasUsed = 0)) := by
  obtain ⟨hfits, hcases⟩ := preExecutionCharge_ok hcharge
  have hamount : charge.toNat = tx.gasLimit.toNat * ctx.baseFee.toNat := by
    rcases hcases with ⟨-, hamount, -⟩ | ⟨addr, hother, -⟩ | ⟨addr, hother, -⟩
    · exact hamount
    · rw [hpayer] at hother
      cases hother
    · rw [hpayer] at hother
      cases hother
  dsimp only
  constructor
  · rintro (hbase | hgas)
    · have hnothing : refundAmount tx ctx gasUsed (lesser gasRefund (gasUsed / 2)) = 0 := by
        simp [refundAmount, hbase]
      rw [hamount, hbase, hnothing]
      rfl
    · have hused : gasUsed ≤ tx.gasLimit := by
        rw [hgas]
        bv_omega
      have hsum := fee_of_gas_within gasRefund hused hfits
      have hfee := (fee_eq_zero_iff gasRefund hused hfits).mpr (.inr hgas)
      omega
  · intro hused
    have hsum := fee_of_gas_within gasRefund hused hfits
    refine ⟨by omega, fun hdebit => ?_⟩
    apply (fee_eq_zero_iff gasRefund hused hfits).mp
    omega

/-- What the receipt says about a transaction whose handler ran, if the gas used is within the limit. -/
theorem fee_of_charged (gasRefund : U64)
    (hcharge : preExecutionCharge tx purse ctx.baseFee = .ok (charge, left)) (hused : gasUsed ≤ tx.gasLimit) :
    let fee := (gasUsed - lesser gasRefund (gasUsed / 2)).setWidth 128 * ctx.baseFee
    (fee.toNat : Int) =
        (match tx.feePayer with
        | .paymaster _ => (charge.toNat : Int)
        | _ => charge.toNat - (refundAmount tx ctx gasUsed (lesser gasRefund (gasUsed / 2))).toNat) ↔
      ((∃ addr, tx.feePayer = .paymaster addr) → ctx.baseFee = 0 ∨ gasUsed = 0) := by
  obtain ⟨hfits, hcases⟩ := preExecutionCharge_ok hcharge
  have hsum := fee_of_gas_within gasRefund hused hfits
  dsimp only
  rcases hcases with ⟨hpayer, hamount, -⟩ | ⟨addr, hpayer, hamount, -⟩ | ⟨addr, hpayer, hamount, -⟩
  · simp only [hpayer, reduceCtorEq, exists_false, false_implies, iff_true]
    omega
  · simp only [hpayer, reduceCtorEq, exists_false, false_implies, iff_true]
    omega
  simp only [hpayer, hamount, FeePayer.paymaster.injEq, exists_eq', forall_const]
  rw [Nat.cast_inj]
  exact fee_eq_zero_iff gasRefund hused hfits

/-- A key registration costs nothing, so the charge for it cannot fail. -/
theorem charge_free {reason : String} (hgas : tx.gasLimit = 0) (hvalue : tx.value = 0) :
    preExecutionCharge tx purse ctx.baseFee ≠ .error reason := by
  intro h
  cases hpayer : tx.feePayer <;>
    simp [preExecutionCharge, checkedMul, checkedAdd, hgas, hvalue, hpayer] at h

/-- A charge fails only for a transaction with a gas limit, and then the baseline does not overflow. -/
theorem baseline_of_failed_charge {sender : Account} {purse : Purse}
    {vesting : Option VestingSchedule} {reason : String}
    (hvalid : validateTransaction P tx sender nonceState (validationContext ctx vesting) = .ok ())
    (hcharge : preExecutionCharge tx purse ctx.baseFee = .error reason) :
    minGasLimit ≤ tx.gasLimit ∧ tx.gasLimit.toNat * ctx.baseFee.toNat < 2 ^ 128 ∧
      minGasLimit.toNat * ctx.baseFee.toNat < 2 ^ 128 := by
  rcases validateTransaction_funds hvalid with ⟨_, hgas, hvalue⟩ | ⟨_, _, hmin, _, _, hfits, _⟩
  · exact absurd hcharge (charge_free hgas hvalue)
  have hproduct : tx.gasLimit.toNat * ctx.baseFee.toNat < 2 ^ 128 := (Nat.le_add_right _ _).trans_lt hfits
  have hle := Nat.mul_le_mul_right ctx.baseFee.toNat (BitVec.le_def.mp hmin)
  exact ⟨hmin, hproduct, hle.trans_lt hproduct⟩

/-- For a transaction whose handler runs, the condition is about the gas the handler reports. -/
theorem gasAccounted_iff_of_charged {rcpt payer payee : Account}
    (hvalid : validateTransaction P tx (acctAt P st tx.fromAddress) nonceState
      (validationContext ctx vesting) = .ok ())
    (hcharge : preExecutionCharge tx (acctAt P st tx.fromAddress).purse ctx.baseFee = .ok (charge, purse))
    (htransfer : transferFor tx ((acctAt P st tx.fromAddress).charged purse) rcpt = .ok (payer, payee))
    {outcome : Outcome}
    (houtcome : (runIn P (dispatch P pvm aot tx ctx payer) (nonceRecorded P tx st)).1.1 = outcome) :
    GasAccounted P pvm aot tx ctx st ↔ outcome.gasUsed ≤ tx.gasLimit ∧
        ((∃ addr, tx.feePayer = .paymaster addr) → ctx.baseFee = 0 ∨ outcome.gasUsed = 0) := by
  have hfunds := validateTransaction_funds hvalid
  have hdisabled : tx.txType ≠ .stakeWithdraw := by
    rcases hfunds with ⟨htype, _⟩ | ⟨_, hdisabled, _⟩
    · simp [htype]
    · exact hdisabled
  have hlimit : tx.txType ≠ .registerPubkey → minGasLimit ≤ tx.gasLimit := by
    intro htype
    rcases hfunds with ⟨hregister, _⟩ | ⟨_, _, hmin, _⟩
    · exact absurd hregister htype
    · exact hmin
  obtain ⟨hcovers, hnone⟩ := gasLimitCovers_transferFor P pvm aot ctx (nonceRecorded P tx st) htransfer
  obtain ⟨hgasLe, hgasZero⟩ := gas_dispatch P pvm aot ctx (nonceRecorded P tx st) hdisabled hlimit payer
  unfold GasAccounted
  simp only [hcharge]
  rw [← hcovers, ← hnone, ← hgasLe, ← hgasZero, houtcome]

/-- The fee in a receipt is what the payer was debited for gas, and the gas used is within the limit,
exactly if the gas is accounted for. -/
theorem fee_exact_iff_gas_accounted
    (hreceipt : (runIn P (executeTransaction P pvm aot tx ctx stateRoot) st).1 = .ok receipt) :
    ((receipt.feePaid.toNat : Int) = gasDebited tx ctx (acctAt P st tx.fromAddress) receipt ∧
        receipt.gasUsed ≤ tx.gasLimit) ↔ GasAccounted P pvm aot tx ctx st := by
  obtain ⟨⟨vesting, hvalid⟩, hperform⟩ := receipt_of_perform hreceipt
  rw [hperform] at hreceipt
  rcases perform_cases P pvm aot tx ctx stateRoot (nonceRecorded P tx st)
      (acctAt P st tx.fromAddress) (acctAt P st tx.toAddress) with
    ⟨reason, hcharge, hrun⟩ | ⟨charge, purse, hcharge,
      ⟨reason, -, hrun⟩ | ⟨payer, payee, htransfer, hrun⟩⟩
  · -- the charge failed
    rw [hrun] at hreceipt
    have hmade := Except.ok.inj hreceipt
    obtain ⟨hmin, -, hbaseline⟩ := baseline_of_failed_charge hvalid hcharge
    have hused : receipt.gasUsed ≤ tx.gasLimit := by
      rw [← hmade]
      exact hmin
    unfold gasDebited GasAccounted
    simp only [hcharge]
    rw [and_iff_left hused, ← hmade, Nat.cast_inj]
    exact fee_of_failed_charge hbaseline _ _
  · rw [hrun] at hreceipt
    cases hreceipt
  · -- the handler ran
    rw [hrun] at hreceipt
    have hmade := Except.ok.inj hreceipt
    obtain ⟨hgas, hrefund, hfee⟩ := receipt_of_runHandler P pvm aot tx ctx (nonceRecorded P tx st)
      stateRoot (acctAt P st tx.fromAddress) (acctAt P st tx.toAddress) payer payee
    rw [hmade] at hgas hrefund hfee
    rw [gasAccounted_iff_of_charged hvalid hcharge htransfer rfl, gasDebited, hcharge, hgas, hrefund, hfee, and_comm]
    exact and_congr_right fun hused => fee_of_charged _ hcharge hused

end

/-! ### Claims with and without a gas limit to match -/

def mainContext : BlockContext :=
  { height := 1, timestamp := 0, baseFee := 1, blockGasLimit := gasTarget, chainId := 1,
    devSkipSignature := false, blockSigsPreVerified := false }

def keyedState : StateMap :=
  StateProgram.insert stored (fun _ => none) (balanceKey lucid (fill32 1))
    { Account.empty (fill32 1) with balance := 1000000, authKeys := .single (lucidKey 7) }.toBytes

/-- Sign with the key of that account. -/
def signedByKey (tx : Transaction) : Transaction :=
  { tx with signature := (lucidSignature [7] (tx.hash lucid).toList).bytes }

def emptyClaim (gasLimit : U64) : Transaction :=
  signedByKey
    { fromAddress := fill32 1, toAddress := zeroAddress, value := 0, data := [], gasLimit,
      nonce := 0, signature := [], feePayer := .sender, accessList := [], deadline := none, chainId := 1,
      txType := .claimAirdrop }

def emptyClaimReceipt (gasLimit : U64) : Receipt :=
  generateReceipt lucid (emptyClaim gasLimit) false 30000 0 30000 1 [] zero32
    (ascii "airdrop payload malformed")

theorem run_emptyClaim_covered :
    (runIn lucid (executeTransaction lucid idlePvm false (emptyClaim 30000) mainContext
      zero32) keyedState).1 = .ok (emptyClaimReceipt 30000) := by
  decide +kernel

/-- With a limit of 30000, the fee of a claim without a payload is exact. -/
theorem fee_exact_emptyClaim :
    (runIn lucid (executeTransaction lucid idlePvm false (emptyClaim 30000) mainContext
        zero32) keyedState).1 = .ok (emptyClaimReceipt 30000) ∧
      ((emptyClaimReceipt 30000).feePaid.toNat : Int) = gasDebited (emptyClaim 30000) mainContext
        (acctAt lucid keyedState (emptyClaim 30000).fromAddress) (emptyClaimReceipt 30000) ∧
      (emptyClaimReceipt 30000).gasUsed ≤ (emptyClaim 30000).gasLimit := by
  refine ⟨run_emptyClaim_covered, (fee_exact_iff_gas_accounted run_emptyClaim_covered).mpr ?_⟩
  have hcharge : preExecutionCharge (emptyClaim 30000)
      (acctAt lucid keyedState (emptyClaim 30000).fromAddress).purse mainContext.baseFee =
        .ok (30000, { balance := 970000, gasTank := 0 }) := by
    decide +kernel
  unfold GasAccounted
  simp only [hcharge]
  refine ⟨fun _ => by decide, ?_⟩
  rintro ⟨addr, hpayer⟩
  cases hpayer

/-- With a limit of 21000 it passes validation too. The receipt says 30000, the sender pays 21000. -/
theorem fee_not_debited :
    (runIn lucid (executeTransaction lucid idlePvm false (emptyClaim 21000) mainContext
        zero32) keyedState).1 = .ok (emptyClaimReceipt 21000) ∧
      (emptyClaimReceipt 21000).feePaid = 30000 ∧ (emptyClaimReceipt 21000).gasUsed = 30000 ∧
      gasDebited (emptyClaim 21000) mainContext
        (acctAt lucid keyedState (emptyClaim 21000).fromAddress) (emptyClaimReceipt 21000) = 21000 ∧
      (acctAt lucid (runIn lucid (executeTransaction lucid idlePvm false
        (emptyClaim 21000) mainContext zero32) keyedState).2 (fill32 1)).balance = 1000000 - 21000 := by
  decide +kernel

end Pyde
