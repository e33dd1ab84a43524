/-
Module: Pyde.Tx.AirdropClaims
Purpose: Claims and sweeps of an airdrop, through the whole pipeline: each leaf of the tree is paid at most once and
  to its own address, the pool pays for it, and the proofs of the builder are accepted.
Trusted boundary: the sponge over field elements, Pvm
-/
import Pyde.Tx.AirdropTree
import Pyde.Tx.SystemTransactions

namespace Pyde

open ByteCodec StateProgram

variable {key : StateKey} {addr : Address} {answer : Outcome × Account} {after : StateMap} {charge : U128}
  {purse : Purse}

/-! ### What the state says about the airdrop -/

section

variable (P : Prims) (st : StateMap)

def airdropRoot : Option Hash256 := (runIn P readAirdropRoot st).1

def airdropDeadline : Option U64 := (runIn P readAirdropDeadline st).1

def leafClaimed (leafIndex : U64) : Bool := (st (airdropClaimedKey P leafIndex)).isSome

def poolBalance : U128 := (acctAt P st (airdropPoolAddress P)).balance

def treasuryBalance : U128 := (acctAt P st (treasuryAddress P)).balance

/-- What a claim has to pass to be paid. -/
structure Claimable (tx : Transaction) (ctx : BlockContext) (payload : ClaimPayload) : Prop where
  decoded : ClaimPayload.decode tx.data = some payload
  gas : airdropClaimGas payload ≤ tx.gasLimit
  window : ∃ deadline, airdropDeadline P st = some deadline ∧ ctx.height ≤ deadline
  unclaimed : leafClaimed P st payload.leafIndex = false
  proven : ∃ root, airdropRoot P st = some root ∧
    verifyProof P payload.leafIndex tx.fromAddress payload.amount payload.proof root = true
  covered : payload.amount ≤ poolBalance P st

structure Sweepable (tx : Transaction) (ctx : BlockContext) : Prop where
  gas : (40000 : U64) ≤ tx.gasLimit
  window : ∃ deadline, airdropDeadline P st = some deadline ∧ deadline < ctx.height

def claimPaid (payload : ClaimPayload) : StateMap :=
  StateProgram.insert stored
    (StateProgram.insert stored st (balanceKey P (airdropPoolAddress P))
      ((acctAt P st (airdropPoolAddress P)).setBalance (poolBalance P st - payload.amount)).toBytes)
    (airdropClaimedKey P payload.leafIndex) [0x01]

def poolSwept : StateMap :=
  StateProgram.insert stored
    (StateProgram.insert stored st (balanceKey P (airdropPoolAddress P))
      ((acctAt P st (airdropPoolAddress P)).setBalance 0).toBytes)
    (balanceKey P (treasuryAddress P))
    ((acctAt P st (treasuryAddress P)).setBalance
      (satAdd (treasuryBalance P st) (poolBalance P st))).toBytes

end

section

variable (P : Prims) (st : StateMap) (tx : Transaction) (ctx : BlockContext)

/-- A claim fails and leaves everything as it is, or it passes every check and is paid. -/
def ClaimRun (balance : U128) (res : (Outcome × U128) × StateMap) : Prop :=
  (res.1.1.success = false ∧ res.1.2 = balance ∧ res.2 = st ∧
    ∀ payload, ¬ Claimable P st tx ctx payload) ∨ (∃ payload, Claimable P st tx ctx payload ∧
    res = ((.done (airdropClaimGas payload) (toLe payload.amount), satAdd balance payload.amount),
      claimPaid P st payload))

/-- A sweep fails and leaves everything as it is, or it moves the pool to the treasury. -/
def SweepRun (res : Outcome × StateMap) : Prop :=
  (res.1.success = false ∧ res.2 = st ∧ ¬ Sweepable P st tx ctx) ∨
  (Sweepable P st tx ctx ∧ res.1.success = true ∧ res.1.gasUsed = 40000 ∧ res.1.gasRefund = 0 ∧
    (poolBalance P st = 0 ∧ res.2 = st ∨ res.2 = poolSwept P st))

end

section

variable {P : Prims} {st : StateMap} {tx : Transaction} {ctx : BlockContext}

theorem run_readAirdropDeadline_bind {α : Type} (next : Option U64 → StateProg α) :
    runIn P (readAirdropDeadline >>= next) st = runIn P (next (airdropDeadline P st)) st := rfl

theorem run_readAirdropRoot_bind {α : Type} (next : Option Hash256 → StateProg α) :
    runIn P (readAirdropRoot >>= next) st = runIn P (next (airdropRoot P st)) st := rfl

theorem run_isAirdropClaimed_bind {α : Type} (leafIndex : U64) (next : Bool → StateProg α) :
    runIn P (isAirdropClaimed leafIndex >>= next) st =
      runIn P (next (leafClaimed P st leafIndex)) st := rfl

theorem run_payAirdrop (hpool : Filed P st (airdropPoolAddress P)) {payload : ClaimPayload}
    (hcovered : payload.amount ≤ poolBalance P st) (balance : U128) :
    runIn P (payAirdrop P payload balance) st =
      ((.done (airdropClaimGas payload) (toLe payload.amount), satAdd balance payload.amount),
        claimPaid P st payload) := by
  have hnot : ¬ (acctAt P st (airdropPoolAddress P)).balance < payload.amount := BitVec.not_lt.mpr hcovered
  unfold payAirdrop
  rw [run_loadAccount_bind, if_neg hnot]
  simp only [markAirdropClaimed, run_bind, run_write, run_pure, run_storeBalance hpool]
  rfl

variable (tx ctx) in
theorem claimRun_executeClaimAirdrop (hpool : Filed P st (airdropPoolAddress P)) (balance : U128) :
    ClaimRun P st tx ctx balance (runIn P (executeClaimAirdrop P tx ctx balance) st) := by
  unfold executeClaimAirdrop
  cases hdecode : ClaimPayload.decode tx.data with
  | none =>
    refine .inl ⟨rfl, rfl, rfl, fun payload h => ?_⟩
    cases hdecode.symm.trans h.decoded
  | some payload =>
    have honly : ∀ {other}, Claimable P st tx ctx other → other = payload := fun h =>
      (Option.some.inj (hdecode.symm.trans h.decoded)).symm
    dsimp only
    split
    next hgas =>
      refine .inl ⟨rfl, rfl, rfl, fun other h => ?_⟩
      exact absurd hgas (BitVec.not_lt.mpr (honly h ▸ h.gas))
    rename_i hgas
    rw [run_readAirdropDeadline_bind]
    split
    next hnone =>
      refine .inl ⟨rfl, rfl, rfl, fun other h => ?_⟩
      obtain ⟨_, hdeadline, -⟩ := h.window
      cases hnone.symm.trans hdeadline
    rename_i deadline hdeadline
    split
    next hlate =>
      refine .inl ⟨rfl, rfl, rfl, fun other h => ?_⟩
      obtain ⟨_, hsame, hopen⟩ := h.window
      cases hdeadline.symm.trans hsame
      exact absurd hlate (BitVec.not_lt.mpr hopen)
    next hopen =>
      rw [run_readAirdropRoot_bind]
      split
      next hnone =>
        refine .inl ⟨rfl, rfl, rfl, fun other h => ?_⟩
        obtain ⟨_, hroot, -⟩ := h.proven
        cases hnone.symm.trans hroot
      rename_i root hroot
      rw [run_isAirdropClaimed_bind]
      split
      next hclaimed =>
        refine .inl ⟨rfl, rfl, rfl, fun other h => ?_⟩
        have hunclaimed := h.unclaimed
        rw [honly h, hclaimed] at hunclaimed
        cases hunclaimed
      next hclaimed =>
        split
        next hproof =>
          refine .inl ⟨rfl, rfl, rfl, fun other h => ?_⟩
          obtain ⟨_, hsame, hproven⟩ := h.proven
          cases hroot.symm.trans hsame
          rw [honly h, hproof] at hproven
          cases hproven
        next hproof =>
          by_cases hcovered : payload.amount ≤ poolBalance P st
          · refine .inr ⟨payload, ?_, run_payAirdrop hpool hcovered balance⟩
            exact
              { decoded := hdecode
                gas := BitVec.not_lt.mp hgas
                window := ⟨deadline, hdeadline, BitVec.not_lt.mp hopen⟩
                unclaimed := Bool.eq_false_of_not_eq_true hclaimed
                proven := ⟨root, hroot, Bool.eq_true_of_not_eq_false hproof⟩
                covered := hcovered }
          have hshort : (acctAt P st (airdropPoolAddress P)).balance < payload.amount :=
            BitVec.not_le.mp hcovered
          unfold payAirdrop
          rw [run_loadAccount_bind, if_pos hshort]
          exact .inl ⟨rfl, rfl, rfl, fun other h => hcovered (honly h ▸ h.covered)⟩

variable (tx ctx) in
theorem sweepRun_executeSweepAirdrop (hpool : Filed P st (airdropPoolAddress P))
    (htreasury : Filed P st (treasuryAddress P)) :
    SweepRun P st tx ctx (runIn P (executeSweepAirdrop P tx ctx) st) := by
  unfold executeSweepAirdrop
  split
  next hgas => exact .inl ⟨rfl, rfl, fun h => absurd hgas (BitVec.not_lt.mpr h.gas)⟩
  rename_i hgas
  rw [run_readAirdropDeadline_bind]
  split
  next hnone =>
    refine .inl ⟨rfl, rfl, fun h => ?_⟩
    obtain ⟨_, hdeadline, -⟩ := h.window
    cases hnone.symm.trans hdeadline
  rename_i deadline hdeadline
  split
  next hearly =>
    refine .inl ⟨rfl, rfl, fun h => ?_⟩
    obtain ⟨_, hsame, hover⟩ := h.window
    cases hdeadline.symm.trans hsame
    exact absurd hover (BitVec.not_lt.mpr hearly)
  next hover =>
    have hsweepable : Sweepable P st tx ctx :=
      { gas := BitVec.not_lt.mp hgas
        window := ⟨deadline, hdeadline, BitVec.not_le.mp hover⟩ }
    rw [run_loadAccount_bind]
    split
    next hempty => exact .inr ⟨hsweepable, rfl, rfl, rfl, .inl ⟨hempty, rfl⟩⟩
    refine .inr ⟨hsweepable, rfl, rfl, rfl, .inr ?_⟩
    rw [run_loadAccount_bind]
    simp only [run_bind, run_pure, run_storeBalance hpool, run_storeBalance htreasury]
    rfl

end

/-! ### The writes of a claim and of a sweep -/

section

variable {P : Prims} {keys : Set StateKey} {st st' : StateMap}

theorem SameSystem.airdropRoot (h : SameSystem P keys st st') (hkey : .single .airdropRoot ∈ keys) :
    Pyde.airdropRoot P st' = Pyde.airdropRoot P st := by
  have hsame := h _ hkey (by rintro ⟨addr, heq | heq⟩ <;> cases heq)
  unfold Pyde.airdropRoot readAirdropRoot
  simp only [run_bind, run_read, run_pure, hsame]

theorem SameSystem.airdropDeadline (h : SameSystem P keys st st')
    (hkey : .single .airdropDeadline ∈ keys) :
    Pyde.airdropDeadline P st' = Pyde.airdropDeadline P st := by
  have hsame := h _ hkey (by rintro ⟨addr, heq | heq⟩ <;> cases heq)
  unfold Pyde.airdropDeadline readAirdropDeadline readInt
  simp only [run_bind, run_read, run_pure, hsame]

theorem SameSystem.leafClaimed (h : SameSystem P keys st st') {leafIndex : U64}
    (hkey : .indexed .airdropClaimed leafIndex ∈ keys) :
    Pyde.leafClaimed P st' leafIndex = Pyde.leafClaimed P st leafIndex := by
  have hsame := h _ hkey (by rintro ⟨addr, heq | heq⟩ <;> cases heq)
  unfold Pyde.leafClaimed airdropClaimedKey
  rw [hsame]

structure AirdropKeys (P : Prims) (keys : Set StateKey) : Prop where
  root : StateKey.single .airdropRoot ∈ keys
  deadline : StateKey.single .airdropDeadline ∈ keys
  pool : StateKey.account (airdropPoolAddress P) .balance ∈ keys
  treasury : StateKey.account (treasuryAddress P) .balance ∈ keys

section

variable (hinj : HashApart P keys)

include hinj

theorem insert_of_ne {other : StateKey} (hkey : key ∈ keys) (hother : other ∈ keys) (hne : other ≠ key)
    (value : Bytes) : StateProgram.insert stored st (key.hash P) value (other.hash P) = st (other.hash P) :=
  Function.update_of_ne (fun heq => hne (hinj hother hkey heq)) _ _

theorem sameSystem_insert_record (haddr : .account addr .balance ∈ keys) (value : Bytes) :
    SameSystem P keys st (StateProgram.insert stored st (balanceKey P addr) value) := by
  intro key hkey hsystem
  apply insert_of_ne hinj haddr hkey
  rintro rfl
  exact hsystem (isRecord_balance addr)

theorem acctAt_insert_other (hkey : key ∈ keys) (haddr : .account addr .balance ∈ keys)
    (hne : key ≠ .account addr .balance) (value : Bytes) :
    acctAt P (StateProgram.insert stored st (key.hash P) value) addr = acctAt P st addr :=
  acctAt_insert_of_ne (fun heq => hne (hinj haddr hkey heq).symm) value

variable (hairdrop : AirdropKeys P keys) {payload : ClaimPayload}

include hairdrop

theorem acctAt_claimPaid (hleaf : .indexed .airdropClaimed payload.leafIndex ∈ keys)
    (haddr : .account addr .balance ∈ keys) :
    acctAt P (claimPaid P st payload) addr = if addr = airdropPoolAddress P then
        (acctAt P st (airdropPoolAddress P)).setBalance (poolBalance P st - payload.amount)
      else acctAt P st addr := by
  unfold claimPaid airdropClaimedKey
  rw [acctAt_insert_other hinj hleaf haddr (by rintro ⟨⟩)]
  exact acctAt_insert hinj hairdrop.pool haddr (storable_acctAt P st _)

theorem claimPaid_system (hleaf : .indexed .airdropClaimed payload.leafIndex ∈ keys) (hkey : key ∈ keys)
    (hsystem : ¬ IsRecord key) :
    claimPaid P st payload (key.hash P) =
      if key = .indexed .airdropClaimed payload.leafIndex then some [0x01] else st (key.hash P) := by
  unfold claimPaid
  split
  next heq =>
    subst heq
    exact Function.update_self _ _ _
  next hne =>
    exact (insert_of_ne hinj hleaf hkey hne _).trans (sameSystem_insert_record hinj hairdrop.pool _ key hkey hsystem)

theorem acctAt_poolSwept (haddr : .account addr .balance ∈ keys) :
    acctAt P (poolSwept P st) addr = if addr = treasuryAddress P then
        (acctAt P st (treasuryAddress P)).setBalance (satAdd (treasuryBalance P st) (poolBalance P st))
      else if addr = airdropPoolAddress P then (acctAt P st (airdropPoolAddress P)).setBalance 0
      else acctAt P st addr := by
  have hstorable : ∀ (other : Address) (balance : U128),
      ((acctAt P st other).setBalance balance).authKeys.Storable :=
    fun other _ => storable_acctAt P st other
  unfold poolSwept
  rw [acctAt_insert hinj hairdrop.treasury haddr (hstorable _ _),
    acctAt_insert hinj hairdrop.pool haddr (hstorable _ _)]

theorem sameSystem_poolSwept : SameSystem P keys st (poolSwept P st) :=
  (sameSystem_insert_record hinj hairdrop.pool _).trans (sameSystem_insert_record hinj hairdrop.treasury _)

end

end

/-! ### One transaction -/

/-- The sender is not the pool, the records in play are stored under their own addresses, and the balances in play
are together below the sign bit. -/
structure SoundStep (P : Prims) (step : ChainStep) : Prop where
  notPool : step.submission.tx.fromAddress ≠ airdropPoolAddress P
  sender : Filed P step.before step.submission.tx.fromAddress
  recipient : Filed P step.before step.submission.tx.toAddress
  pool : Filed P step.before (airdropPoolAddress P)
  treasury : Filed P step.before (treasuryAddress P)
  belowSign : (acctAt P step.before step.submission.tx.fromAddress).balance.toNat +
    (treasuryBalance P step.before).toNat + (poolBalance P step.before).toNat < 2 ^ 127

structure StepKeys (P : Prims) (pvm : Pvm) (keys : Set StateKey) (step : ChainStep) : Prop where
  nonce : StateKey.account step.submission.tx.fromAddress .nonce ∈ keys
  sender : StateKey.account step.submission.tx.fromAddress .balance ∈ keys
  recipient : StateKey.account step.submission.tx.toAddress .balance ∈ keys
  leaf : ∀ payload, ClaimPayload.decode step.submission.tx.data = some payload →
    StateKey.indexed .airdropClaimed payload.leafIndex ∈ keys
  written : ∀ key ∈ writtenKeys P (step.submission.program P pvm) step.before, key ∈ keys

section

variable (P : Prims) (pvm : Pvm)

/-- The payee has the amount more than before, apart from the fee of a transaction of its own. -/
def ChainStep.Credits (step : ChainStep) (payee : Address) (amt : U128) : Prop :=
  ∃ receipt, (step.run P pvm).1 = .ok receipt ∧ (acctAt P (step.run P pvm).2 payee).balance.toNat +
        (if payee = step.submission.tx.fromAddress ∧ step.submission.tx.feePayer = .sender then receipt.feePaid.toNat
          else 0) = (acctAt P step.before payee).balance.toNat + amt.toNat

def ChainStep.PaysNothing (step : ChainStep) (keys : Set StateKey) : Prop :=
  takesEffect (step.run P pvm).1 = false ∧ SameSystem P keys step.before (step.run P pvm).2 ∧
    poolBalance P (step.run P pvm).2 = poolBalance P step.before

/-- A leaf is paid: its flag is set, and the amount goes from the pool to the sender. -/
structure ChainStep.PaysLeaf (step : ChainStep) (keys : Set StateKey) (payload : ClaimPayload) : Prop where
  effect : takesEffect (step.run P pvm).1 = true
  claimable : Claimable P step.before step.submission.tx step.submission.ctx payload
  system : ∀ key ∈ keys, ¬ IsRecord key → (step.run P pvm).2 (key.hash P) =
    if key = .indexed .airdropClaimed payload.leafIndex then some [0x01] else step.before (key.hash P)
  pool : poolBalance P (step.run P pvm).2 = poolBalance P step.before - payload.amount
  credits : step.Credits P pvm step.submission.tx.fromAddress payload.amount

structure ChainStep.Sweeps (step : ChainStep) (keys : Set StateKey) : Prop where
  effect : takesEffect (step.run P pvm).1 = true
  sweepable : Sweepable P step.before step.submission.tx step.submission.ctx
  system : SameSystem P keys step.before (step.run P pvm).2
  pool : poolBalance P (step.run P pvm).2 = 0
  credits : step.Credits P pvm (treasuryAddress P) (poolBalance P step.before)

end

section

variable {P : Prims} {pvm : Pvm} {keys : Set StateKey} {step : ChainStep}

abbrev ChainStep.tx (step : ChainStep) : Transaction := step.submission.tx

abbrev ChainStep.ctx (step : ChainStep) : BlockContext := step.submission.ctx

variable (P) in
/-- The sender as the transaction found it. -/
abbrev ChainStep.sender (step : ChainStep) : Account := acctAt P step.before step.tx.fromAddress

variable (P) in
/-- The state in which the handler starts. -/
abbrev ChainStep.noted (step : ChainStep) : StateMap := nonceRecorded P step.tx step.before

section

variable {st st' : StateMap} {tx : Transaction} {ctx : BlockContext}

/-- Whether a claim is paid depends on the system keys and the pool. -/
theorem Claimable.congr {payload : ClaimPayload} (hairdrop : AirdropKeys P keys)
    (hleaf : ClaimPayload.decode tx.data = some payload → .indexed .airdropClaimed payload.leafIndex ∈ keys)
    (hsame : SameSystem P keys st st') (hpool : poolBalance P st' = poolBalance P st) :
    Claimable P st' tx ctx payload ↔ Claimable P st tx ctx payload := by
  constructor
  · intro h
    exact
      { decoded := h.decoded
        gas := h.gas
        window := hsame.airdropDeadline hairdrop.deadline ▸ h.window
        unclaimed := hsame.leafClaimed (hleaf h.decoded) ▸ h.unclaimed
        proven := hsame.airdropRoot hairdrop.root ▸ h.proven
        covered := hpool ▸ h.covered }
  · intro h
    exact
      { decoded := h.decoded
        gas := h.gas
        window := (hsame.airdropDeadline hairdrop.deadline).symm ▸ h.window
        unclaimed := (hsame.leafClaimed (hleaf h.decoded)).trans h.unclaimed
        proven := (hsame.airdropRoot hairdrop.root).symm ▸ h.proven
        covered := hpool.symm ▸ h.covered }

theorem Sweepable.congr (hairdrop : AirdropKeys P keys) (hsame : SameSystem P keys st st') :
    Sweepable P st' tx ctx ↔ Sweepable P st tx ctx := by
  constructor
  · exact fun h => { gas := h.gas, window := hsame.airdropDeadline hairdrop.deadline ▸ h.window }
  · exact fun h => { gas := h.gas, window := (hsame.airdropDeadline hairdrop.deadline).symm ▸ h.window }

end

section

variable (hinj : HashApart P keys) (hairdrop : AirdropKeys P keys)
  (hkeys : StepKeys P pvm keys step) (hsound : SoundStep P step)

include hinj hairdrop hkeys hsound

theorem paysNothing_of_unhandled (hvalue : step.tx.txType.carriesValue = false)
    (hnone : handlerRun P pvm step.submission step.before = none) : step.PaysNothing P pvm keys := by
  obtain ⟨heffect, hsame, hothers⟩ :=
    execute_unhandled hvalue hinj hkeys.nonce hkeys.sender hkeys.written hsound.sender hnone
  exact ⟨heffect, hsame, congrArg Account.balance (hothers _ hairdrop.pool hsound.notPool.symm)⟩

omit hairdrop hsound in
theorem filed_noted (haddr : .account addr .balance ∈ keys) (hfiled : Filed P step.before addr) :
    Filed P (step.noted P) addr := by
  unfold Filed
  rw [acctAt_noted hinj hkeys.nonce haddr]
  exact hfiled

omit hsound in
theorem poolBalance_noted :
    poolBalance P (step.noted P) = poolBalance P step.before :=
  congrArg Account.balance (acctAt_noted hinj hkeys.nonce hairdrop.pool)

/-- The pool is as the handler leaves it: the write-back is for the sender, who is somebody else. -/
theorem poolBalance_settled (hfiled : Filed P after step.tx.fromAddress)
    (hfiledTo : Filed P after step.tx.toAddress)
    (hauth : answer.2.authKeys = (step.sender P).authKeys) :
    poolBalance P (runIn P (settleSystem P step.submission step.before answer) after).2 = poolBalance P after := by
  unfold poolBalance
  rw [acctAt_settleSystem hinj hkeys.sender hkeys.recipient hairdrop.pool hfiled hfiledTo hauth,
    if_neg hsound.notPool.symm]

omit hairdrop hsound in
theorem sameSystem_settled
    (hend : EndsWith P pvm step.submission step.before (settleSystem P step.submission step.before answer) after) :
    SameSystem P keys after (step.run P pvm).2 := by
  have hsettled := sameSystem_of_writes (writesRecord_settle _ _ _ answer) hinj
    (fun key hkey => hkeys.written key (hend.written key hkey))
  rw [ChainStep.run, hend.run]
  exact hsettled

theorem paysNothing_of_failed
    (hend : EndsWith P pvm step.submission step.before (settleSystem P step.submission step.before answer)
      (step.noted P)) (hfailed : answer.1.success = false)
    (hauth : answer.2.authKeys = (step.sender P).authKeys) :
    step.PaysNothing P pvm keys := by
  have hsame := sameSystem_settled hinj hkeys hend
  have hsender := filed_noted hinj hkeys hkeys.sender hsound.sender
  have hrecipient := filed_noted hinj hkeys hkeys.recipient hsound.recipient
  refine ⟨?_, (sameSystem_nonceRecorded hinj hkeys.nonce).trans hsame, ?_⟩
  · rw [ChainStep.run, hend.run]
    exact hfailed
  · rw [ChainStep.run, hend.run]
    exact (poolBalance_settled hinj hairdrop hkeys hsound hsender hrecipient hauth).trans
      (poolBalance_noted hinj hairdrop hkeys)

omit hairdrop in
/-- What the write-back leaves of the sender's balance, where the handler left the sender's record alone. -/
theorem sender_settled (hfiledTo : Filed P after step.tx.toAddress)
    (hauth : answer.2.authKeys = (step.sender P).authKeys)
    (hkept : acctAt P after step.tx.fromAddress = step.sender P)
    (hsmall : (refundSender step.tx step.ctx answer.2 answer.1).1.balance.toNat < 2 ^ 127) :
    (acctAt P (runIn P (settleSystem P step.submission step.before answer) after).2
        step.tx.fromAddress).balance =
      (refundSender step.tx step.ctx answer.2 answer.1).1.balance := by
  have hfiled : Filed P after step.tx.fromAddress := by
    unfold Filed
    rw [hkept]
    exact hsound.sender
  have hbelow := hsound.belowSign
  rw [acctAt_settleSystem hinj hkeys.sender hkeys.recipient hkeys.sender hfiled hfiledTo hauth, if_pos rfl,
    hkept]
  exact applyDelta_self (by omega) hsmall

theorem paysLeaf_of_paid {payload : ClaimPayload}
    (hcharge : preExecutionCharge step.tx (step.sender P).purse step.ctx.baseFee = .ok (charge, purse))
    (hclaimable : Claimable P step.before step.tx step.ctx payload)
    (hend : EndsWith P pvm step.submission step.before (settleSystem P step.submission step.before
      (.done (airdropClaimGas payload) (toLe payload.amount), ((step.sender P).charged purse).setBalance
          (satAdd purse.balance payload.amount)))
      (claimPaid P (step.noted P) payload)) :
    step.PaysLeaf P pvm keys payload := by
  have hleaf := hkeys.leaf payload hclaimable.decoded
  have hpoolNoted := poolBalance_noted hinj hairdrop hkeys
  have hpaid : ∀ {addr : Address}, .account addr .balance ∈ keys →
      acctAt P (claimPaid P (step.noted P) payload) addr =
        if addr = airdropPoolAddress P then
          (acctAt P step.before (airdropPoolAddress P)).setBalance (poolBalance P step.before - payload.amount)
        else acctAt P step.before addr := by
    intro addr haddr
    rw [acctAt_claimPaid hinj hairdrop hleaf haddr, hpoolNoted,
      acctAt_noted hinj hkeys.nonce hairdrop.pool, acctAt_noted hinj hkeys.nonce haddr]
  have hkept := hpaid hkeys.sender
  rw [if_neg hsound.notPool] at hkept
  have hsender : Filed P (claimPaid P (step.noted P) payload)
      step.tx.fromAddress := by
    unfold Filed
    rw [hkept]
    exact hsound.sender
  have hrecipient : Filed P (claimPaid P (step.noted P) payload)
      step.tx.toAddress := by
    unfold Filed
    rw [hpaid hkeys.recipient]
    split
    next heq =>
      rw [heq]
      exact hsound.pool
    next => exact hsound.recipient
  have hbelow : (step.sender P).balance.toNat + _ + _ < _ := hsound.belowSign
  have hcovered := BitVec.le_def.mp hclaimable.covered
  have hused : (Outcome.done (airdropClaimGas payload) (toLe payload.amount)).gasUsed ≤
      step.tx.gasLimit := hclaimable.gas
  have hrefund := refundSender_credited payload.amount hcharge hused (by omega)
  have hsystem := sameSystem_settled hinj hkeys hend
  refine
    { effect := ?_
      claimable := hclaimable
      system := ?_
      pool := ?_
      credits := ?_ }
  · rw [ChainStep.run, hend.run]
    rfl
  · intro key hkey hrecord
    rw [hsystem key hkey hrecord, claimPaid_system hinj hairdrop hleaf hkey hrecord, ChainStep.noted,
      sameSystem_nonceRecorded hinj hkeys.nonce key hkey hrecord]
  · rw [ChainStep.run, hend.run]
    dsimp only
    rw [poolBalance_settled hinj hairdrop hkeys hsound hsender hrecipient rfl, poolBalance, hpaid hairdrop.pool,
      if_pos rfl]
    rfl
  · refine ⟨_, by rw [ChainStep.run, hend.run], ?_⟩
    rw [ChainStep.run, hend.run]
    dsimp only
    rw [sender_settled hinj hkeys hsound hrecipient rfl hkept (by dsimp only; omega), feePaid_settleSystem]
    simp only [true_and]
    exact hrefund

/-- A claim: nothing is paid, because the handler is not reached or a check fails, or a leaf is paid. -/
theorem claim_step (htype : step.tx.txType = .claimAirdrop) :
    (step.PaysNothing P pvm keys ∧ ((handlerRun P pvm step.submission step.before).isSome = true →
      ∀ payload, ¬ Claimable P step.before step.tx step.ctx payload)) ∨
    ∃ payload, step.PaysLeaf P pvm keys payload := by
  have hvalue : step.tx.txType.carriesValue = false := by
    rw [htype]
    rfl
  rcases execute_valueless_cases P pvm step.submission step.before hvalue with
    ⟨hnone, -⟩ | ⟨hnone, -⟩ | ⟨charge, purse, hcharge, hhandler, hend⟩
  · refine .inl ⟨paysNothing_of_unhandled hinj hairdrop hkeys hsound hvalue hnone, fun hsome => ?_⟩
    rw [hnone] at hsome
    cases hsome
  · refine .inl ⟨paysNothing_of_unhandled hinj hairdrop hkeys hsound hvalue hnone, fun hsome => ?_⟩
    rw [hnone] at hsome
    cases hsome
  have hhandled : handled P pvm step.submission step.before purse =
      (((runIn P (executeClaimAirdrop P step.tx step.ctx purse.balance) (step.noted P)).1.1,
        ((step.sender P).charged purse).setBalance
          (runIn P (executeClaimAirdrop P step.tx step.ctx purse.balance) (step.noted P)).1.2),
        (runIn P (executeClaimAirdrop P step.tx step.ctx purse.balance) (step.noted P)).2) := by
    unfold handled Submission.handler dispatch
    rw [htype]
    simp only [withBalance, run_bind, run_pure]
    rfl
  have hcongr : ∀ payload, Claimable P (step.noted P) step.tx
      step.ctx payload ↔ Claimable P step.before step.tx step.ctx payload :=
    fun payload => Claimable.congr hairdrop (hkeys.leaf payload) (sameSystem_nonceRecorded hinj hkeys.nonce)
      (poolBalance_noted hinj hairdrop hkeys)
  rw [hhandled] at hend
  rcases claimRun_executeClaimAirdrop step.tx step.ctx
      (filed_noted hinj hkeys hairdrop.pool hsound.pool) purse.balance with
    ⟨hfailed, -, hstate, hnot⟩ | ⟨payload, hclaimable, hrun⟩
  · rw [hstate] at hend
    exact .inl ⟨paysNothing_of_failed hinj hairdrop hkeys hsound hend hfailed rfl,
      fun _ payload h => hnot payload ((hcongr payload).mpr h)⟩
  · rw [hrun] at hend
    exact .inr ⟨payload, paysLeaf_of_paid hinj hairdrop hkeys hsound hcharge ((hcongr payload).mp hclaimable) hend⟩

omit hairdrop in
/-- A payment that the handler made in the payee's record survives the write-back of the sender. -/
theorem credits_of_stored {amt : U128} {outcome : Outcome} {payee : Address}
    (hpayee : .account payee .balance ∈ keys) (hfiled : Filed P after step.submission.tx.fromAddress)
    (hfiledTo : Filed P after step.submission.tx.toAddress)
    (hcharge : preExecutionCharge step.submission.tx (acctAt P step.before step.submission.tx.fromAddress).purse
      step.submission.ctx.baseFee = .ok (charge, purse)) (hused : outcome.gasUsed ≤ step.submission.tx.gasLimit)
    (hend : EndsWith P pvm step.submission step.before (settleSystem P step.submission step.before
      (outcome, (acctAt P step.before step.submission.tx.fromAddress).charged purse)) after)
    (hstored : (acctAt P after payee).balance.toNat =
      (acctAt P step.before payee).balance.toNat + amt.toNat) :
    step.Credits P pvm payee amt := by
  have hbelow := hsound.belowSign
  have hrefund := refundSender_uncredited hcharge hused
  refine ⟨_, by rw [ChainStep.run, hend.run], ?_⟩
  rw [ChainStep.run, hend.run]
  dsimp only
  rw [acctAt_settleSystem hinj hkeys.sender hkeys.recipient hpayee hfiled hfiledTo rfl, feePaid_settleSystem]
  by_cases hown : payee = step.submission.tx.fromAddress
  · subst hown
    rw [if_pos rfl]
    simp only [true_and]
    have hlt := (acctAt P after step.submission.tx.fromAddress).balance.isLt
    have hexact : (applyDelta (acctAt P after step.submission.tx.fromAddress).balance
        (acctAt P step.before step.submission.tx.fromAddress).balance
        (refundSender step.submission.tx step.submission.ctx
          ((acctAt P step.before step.submission.tx.fromAddress).charged purse) outcome).1.balance).toNat +
        (acctAt P step.before step.submission.tx.fromAddress).balance.toNat = _ :=
      applyDelta_exact (by omega) (by omega) (by omega) (by omega)
    change (applyDelta _ _ _).toNat + _ = _
    omega
  · rw [if_neg hown, if_neg (fun h => hown h.1)]
    omega

theorem sweeps_of_swept {outcome : Outcome}
    (hcharge : preExecutionCharge step.tx (step.sender P).purse step.ctx.baseFee = .ok (charge, purse))
    (hsweepable : Sweepable P step.before step.tx step.ctx) (hdone : outcome.success = true)
    (hgas : outcome.gasUsed = 40000)
    (hend : EndsWith P pvm step.submission step.before (settleSystem P step.submission step.before
      (outcome, (step.sender P).charged purse)) after)
    (hsame : SameSystem P keys step.before after)
    (hfiled : ∀ {addr : Address}, .account addr .balance ∈ keys → Filed P step.before addr →
      Filed P after addr) (hpool : poolBalance P after = 0) (htreasury : (treasuryBalance P after).toNat =
      (treasuryBalance P step.before).toNat + (poolBalance P step.before).toNat) :
    step.Sweeps P pvm keys := by
  have hsender := hfiled hkeys.sender hsound.sender
  have hrecipient := hfiled hkeys.recipient hsound.recipient
  have hused : outcome.gasUsed ≤ step.tx.gasLimit := by
    rw [hgas]
    exact hsweepable.gas
  refine
    { effect := ?_
      sweepable := hsweepable
      system := hsame.trans (sameSystem_settled hinj hkeys hend)
      pool := ?_
      credits := credits_of_stored hinj hkeys hsound hairdrop.treasury hsender hrecipient hcharge hused hend htreasury }
  · rw [ChainStep.run, hend.run]
    exact hdone
  · rw [ChainStep.run, hend.run]
    exact (poolBalance_settled hinj hairdrop hkeys hsound hsender hrecipient rfl).trans hpool

/-- A sweep: nothing is paid, or the whole pool goes to the treasury. -/
theorem sweep_step (htype : step.tx.txType = .sweepAirdrop)
    (hapart : airdropPoolAddress P ≠ treasuryAddress P) : step.PaysNothing P pvm keys ∨ step.Sweeps P pvm keys := by
  have hvalue : step.tx.txType.carriesValue = false := by
    rw [htype]
    rfl
  rcases execute_valueless_cases P pvm step.submission step.before hvalue with
    ⟨hnone, -⟩ | ⟨hnone, -⟩ | ⟨charge, purse, hcharge, hhandler, hend⟩
  · exact .inl (paysNothing_of_unhandled hinj hairdrop hkeys hsound hvalue hnone)
  · exact .inl (paysNothing_of_unhandled hinj hairdrop hkeys hsound hvalue hnone)
  have hhandled : handled P pvm step.submission step.before purse =
      (((runIn P (executeSweepAirdrop P step.tx step.ctx) (step.noted P)).1, (step.sender P).charged purse),
        (runIn P (executeSweepAirdrop P step.tx step.ctx) (step.noted P)).2) := by
    unfold handled Submission.handler dispatch
    rw [htype]
    simp only [keepSender, run_bind, run_pure]
  rw [hhandled] at hend
  have hnoted : SameSystem P keys step.before (step.noted P) := sameSystem_nonceRecorded hinj hkeys.nonce
  have hpoolNoted := poolBalance_noted hinj hairdrop hkeys
  have htreasuryNoted : treasuryBalance P (step.noted P) =
      treasuryBalance P step.before :=
    congrArg Account.balance (acctAt_noted hinj hkeys.nonce hairdrop.treasury)
  rcases sweepRun_executeSweepAirdrop step.tx step.ctx
      (filed_noted hinj hkeys hairdrop.pool hsound.pool)
      (filed_noted hinj hkeys hairdrop.treasury hsound.treasury) with
    ⟨hfailed, hstate, -⟩ | ⟨hsweepable, hdone, hgas, -, hswept⟩
  · rw [hstate] at hend
    exact .inl (paysNothing_of_failed hinj hairdrop hkeys hsound hend hfailed rfl)
  have hsweepableBefore := (Sweepable.congr hairdrop hnoted).mp hsweepable
  right
  rcases hswept with ⟨hempty, hstate⟩ | hstate
  · rw [hstate] at hend
    rw [hpoolNoted] at hempty
    apply sweeps_of_swept hinj hairdrop hkeys hsound hcharge hsweepableBefore hdone hgas hend hnoted
      (fun haddr h => filed_noted hinj hkeys haddr h) (hpoolNoted.trans hempty)
    rw [htreasuryNoted, hempty]
    rfl
  rw [hstate] at hend
  have hbelow := hsound.belowSign
  apply sweeps_of_swept hinj hairdrop hkeys hsound hcharge hsweepableBefore hdone hgas hend
    (hnoted.trans (sameSystem_poolSwept hinj hairdrop))
  · intro addr haddr hfiled
    unfold Filed
    rw [acctAt_poolSwept hinj hairdrop haddr]
    split
    next heq =>
      rw [heq]
      exact filed_noted hinj hkeys hairdrop.treasury hsound.treasury
    split
    next heq =>
      rw [heq]
      exact filed_noted hinj hkeys hairdrop.pool hsound.pool
    next => exact filed_noted hinj hkeys haddr hfiled
  · rw [poolBalance, acctAt_poolSwept hinj hairdrop hairdrop.pool, if_neg hapart, if_pos rfl]
    rfl
  · rw [treasuryBalance, acctAt_poolSwept hinj hairdrop hairdrop.treasury, if_pos rfl]
    change (satAdd (treasuryBalance P _) (poolBalance P _)).toNat = _
    rw [hpoolNoted, htreasuryNoted, satAdd, if_pos (by omega), BitVec.toNat_add, Nat.mod_eq_of_lt (by omega)]

end

end

/-! ### What a step adds up to -/

section

variable (P : Prims) (pvm : Pvm)

def ChainStep.claim (step : ChainStep) : Option ClaimPayload :=
  if step.submission.tx.txType = .claimAirdrop ∧ takesEffect (step.run P pvm).1 = true then
    ClaimPayload.decode step.submission.tx.data
  else none

def ChainStep.sweeps (step : ChainStep) : Bool :=
  step.submission.tx.txType = .sweepAirdrop ∧ takesEffect (step.run P pvm).1 = true

/-- What a step takes out of the pool. -/
def ChainStep.paidOut (step : ChainStep) : Nat :=
  match step.claim P pvm with
  | some payload => payload.amount.toNat
  | none => if step.sweeps P pvm then (poolBalance P step.before).toNat else 0

/-- What a claim or a sweep does to root, deadline, flags and pool. -/
structure StepFacts (keys : Set StateKey) (step : ChainStep) : Prop where
  root : airdropRoot P (step.run P pvm).2 = airdropRoot P step.before
  deadline : airdropDeadline P (step.run P pvm).2 = airdropDeadline P step.before
  flags : ∀ leafIndex, StateKey.indexed .airdropClaimed leafIndex ∈ keys →
    (leafClaimed P (step.run P pvm).2 leafIndex = true ↔ leafClaimed P step.before leafIndex = true ∨
      ∃ payload, step.claim P pvm = some payload ∧ payload.leafIndex = leafIndex)
  pool : (poolBalance P (step.run P pvm).2).toNat + step.paidOut P pvm = (poolBalance P step.before).toNat
  paid : ∀ payload, step.claim P pvm = some payload →
    Claimable P step.before step.submission.tx step.submission.ctx payload ∧
      step.Credits P pvm step.submission.tx.fromAddress payload.amount
  swept : step.sweeps P pvm = true → step.Credits P pvm (treasuryAddress P) (poolBalance P step.before)
  accepts : ∀ payload, step.submission.tx.txType = .claimAirdrop →
    (handlerRun P pvm step.submission step.before).isSome = true →
    Claimable P step.before step.submission.tx step.submission.ctx payload → takesEffect (step.run P pvm).1 = true

end

section

variable {P : Prims} {pvm : Pvm} {keys : Set StateKey} {step : ChainStep}

theorem claim_eq_none_of_no_effect (h : takesEffect (step.run P pvm).1 = false) : step.claim P pvm = none := by
  unfold ChainStep.claim
  rw [h]
  exact if_neg (by simp)

theorem sweeps_of_no_effect (h : takesEffect (step.run P pvm).1 = false) : step.sweeps P pvm = false := by
  unfold ChainStep.sweeps
  rw [h]
  simp

theorem stepFacts_of_paysNothing (hairdrop : AirdropKeys P keys) (h : step.PaysNothing P pvm keys)
    (haccepts : ∀ payload, step.tx.txType = .claimAirdrop →
      (handlerRun P pvm step.submission step.before).isSome = true →
      ¬ Claimable P step.before step.tx step.ctx payload) :
    StepFacts P pvm keys step := by
  obtain ⟨heffect, hsame, hpool⟩ := h
  have hclaim := claim_eq_none_of_no_effect heffect
  have hsweeps := sweeps_of_no_effect heffect
  exact
    { root := hsame.airdropRoot hairdrop.root
      deadline := hsame.airdropDeadline hairdrop.deadline
      flags := by
        intro leafIndex hkey
        rw [hsame.leafClaimed hkey, hclaim]
        simp
      pool := by
        rw [ChainStep.paidOut, hclaim, hsweeps, hpool]
        rfl
      paid := by
        intro payload hpayload
        rw [hclaim] at hpayload
        cases hpayload
      swept := by
        intro hswept
        rw [hsweeps] at hswept
        cases hswept
      accepts := fun payload htype hsome hclaimable => absurd hclaimable (haccepts payload htype hsome) }

theorem stepFacts_of_paysLeaf (htype : step.tx.txType = .claimAirdrop) (hairdrop : AirdropKeys P keys)
    {payload : ClaimPayload} (h : step.PaysLeaf P pvm keys payload) : StepFacts P pvm keys step := by
  have hclaim : step.claim P pvm = some payload := by
    rw [ChainStep.claim, if_pos ⟨htype, h.effect⟩]
    exact h.claimable.decoded
  have hsweeps : step.sweeps P pvm = false := by
    rw [ChainStep.sweeps, htype]
    rfl
  have hglobal : ∀ field : GlobalField, .single field ∈ keys →
      (step.run P pvm).2 (globalKey P field) = step.before (globalKey P field) := by
    intro field hfield
    have hkey := h.system _ hfield (by rintro ⟨addr, heq | heq⟩ <;> cases heq)
    rw [if_neg nofun] at hkey
    exact hkey
  exact
    { root := by
        have hkey := hglobal .airdropRoot hairdrop.root
        unfold globalKey at hkey
        unfold airdropRoot readAirdropRoot
        simp only [run_bind, run_read, run_pure, hkey]
      deadline := by
        have hkey := hglobal .airdropDeadline hairdrop.deadline
        unfold globalKey at hkey
        unfold airdropDeadline readAirdropDeadline readInt
        simp only [run_bind, run_read, run_pure, hkey]
      flags := by
        intro leafIndex hindex
        have hkey := h.system _ hindex (by rintro ⟨addr, heq | heq⟩ <;> cases heq)
        unfold leafClaimed airdropClaimedKey
        rw [hkey, hclaim]
        by_cases hown : leafIndex = payload.leafIndex
        · subst hown
          simp
        · simp [hown, Ne.symm hown]
      pool := by
        have hcovered := BitVec.le_def.mp h.claimable.covered
        rw [ChainStep.paidOut, hclaim, h.pool, BitVec.toNat_sub_of_le h.claimable.covered]
        dsimp only
        omega
      paid := by
        intro other hother
        rw [hclaim] at hother
        cases hother
        exact ⟨h.claimable, h.credits⟩
      swept := by
        intro hswept
        rw [hsweeps] at hswept
        cases hswept
      accepts := fun _ _ _ _ => h.effect }

theorem stepFacts_of_sweeps (htype : step.tx.txType = .sweepAirdrop) (hairdrop : AirdropKeys P keys)
    (h : step.Sweeps P pvm keys) : StepFacts P pvm keys step := by
  have hclaim : step.claim P pvm = none := by
    rw [ChainStep.claim, htype]
    exact if_neg (by simp)
  have hsweeps : step.sweeps P pvm = true := by
    rw [ChainStep.sweeps, htype, h.effect]
    simp
  exact
    { root := h.system.airdropRoot hairdrop.root
      deadline := h.system.airdropDeadline hairdrop.deadline
      flags := by
        intro leafIndex hkey
        rw [h.system.leafClaimed hkey, hclaim]
        simp
      pool := by
        rw [ChainStep.paidOut, hclaim, hsweeps, h.pool]
        simp
      paid := by
        intro payload hpayload
        rw [hclaim] at hpayload
        cases hpayload
      swept := fun _ => h.credits
      accepts := by
        intro _ hclaimType
        rw [htype] at hclaimType
        cases hclaimType }

def TransactionType.isAirdrop : TransactionType → Bool
  | .claimAirdrop | .sweepAirdrop => true
  | _ => false

theorem stepFacts (hinj : HashApart P keys) (hairdrop : AirdropKeys P keys)
    (hapart : airdropPoolAddress P ≠ treasuryAddress P) (hkeys : StepKeys P pvm keys step)
    (hsound : SoundStep P step) (hkind : step.tx.txType.isAirdrop = true) : StepFacts P pvm keys step := by
  cases htype : step.tx.txType with
  | claimAirdrop =>
    rcases claim_step hinj hairdrop hkeys hsound htype with ⟨hnothing, hnot⟩ | ⟨payload, hpays⟩
    · exact stepFacts_of_paysNothing hairdrop hnothing fun payload _ hsome => hnot hsome payload
    · exact stepFacts_of_paysLeaf htype hairdrop hpays
  | sweepAirdrop =>
    rcases sweep_step hinj hairdrop hkeys hsound htype hapart with hnothing | hsweeps
    · apply stepFacts_of_paysNothing hairdrop hnothing
      intro payload hclaim
      rw [htype] at hclaim
      cases hclaim
    · exact stepFacts_of_sweeps htype hairdrop hsweeps
  | _ =>
    rw [htype] at hkind
    cases hkind

end

end Pyde
